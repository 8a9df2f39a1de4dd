import BlockMarkup.Config.Reader
import BlockMarkup.Program

namespace BlockMarkup.Main

def readText (path : Text) : IO (Except FileError Text) := do
  try
    return .ok (← IO.FS.readFile (String.ofList path)).toList
  catch
    | .noFileOrDirectory .. => return .error (.notFound path)
    | reason => return .error (.unusable (toString reason).toList)

def writeText (path content : Text) : IO (Except FileError Unit) := do
  try
    IO.FS.writeFile (String.ofList path) (String.ofList content)
    return .ok ()
  catch reason => return .error (.unusable (toString reason).toList)

def access : Access IO := ⟨readText, writeText⟩

def setVariables (names : List Text) : IO (List (Text × Text)) :=
  names.filterMapM fun name => do
    return (← IO.getEnv (String.ofList name)).map fun value => (name, value.toList)

-- The environment as far as the settings refer to it.
def environment : IO Config.Environment := do
  let home := ((← IO.getEnv "HOME").map String.toList).filter (· ≠ [])
  match ← readText (Config.library.filePath (.ofList home [])) with
  | .error _ => return .ofList home []
  | .ok content =>
    let referred := ((Config.library.ofText content).toOption.bind Config.document).elim []
      Config.references
    return .ofList home (← setVariables referred)

end BlockMarkup.Main

open BlockMarkup in
def main (arguments : List String) : IO UInt32 := do
  let environment ← Main.environment
  let outcome ← Program.run Main.access Config.library environment (arguments.map String.toList)
  IO.print (String.ofList outcome.output)
  IO.eprint (String.ofList outcome.errors)
  return outcome.code.toUInt32
