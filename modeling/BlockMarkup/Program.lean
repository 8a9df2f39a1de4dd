import BlockMarkup.Command
import BlockMarkup.Config.Library
import BlockMarkup.Inspector

namespace BlockMarkup

inductive Failure where
  | usage (reason : UsageError)
  | config (path : Text) (reason : ConfigError)
  -- No document is named, neither by the arguments nor in the file of that path.
  | noDocument (configPath : Text)
  | unopened (path : Text) (reason : FileError)
  | unsaved (path : Text) (reason : FileError)
  | refused (reason : EditError)
  | noBlock (line : Nat)
  | notTaggable (line : Nat)
deriving DecidableEq

def FileError.causes (reason : FileError) : List Text :=
  match reason with
  | .notFound _ => [reason.message]
  | .unusable detail => [reason.message, detail]

def hanging (first others : Text) (t : Text) : Text :=
  match splitLines t with
  | [] => first
  | line :: rest => joinLines ((first ++ line) :: rest.map (others ++ ·))

def describeCauses (causes : List Text) : Text :=
  match causes with
  | [cause] => hanging (Style.spaces 4) (Style.spaces 4) cause
  | _ =>
    joinLines (causes.zipIdx.map fun (cause, number) =>
      let digits := decimal number
      hanging (Style.spaces (5 - digits.length) ++ digits ++ [':', ' ']) (Style.spaces 7) cause)

def describeFileFailure (what path : Text) (reason : FileError) : Text :=
  "Failed to ".toList ++ what ++ " document '".toList ++ path ++ "'\n\nCaused by:\n".toList ++
    describeCauses reason.causes

namespace Failure

def message : Failure → Text
  | .usage reason => reason.message ++ '\n' :: BlockMarkup.usage
  | .config path reason => "Failed to load config file: ".toList ++ reason.message path
  | .noDocument configPath =>
    "No document given and no default_document configured\n".toList ++ BlockMarkup.usage ++
      "\nOr set default_document in ".toList ++ configPath
  | .unopened path reason => describeFileFailure "open".toList path reason
  | .unsaved path reason => describeFileFailure "save".toList path reason
  | .refused reason => reason.message
  | .noBlock line => "No block at line ".toList ++ decimal line
  | .notTaggable line => "Line ".toList ++ decimal line ++ " cannot be tagged".toList

end Failure

def signed (n : Int) : Text :=
  if n < 0 then '-' :: decimal n.natAbs else '+' :: decimal n.natAbs

def Command.perform {compile : Compiler} (command : Command) (session : Session compile) :
    Session compile × Except Failure (List Text) :=
  match command with
  | .locate line =>
    let session := session.setCursor line
    match session.cursorBlock? with
    | some block => (session, .ok (Report.describeBlock block session.graph))
    | none => (session, .error (.noBlock line))
  | .setProperty line key value =>
    match (session.setCursor line).setProperty key value with
    | (session, .ok true) => (session, .ok ["Updated '".toList ++ key ++ ['\'']])
    | (session, .ok false) => (session, .ok ["No change".toList])
    | (session, .error reason) => (session, .error (.refused reason))
  | .setStyle edit =>
    match session.applyStyle edit with
    | (session, .ok patch) =>
      (session, .ok ["Style updated (".toList ++ signed patch.delta ++ " lines from line ".toList ++
        decimal patch.shiftFrom ++ [')']])
    | (session, .error reason) => (session, .error (.refused reason))
  | .label line =>
    match (session.setCursor line).scopeBlock with
    | (session, .ok scope) => (session, .ok [scope])
    | (session, .error reason) => (session, .error (.refused reason))
  | .tag line =>
    match session.tagLine line with
    | (session, some target) => (session, .ok [target])
    | (session, none) => (session, .error (.notTaggable line))
  | .nextIdentifier => (session, .ok [Identifier.next session.source])
  | .styles =>
    (session,
      .ok [Report.describeStyles session.indent session.targets.classPrefix session.graph])
  | .inspect => (session, .ok (Inspector.start session []).lines)

structure Effect where
  printed : List Text
  changed : Option Text
deriving DecidableEq

def Command.execute (command : Command) (config : Config) (source : Text) :
    Except Failure Effect :=
  let session := Session.start compileStyles source config.indent config.targets
  match command.perform session with
  | (_, .error reason) => .error reason
  | (after, .ok printed) =>
    .ok ⟨printed,
      if command.writes && after.generation ≠ session.generation then some after.source else none⟩

structure Outcome where
  printed : List Text
  failure : Option Failure
deriving DecidableEq

namespace Outcome

def code (outcome : Outcome) : Nat := if outcome.failure.isSome then 1 else 0

def output (outcome : Outcome) : Text := outcome.printed.flatMap (· ++ ['\n'])

def errors (outcome : Outcome) : Text :=
  match outcome.failure with
  | some failure => "Error: ".toList ++ failure.message ++ ['\n']
  | none => []

end Outcome

structure Access (m : Type → Type) where
  read : Text → m (Except FileError Text)
  write : Text → Text → m (Except FileError Unit)

def Files.access : Access (StateM Files) where
  read path := fun files => (files.read path, files)
  write path content := fun files =>
    let (files, outcome) := files.write path (.text content)
    (outcome, files)

namespace Program

variable {m : Type → Type} [Monad m] {ε : Type}

def save (access : Access m) (path : Text) (effect : Effect) : m Outcome :=
  match effect.changed with
  | none => pure ⟨effect.printed, none⟩
  | some content => do
    match ← access.write path content with
    | .ok () => return ⟨effect.printed, none⟩
    | .error reason => return ⟨effect.printed, some (.unsaved path reason)⟩

def runOn (access : Access m) (config : Config) (command : Command) (path : Text) :
    m Outcome := do
  match ← access.read path with
  | .error reason => return ⟨[], some (.unopened path reason)⟩
  | .ok source =>
    match command.execute config source with
    | .error reason => return ⟨[], some reason⟩
    | .ok effect => save access path effect

-- Runs an invocation. A document that it names goes before the one that is set.
def runInvocation (access : Access m) (library : Config.Library ε) (environment : ε)
    (invocation : Invocation) : m Outcome := do
  let configPath := library.filePath environment
  match library.ofFile environment (← access.read configPath) with
  | .error reason => return ⟨[], some (.config configPath reason)⟩
  | .ok found =>
    let config := found.getD .default
    match invocation.document.or config.document with
    | none => return ⟨[], some (.noDocument configPath)⟩
    | some path => runOn access config invocation.command path

def run (access : Access m) (library : Config.Library ε) (environment : ε)
    (arguments : List Text) : m Outcome :=
  match Invocation.ofArguments arguments with
  | .error reason => pure ⟨[], some (.usage reason)⟩
  | .ok invocation => runInvocation access library environment invocation

end Program
end BlockMarkup
