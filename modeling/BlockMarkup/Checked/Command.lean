import BlockMarkup.Checked
import BlockMarkup.Command

namespace BlockMarkup.Checked

-- A reader has a fault, or else a result or a reason why there is none.
abbrev Reader := ExceptT UsageError Checked

def expectCount (verb : Verb) (parameters : List Text) (least most : Nat) : Except UsageError Unit :=
  if parameters.length < least ∨ most < parameters.length then
    .error (.wrongCount verb parameters.length)
  else .ok ()

def parameter (parameters : List Text) (index : Nat) : Reader Text :=
  ExceptT.lift (get parameters index)

def readNumbered (verb : Verb) (make : Nat → Command) (parameters : List Text) : Reader Command := do
  expectCount verb parameters 1 1
  return make (← readLineNumber (← parameter parameters 0))

def readBare (verb : Verb) (command : Command) (parameters : List Text) : Reader Command := do
  expectCount verb parameters 0 0
  return command

def readSetProperty (parameters : List Text) : Reader Command := do
  expectCount .setProperty parameters 2 3
  let line ← readLineNumber (← parameter parameters 0)
  let key ← parameter parameters 1
  return .setProperty line key (parameters[2]?.getD [])

def readSetStyle (parameters : List Text) : Reader Command := do
  match takeLabels? parameters with
  | none => throw .labelWithoutValue
  | some (others, label) =>
    expectCount .setStyle others 3 4
    let blockType ← parameter others 0
    let target ← parameter others 1
    let property ← parameter others 2
    return .setStyle ⟨blockType, target, property, others[3]?.getD [], label⟩

def readCommand : Verb → List Text → Reader Command
  | .locate => readNumbered .locate .locate
  | .setProperty => readSetProperty
  | .setStyle => readSetStyle
  | .label => readNumbered .label .label
  | .tag => readNumbered .tag .tag
  | .nextIdentifier => readBare .nextIdentifier .nextIdentifier
  | .styles => readBare .styles .styles
  | .inspect => readBare .inspect .inspect

def readVerb (document : Option Text) : List Text → Reader Invocation
  | [] => throw .missingCommand
  | name :: parameters =>
    match Verb.ofName? name with
    | none => throw (.unknownCommand name)
    | some verb => return ⟨document, ← readCommand verb parameters⟩

def readInvocation (arguments : List Text) : Reader Invocation := do
  match arguments with
  | [] => throw .missingCommand
  | first :: _ =>
    if (Verb.ofName? first).isSome then readVerb none arguments
    else readVerb (some first) (← ExceptT.lift (itemsFrom arguments 1))

end BlockMarkup.Checked
