import BlockMarkup.Style.Edit

namespace BlockMarkup

inductive Verb where
  | locate
  | setProperty
  | setStyle
  | label
  | tag
  | nextIdentifier
  | styles
  | inspect
deriving DecidableEq

namespace Verb

def all : List Verb :=
  [.locate, .setProperty, .setStyle, .label, .tag, .nextIdentifier, .styles, .inspect]

def name : Verb → Text
  | .locate => "locate".toList
  | .setProperty => "set-prop".toList
  | .setStyle => "set-style".toList
  | .label => "label".toList
  | .tag => "tag".toList
  | .nextIdentifier => "next-id".toList
  | .styles => "styles".toList
  | .inspect => "inspect".toList

def ofName? (word : Text) : Option Verb := all.find? fun verb => verb.name = word

def parameterCount : Verb → Text
  | .locate | .label | .tag => "1".toList
  | .setProperty => "2 to 3".toList
  | .setStyle => "3 to 4".toList
  | .nextIdentifier | .styles | .inspect => "0".toList

end Verb

inductive Command where
  | locate (line : Nat)
  | setProperty (line : Nat) (key value : Text)
  | setStyle (edit : Style.Edit)
  | label (line : Nat)
  | tag (line : Nat)
  | nextIdentifier
  | styles
  | inspect
deriving DecidableEq

def Command.verb : Command → Verb
  | .locate _ => .locate
  | .setProperty _ _ _ => .setProperty
  | .setStyle _ => .setStyle
  | .label _ => .label
  | .tag _ => .tag
  | .nextIdentifier => .nextIdentifier
  | .styles => .styles
  | .inspect => .inspect

def Command.writes (command : Command) : Bool :=
  match command.verb with
  | .setProperty | .setStyle | .label | .tag => true
  | .locate | .nextIdentifier | .styles | .inspect => false

inductive UsageError where
  | missingCommand
  | unknownCommand (name : Text)
  | wrongCount (verb : Verb) (count : Nat)
  | labelWithoutValue
  | notALine (word : Text)
deriving DecidableEq

def labelFlag : Text := "--label".toList

def UsageError.message : UsageError → Text
  | .missingCommand => "Missing command".toList
  | .unknownCommand name => "Unknown command '".toList ++ name ++ ['\'']
  | .wrongCount verb count =>
    '\'' :: verb.name ++ "' takes ".toList ++ verb.parameterCount ++
      " argument(s), got ".toList ++ decimal count
  | .labelWithoutValue => '\'' :: labelFlag ++ "' needs a value".toList
  | .notALine word =>
    '\'' :: word ++ "' is not a line number (lines start at 1)".toList

def lineNumber? (word : Text) : Option Nat :=
  (word? ((dropStart? ['+'] word).getD word)).filter (0 < ·)

def readLineNumber (word : Text) : Except UsageError Nat :=
  match lineNumber? word with
  | some line => .ok line
  | none => .error (.notALine word)

-- The parameters without the flags among them, each of which takes the parameter after it, and
-- the label that the last flag gives.
def takeLabels? : List Text → Option (List Text × Option Text)
  | [] => some ([], none)
  | first :: rest =>
    if first = labelFlag then
      match rest with
      | [] => none
      | label :: rest =>
        (takeLabels? rest).map fun (parameters, later) => (parameters, later.or (some label))
    else (takeLabels? rest).map fun (parameters, label) => (first :: parameters, label)

def Verb.command (label : Option Text) : Verb → List Text → Except UsageError Command
  | .locate, [line] => Command.locate <$> readLineNumber line
  | .setProperty, [line, key] => (Command.setProperty · key []) <$> readLineNumber line
  | .setProperty, [line, key, value] => (Command.setProperty · key value) <$> readLineNumber line
  | .setStyle, [blockType, target, property] =>
    .ok (.setStyle ⟨blockType, target, property, [], label⟩)
  | .setStyle, [blockType, target, property, value] =>
    .ok (.setStyle ⟨blockType, target, property, value, label⟩)
  | .label, [line] => Command.label <$> readLineNumber line
  | .tag, [line] => Command.tag <$> readLineNumber line
  | .nextIdentifier, [] => .ok .nextIdentifier
  | .styles, [] => .ok .styles
  | .inspect, [] => .ok .inspect
  | verb, parameters => .error (.wrongCount verb parameters.length)

def Command.ofParameters (verb : Verb) (parameters : List Text) : Except UsageError Command :=
  if verb = .setStyle then
    match takeLabels? parameters with
    | some (others, scope) => verb.command scope others
    | none => .error .labelWithoutValue
  else verb.command none parameters

structure Invocation where
  document : Option Text
  command : Command
deriving DecidableEq

-- Reads all arguments. The first one names a document unless it is a verb.
def Invocation.ofArguments : List Text → Except UsageError Invocation
  | [] => .error .missingCommand
  | first :: rest =>
    match Verb.ofName? first with
    | some verb => (Invocation.mk none) <$> Command.ofParameters verb rest
    | none =>
      match rest with
      | [] => .error .missingCommand
      | name :: parameters =>
        match Verb.ofName? name with
        | some verb => (Invocation.mk (some first)) <$> Command.ofParameters verb parameters
        | none => .error (.unknownCommand name)

def usage : Text :=
  ("Usage: mkly-editor [file] <command> [args...]\n" ++
    "\n" ++
    "Commands:\n" ++
    "  locate <line>                                   Show the block at a line\n" ++
    "  set-prop <line> <key> [value]                   Set or remove a block property\n" ++
    "  set-style <block-type> <target> <property> [value] [--label <label>]\n" ++
    "                                                  Set or remove a style property\n" ++
    "  label <header-line>                             Scope a block to its own instance\n" ++
    "  tag <content-line>                              Tag a content line with a class\n" ++
    "  next-id                                         Print the next free identifier\n" ++
    "  styles                                          Print the style block and descendant CSS\n" ++
    "  inspect                                         Open the terminal inspector\n" ++
    "\n" ++
    "Without [file] the default_document from the config file is used.").toList

end BlockMarkup
