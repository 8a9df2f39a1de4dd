import BlockMarkup.Style.Selector

namespace BlockMarkup.Style

inductive StyleLine where
  | skipped
  | block (blockType : Text) (suffix : Option Text)
  | variable (name value : Text)
  | compact (selector declarations : Text)
  -- Any other line at the margin: a selector kept as it is.
  | raw (selector : Text)
  | nested (indent : Nat) (selector : Text)
  | declaration (property value : Text)
  | unknown
deriving DecidableEq

namespace StyleLine

def indentWidth (blanks : Text) : Nat := blanks.length + blanks.count '\t'

def isVariableStart (c : Char) : Bool := isLetter c || c == '_' || c == '$' || c == '-'

def isVariableChar (c : Char) : Bool := isWord c || c == '$' || c == '-'

def variableParts? (content : Text) : Option (Text × Text) :=
  match content with
  | [] => none
  | c :: rest =>
    if isVariableStart c then
      match rest.dropWhile isVariableChar with
      | ':' :: d :: value =>
        if isBlank d && !(trim value).isEmpty then
          some (c :: rest.takeWhile isVariableChar, trim value)
        else none
      | _ => none
    else none

def isPropertyStart (c : Char) : Bool := isLetter c || c == '-'

def dropSemicolon (t : Text) : Text := if t.getLast? = some ';' then t.dropLast else t

def declarationParts? (content : Text) : Option (Text × Text) :=
  match content with
  | [] => none
  | c :: rest =>
    if isPropertyStart c then
      match trimStart (rest.dropWhile isNameChar) with
      | ':' :: text =>
        let value := trim (dropSemicolon (trimStart text))
        if value.isEmpty then none else some (c :: rest.takeWhile isNameChar, value)
      | _ => none
    else none

def compactParts? (content : Text) : Option (Text × Text) :=
  match splitAtFirst? '{' content with
  | none => none
  | some (selector, rest) =>
    let body := trimEnd rest
    if body.getLast? = some '}' then some (trim selector, trim body.dropLast) else none

def rawSelector (content : Text) : Text :=
  trimEnd (content.reverse.dropWhile fun c => c == '{').reverse

def atMargin (content : Text) : StyleLine :=
  match compactParts? content with
  | some (selector, declarations) => .compact selector declarations
  | none => match blockSelector? content with
    | some (blockType, suffix) => .block blockType suffix
    | none => match variableParts? content with
      | some (name, value) => .variable name value
      | none => .raw (rawSelector content)

def indented (indent : Nat) (content : Text) : StyleLine :=
  if content.head?.any fun c => c == '.' || c == ':' || c == '>' then .nested indent content
  else match declarationParts? content with
    | some (property, value) => .declaration property value
    | none => .unknown

-- What a line of a style body is. One carriage return at its end does not count.
def classify (raw : Text) : StyleLine :=
  let line := dropReturn raw
  let content := trim line
  if content = [] || content = ['}'] || (dropStart? ['/', '/'] content).isSome then .skipped
  else
    let indent := indentWidth (line.takeWhile isBlank)
    if indent = 0 then atMargin content else indented indent content

end StyleLine
end BlockMarkup.Style
