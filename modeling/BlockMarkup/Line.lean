import BlockMarkup.Text.Lines
import BlockMarkup.Text.Word

namespace BlockMarkup

inductive Line where
  | header (blockType : Text) (label : Option Text)
  | close (blockType : Text)
  | property (indent key value : Text)
  | blank
  | content
deriving DecidableEq

def styleType : Text := "style".toList

def reservedTypes : List Text :=
  [styleType, "meta".toList, "use".toList, "theme".toList, "preset".toList]

def isReserved (blockType : Text) : Bool := reservedTypes.contains blockType

namespace Line

def isBoundary : Line → Bool
  | .header .. | .close _ => true
  | _ => false

def isProperty : Line → Bool
  | .property .. => true
  | _ => false

def isTypeStart (c : Char) : Bool := c.isAlphanum || c == '_'

def isTypeChar (c : Char) : Bool := isWord c || c == '.' || c == '-' || c == '/'

def afterDashes? (line : Text) : Option Text :=
  match dropStart? ['-', '-', '-'] line with
  | some (c :: rest) => if isBlank c then some (trimStart rest) else none
  | _ => none

def takeType? : Text → Option (Text × Text)
  | [] => none
  | c :: rest =>
    if isTypeStart c then some (c :: rest.takeWhile isTypeChar, rest.dropWhile isTypeChar) else none

-- What stands after a block type: nothing, or a colon and a label. A label that is empty counts
-- as none, and one that spans lines is no label at all.
def labelAfter? (rest : Text) : Option (Option Text) :=
  match trimStart rest with
  | [] => some none
  | ':' :: text =>
    let label := trim text
    if '\n' ∈ label then none else some (if label = [] then none else some label)
  | _ => none

def header? (line : Text) : Option Line :=
  match afterDashes? line with
  | none => none
  | some ('/' :: name) =>
    match takeType? name with
    | none => none
    | some (blockType, rest) => (labelAfter? rest).map fun _ => .close blockType
  | some name =>
    match takeType? name with
    | none => none
    | some (blockType, rest) => (labelAfter? rest).map fun label => .header blockType label

def isKeyStart (c : Char) : Bool := isLetter c || c == '_'

def isKeyChar (c : Char) : Bool :=
  c.isAlphanum || c == '_' || c == '.' || c == '-' || c == '/' || c == ':' || c == '+'

-- Splits at the first colon that a blank or the end follows. All before it are key characters;
-- other colons belong to the key.
def splitKey? : Text → Option (Text × Text)
  | [] => none
  | [c] => if c = ':' then some ([], []) else none
  | c :: d :: rest =>
    if c = ':' && isBlank d then some ([], d :: rest)
    else if isKeyChar c then
      (splitKey? (d :: rest)).map fun (key, value) => (c :: key, value)
    else none

def takeKey? : Text → Option (Text × Text)
  | '@' :: c :: rest =>
    if isKeyStart c then (splitKey? rest).map fun (key, value) => ('@' :: c :: key, value) else none
  | c :: rest =>
    if isKeyStart c then (splitKey? rest).map fun (key, value) => (c :: key, value) else none
  | [] => none

def property? (line : Text) : Option Line :=
  match takeKey? (line.dropWhile isBlank) with
  | none => none
  | some (key, rest) =>
    let value := trim rest
    if '\n' ∈ value then none else some (.property (line.takeWhile isBlank) key value)

def classify (raw : Text) : Line :=
  let line := dropReturn raw
  if line.all isBlank then .blank
  else match header? line with
    | some boundary => boundary
    | none => match property? line with
      | some found => found
      | none => .content

end Line

def isBoundaryLine (line : Text) : Bool := (Line.classify line).isBoundary

def isBlankLine (line : Text) : Bool := Line.classify line = .blank

structure Header where
  line : Nat
  blockType : Text
  label : Option Text
deriving DecidableEq

def headersFrom (number : Nat) : List Text → List Header
  | [] => []
  | line :: rest =>
    match Line.classify line with
    | .header blockType label => ⟨number, blockType, label⟩ :: headersFrom (number + 1) rest
    | _ => headersFrom (number + 1) rest

def headers (lines : List Text) : List Header := headersFrom 1 lines

def headerAtOrAbove? (lines : List Text) (number : Nat) : Option Header :=
  (headers (lines.take number)).getLast?

def linesToBoundary (lines : List Text) : List Text :=
  lines.takeWhile fun line => !isBoundaryLine line

def boundaryAfter (lines : List Text) (number : Nat) : Nat :=
  number + 1 + (linesToBoundary (lines.drop number)).length

def dropBlankTail (lines : List Text) : List Text :=
  (lines.reverse.dropWhile isBlankLine).reverse

end BlockMarkup
