import BlockMarkup.Block.Cluster
import BlockMarkup.Identifier

namespace BlockMarkup.Naming

def closesClasses (t : Text) : Bool :=
  match trimStart t with
  | '.' :: names =>
    match names.dropWhile fun c => c != '\x7d' with
    | _ :: after => after.all isBlank
    | [] => false
  | _ => false

def isAnnotated : Text → Bool
  | [] => false
  | c :: rest => (c == '\x7b' && closesClasses rest) || isAnnotated rest

structure OpenTag where
  -- The blanks before the tag, the angle and the tag's name.
  name : Text
  attributes : Text
  close : Text
deriving DecidableEq

def attributesOf (inside : Text) : Text :=
  trimEnd (if inside.getLast? = some '/' then inside.dropLast else inside)

def isTagNameChar (c : Char) : Bool := isWord c || c == '-'

def openTag? (line : Text) : Option OpenTag :=
  match line.dropWhile isBlank with
  | '<' :: c :: rest =>
    if isLetter c then
      match splitAtFirst? '>' (rest.dropWhile isTagNameChar) with
      | none => none
      | some (inside, after) =>
        let attributes := attributesOf inside
        some
          { name := line.takeWhile isBlank ++ '<' :: c :: rest.takeWhile isTagNameChar
            attributes := attributes
            close := inside.drop attributes.length ++ '>' :: after }
    else none
  | _ => none

structure ClassValue where
  start : Text
  value : Text
  rest : Text
deriving DecidableEq

def classHere? (t : Text) : Option ClassValue :=
  match dropStart? "class".toList t with
  | none => none
  | some afterName =>
    match trimStart afterName with
    | '=' :: afterEquals =>
      match trimStart afterEquals with
      | '"' :: quoted =>
        match splitAtFirst? '"' quoted with
        | none => none
        | some (value, after) =>
          some ⟨t.take (t.length - quoted.length), value, '"' :: after⟩
      | _ => none
    | _ => none

def classValue? (before : Option Char) : Text → Option ClassValue
  | [] => none
  | c :: rest =>
    match if before.any isWord then none else classHere? (c :: rest) with
    | some found => some found
    | none => (classValue? (some c) rest).map fun found => { found with start := c :: found.start }

def mergeClass (value name : Text) : Text :=
  if trim value = [] then name else trimEnd value ++ ' ' :: name

-- The attributes with a class. None when an identifier is among the classes already.
def addClass? (attributes name : Text) : Option Text :=
  match classValue? none attributes with
  | none => some (" class=\"".toList ++ name ++ '"' :: attributes)
  | some found =>
    if (blankSeparated found.value).any Identifier.isIdentifier then none
    else some (found.start ++ mergeClass found.value name ++ found.rest)

def annotate? (line name : Text) : Option Text :=
  match openTag? line with
  | some tag =>
    (addClass? tag.attributes name).map fun attributes => tag.name ++ attributes ++ tag.close
  | none =>
    if isAnnotated line then none
    else some (trimEnd line ++ " \x7b.".toList ++ name ++ ['\x7d'])

def isCandidate (line : Text) : Bool :=
  match Line.classify line with
  | .property .. | .content => true
  | _ => false

def candidateAtOrAbove? (lines : List Text) : Nat → Option Nat
  | 0 => none
  | number + 1 =>
    if (lines[number]?).any isCandidate then some (number + 1) else candidateAtOrAbove? lines number

-- Whether a line is part of a block's content: not in a style block, and no property of the
-- block.
def isContentOf (lines : List Text) (header : Header) (number : Nat) : Bool :=
  header.blockType ≠ styleType &&
    !((propertyCluster lines header.line (lines.length + 1)).any fun found => found.line = number)

def injectClass? (source : Text) (line : Nat) (name : Text) : Option Text :=
  let lines := splitLines source
  match candidateAtOrAbove? lines (min line lines.length) with
  | none => none
  | some number =>
    if (headerAtOrAbove? lines number).all fun header => isContentOf lines header number then
      let found := (lineAt? lines number).getD []
      (annotate? (dropReturn found) name).map fun annotated =>
        joinLines (replaceLine lines number (annotated ++ finalReturn found))
    else none

def injectLabel? (source : Text) (line : Nat) (label : Text) : Option Text :=
  let lines := splitLines source
  match lineAt? lines line with
  | none => none
  | some found =>
    match Line.classify found with
    | .header blockType none =>
      if isReserved blockType then none
      else
        some (joinLines (replaceLine lines line
          (trimEnd (dropReturn found) ++ ':' :: ' ' :: label ++ finalReturn found)))
    | _ => none

end BlockMarkup.Naming
