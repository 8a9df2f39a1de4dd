import BlockMarkup.Style.Target
import BlockMarkup.Text.Word

namespace BlockMarkup.Style

def isNameChar (c : Char) : Bool := isWord c || c == '-'

def isPathChar (c : Char) : Bool := isNameChar c || c == '/'

def isBlockType (t : Text) : Bool :=
  match t.splitOn '/' with
  | first :: second :: rest =>
    first.head?.any isLetter && (first :: second :: rest).all fun name =>
      !name.isEmpty && name.all isNameChar
  | _ => false

def takeBlockType? (t : Text) : Option (Text × Text) :=
  let blockType := t.takeWhile isPathChar
  if isBlockType blockType then some (blockType, t.dropWhile isPathChar) else none

def isSuffixChar (c : Char) : Bool := isNameChar c || c == '(' || c == ')' || c == '+'

def blockSelector? (content : Text) : Option (Text × Option Text) :=
  match takeBlockType? content with
  | none => none
  | some (blockType, rest) =>
    if rest = [] then some (blockType, none)
    else match trimStart rest with
      | ':' :: more =>
        let suffix := trimStart more
        if !suffix.isEmpty && suffix.all isSuffixChar then some (blockType, some suffix) else none
      | _ => none

def suffixScope : Option Text → Option Text × Text
  | none => (none, selfTarget)
  | some suffix =>
    if isPseudoClass suffix then (none, selfTarget ++ ':' :: suffix) else (some suffix, selfTarget)

def afterMark (mark : Char) (allowed : Char → Bool) (t : Text) : Option Text × Text :=
  match t with
  | [] => (none, [])
  | c :: rest =>
    if c = mark && !(rest.takeWhile allowed).isEmpty then
      (some (rest.takeWhile allowed), rest.dropWhile allowed)
    else (none, t)

structure SelectorTail where
  part : Option Text
  pseudo : Option Text
  descendant : Option Text
deriving DecidableEq

def isPseudoChar (c : Char) : Bool := isSuffixChar c || c == ':'

def selectorTail? (t : Text) : Option SelectorTail :=
  let (part, afterPart) := afterMark '.' isNameChar t
  let (pseudo, afterPseudo) := afterMark ':' isPseudoChar afterPart
  if afterPseudo = [] then some ⟨part, pseudo, none⟩
  else match trimStart afterPseudo with
    | '>' :: rest => if rest = [] then none else some ⟨part, pseudo, some (trim rest)⟩
    | _ => none

-- The label and the pieces after a block type. What follows a colon is a label when the rest can
-- be read so, and a pseudo-class otherwise.
def labelAndTail? (t : Text) : Option (Option Text × SelectorTail) :=
  let (label, rest) := afterMark ':' isNameChar t
  match selectorTail? rest with
  | some tail => some (label, tail)
  | none => if label.isSome then (selectorTail? t).map fun tail => (none, tail) else none

def SelectorTail.target? : SelectorTail → Option Text
  | ⟨none, none, none⟩ => some selfTarget
  | ⟨none, none, some rest⟩ => some ('>' :: rest)
  | ⟨none, some pseudo, none⟩ => some (selfTarget ++ ':' :: pseudo)
  | ⟨some part, none, none⟩ => some part
  | ⟨some part, some pseudo, none⟩ => some (part ++ ':' :: pseudo)
  | _ => none

-- The address that the selector of a one-line rule names. A label that is a pseudo-class stands
-- for that, and then nothing may follow it.
def compactAddress? (selector : Text) : Option Address :=
  match takeBlockType? selector with
  | none => none
  | some (blockType, rest) =>
    match labelAndTail? rest with
    | none => none
    | some (label, tail) =>
      if label.any isPseudoClass then
        if tail = ⟨none, none, none⟩ then
          (SelectorTail.target? ⟨none, label, none⟩).map fun target => ⟨blockType, target, none⟩
        else none
      else tail.target?.map fun target => ⟨blockType, target, label⟩

end BlockMarkup.Style
