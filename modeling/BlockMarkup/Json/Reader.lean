import BlockMarkup.Json.Value
import BlockMarkup.Text.Number

namespace BlockMarkup.Json

def isSpace (c : Char) : Bool := c == ' ' || c == '\n' || c == '\r' || c == '\t'

def skipSpace (t : Text) : Text := t.dropWhile isSpace

inductive Piece where
  | char (c : Char)
  | unit (n : Nat)
deriving DecidableEq

def unit? (a b c d : Char) : Option Nat := do
  return (((← hexValue? a) * 16 + (← hexValue? b)) * 16 + (← hexValue? c)) * 16 + (← hexValue? d)

def shortEscape? (c : Char) : Option Char :=
  if c = '"' ∨ c = '\\' ∨ c = '/' then some c
  else if c = 'b' then some '\x08'
  else if c = 'f' then some '\x0c'
  else if c = 'n' then some '\n'
  else if c = 'r' then some '\r'
  else if c = 't' then some '\t'
  else none

def readPieces : Text → Option (List Piece × Text)
  | [] => none
  | '"' :: rest => some ([], rest)
  | '\\' :: 'u' :: a :: b :: c :: d :: rest =>
    match unit? a b c d with
    | none => none
    | some n => (readPieces rest).map fun (pieces, after) => (.unit n :: pieces, after)
  | '\\' :: c :: rest =>
    match shortEscape? c with
    | none => none
    | some char => (readPieces rest).map fun (pieces, after) => (.char char :: pieces, after)
  | c :: rest =>
    if c.toNat < 32 then none
    else (readPieces rest).map fun (pieces, after) => (.char c :: pieces, after)

def isHighUnit (n : Nat) : Bool := 0xD800 ≤ n && n ≤ 0xDBFF

def isLowUnit (n : Nat) : Bool := 0xDC00 ≤ n && n ≤ 0xDFFF

-- The text that the pieces stand for. A high unit needs a low one after it, and a low one needs a
-- high one before it.
def assemble : List Piece → Option Text
  | [] => some []
  | .char c :: rest => (assemble rest).map (c :: ·)
  | .unit high :: .unit low :: rest =>
    if isHighUnit high then
      if isLowUnit low then
        (assemble rest).map
          (Char.ofNat (0x10000 + (high - 0xD800) * 0x400 + (low - 0xDC00)) :: ·)
      else none
    else if isLowUnit high then none
    else (assemble (.unit low :: rest)).map (Char.ofNat high :: ·)
  | .unit n :: rest =>
    if isHighUnit n || isLowUnit n then none else (assemble rest).map (Char.ofNat n :: ·)

def isNonzeroDigit (c : Char) : Bool := '1' ≤ c && c ≤ '9'

def readDigits (t : Text) : Option (Text × Text) :=
  if (t.takeWhile Char.isDigit).isEmpty then none
  else some (t.takeWhile Char.isDigit, t.dropWhile Char.isDigit)

def readWhole : Text → Option (Text × Text)
  | '0' :: rest => if rest.head?.any Char.isDigit then none else some (['0'], rest)
  | c :: rest => if isNonzeroDigit c then readDigits (c :: rest) else none
  | [] => none

def readFraction : Text → Option (Text × Text)
  | '.' :: rest => (readDigits rest).map fun (digits, after) => ('.' :: digits, after)
  | t => some ([], t)

def readExponent : Text → Option (Text × Text)
  | c :: rest =>
    if c = 'e' ∨ c = 'E' then
      match rest with
      | sign :: more =>
        if sign = '+' ∨ sign = '-' then
          (readDigits more).map fun (digits, after) => (c :: sign :: digits, after)
        else (readDigits rest).map fun (digits, after) => (c :: digits, after)
      | [] => none
    else some ([], c :: rest)
  | [] => some ([], [])

def readUnsigned (t : Text) : Option (Text × Text) := do
  let (whole, t) ← readWhole t
  let (fraction, t) ← readFraction t
  let (exponent, t) ← readExponent t
  return (whole ++ fraction ++ exponent, t)

def readNumber : Text → Option (Json × Text)
  | '-' :: rest => (readUnsigned rest).map fun (digits, after) => (.number ('-' :: digits), after)
  | t => (readUnsigned t).map fun (digits, after) => (.number digits, after)

def ofPieces (pieces : List Piece) : Json :=
  match assemble pieces with
  | some content => .string content
  | none => .broken

def withMember (pieces : List Piece) (value : Json) : Json → Json
  | .object members =>
    match assemble pieces with
    | some name => .object ((name, value) :: members)
    | none => .broken
  | other => other

mutual

-- A value. The first argument bounds the nesting and the length of what is read.
def readValue : Nat → Text → Option (Json × Text)
  | 0, _ => none
  | fuel + 1, t =>
    match skipSpace t with
    | '"' :: rest => (readPieces rest).map fun (pieces, after) => (ofPieces pieces, after)
    | '[' :: rest =>
      match skipSpace rest with
      | ']' :: after => some (.array [], after)
      | more =>
        match readValue fuel more with
        | none => none
        | some (item, after) =>
          (readItems fuel after).map fun (items, after) => (.array (item :: items), after)
    | '\x7b' :: rest =>
      match skipSpace rest with
      | '\x7d' :: after => some (.object [], after)
      | more => readMember fuel more
    | t =>
      match dropStart? "null".toList t, dropStart? "true".toList t, dropStart? "false".toList t with
      | some after, _, _ => some (.null, after)
      | _, some after, _ => some (.boolean true, after)
      | _, _, some after => some (.boolean false, after)
      | none, none, none => readNumber t

def readItems : Nat → Text → Option (List Json × Text)
  | 0, _ => none
  | fuel + 1, t =>
    match skipSpace t with
    | ']' :: after => some ([], after)
    | ',' :: rest =>
      match readValue fuel rest with
      | none => none
      | some (item, after) =>
        (readItems fuel after).map fun (items, after) => (item :: items, after)
    | _ => none

def readMember : Nat → Text → Option (Json × Text)
  | 0, _ => none
  | fuel + 1, t =>
    match skipSpace t with
    | '"' :: rest =>
      match readPieces rest with
      | none => none
      | some (name, after) =>
        match skipSpace after with
        | ':' :: text =>
          match readValue fuel text with
          | none => none
          | some (value, after) =>
            (readMembers fuel after).map fun (others, after) =>
              (withMember name value others, after)
        | _ => none
    | _ => none

def readMembers : Nat → Text → Option (Json × Text)
  | 0, _ => none
  | fuel + 1, t =>
    match skipSpace t with
    | '\x7d' :: after => some (.object [], after)
    | ',' :: rest => readMember fuel rest
    | _ => none

end

def ofText? (t : Text) : Option Json :=
  match readValue (t.length + 1) t with
  | some (value, after) => if (skipSpace after).isEmpty then some value else none
  | none => none

end BlockMarkup.Json
