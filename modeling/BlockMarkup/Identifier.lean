import BlockMarkup.Text.Number
import BlockMarkup.Text.Word

namespace BlockMarkup.Identifier

def text (n : Nat) : Text := 's' :: decimal n

def isIdentifier : Text → Bool
  | 's' :: digits => !digits.isEmpty && digits.all isDecimal
  | _ => false

def joinsName (c : Char) : Bool := c.isAlphanum || c == '_' || c == '-'

def leadingNumber? (t : Text) : Option Nat :=
  if (t.dropWhile isDecimal).head?.any isWord then none else word? (t.takeWhile isDecimal)

-- The number of the identifier at a place: an `s` that no name before it joins, and its digits.
def numberAt? (before : Option Char) : Text → Option Nat
  | 's' :: rest => if before.any joinsName then none else leadingNumber? rest
  | _ => none

def numbersFrom (before : Option Char) : Text → List Nat
  | [] => []
  | c :: rest => (numberAt? before (c :: rest)).toList ++ numbersFrom (some c) rest

def numbers (source : Text) : List Nat := numbersFrom none source

def max? (source : Text) : Option Nat := (numbers source).max?

def leastFree (used : List Nat) : Nat :=
  ((List.range' 1 (used.length + 1)).find? fun n => !used.contains n).getD 1

-- A number that no identifier in the text has: one more than the greatest, and the least free one
-- when there is no greater.
def nextNumber (source : Text) : Nat :=
  match max? source with
  | none => 1
  | some greatest => if greatest < maxWord then greatest + 1 else leastFree (numbers source)

def next (source : Text) : Text := text (nextNumber source)

end BlockMarkup.Identifier
