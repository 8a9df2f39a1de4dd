import BlockMarkup.Toml.Decimal
import BlockMarkup.Toml.Table

namespace BlockMarkup.Toml

def isPlain (c : Char) : Bool := c == '\t' || (32 ≤ c.toNat && c.toNat != 127)

def isSpace (c : Char) : Bool := c == ' ' || c == '\t'

def escapeDigits? (letter : Char) : Option Nat :=
  if letter = 'x' then some 2
  else if letter = 'u' then some 4
  else if letter = 'U' then some 8
  else none

def shortEscape? (letter : Char) : Option Char :=
  if letter = '"' ∨ letter = '\\' then some letter
  else if letter = 'b' then some '\x08'
  else if letter = 't' then some '\t'
  else if letter = 'n' then some '\n'
  else if letter = 'f' then some '\x0c'
  else if letter = 'r' then some '\r'
  else if letter = 'e' then some '\x1b'
  else none

def leadingHex? (count : Nat) (t : Text) : Option Nat :=
  if t.length < count then none
  else (t.take count).foldlM (fun n c => (hexValue? c).map (n * 16 + ·)) 0

def escape? : Text → Option (Char × Nat)
  | [] => none
  | letter :: rest =>
    match escapeDigits? letter with
    | none => (shortEscape? letter).map fun char => (char, 1)
    | some count => do
      let n ← leadingHex? count rest
      if n.isValidChar then some (Char.ofNat n, count + 1) else none

def startsLine : Text → Bool
  | '\n' :: _ => true
  | '\r' :: '\n' :: _ => true
  | _ => false

-- What a string that is written with escapes stands for. A backslash at the end of a line, in a
-- string of several lines, joins the line to the next text.
def unescape? (severalLines : Bool) : Text → Option Text
  | [] => some []
  | c :: rest =>
    if c = '\\' then
      if severalLines && startsLine (rest.dropWhile isSpace) then
        unescape? severalLines (rest.dropWhile fun d => isSpace d || d == '\n' || d == '\r')
      else
        match escape? rest with
        | none => none
        | some (char, used) => (unescape? severalLines (rest.drop used)).map (char :: ·)
    else (unescape? severalLines rest).map (c :: ·)
termination_by t => t.length
decreasing_by
  · exact Nat.lt_succ_of_le (List.dropWhile_suffix _).length_le
  · simp only [List.length_drop, List.length_cons]
    omega
  · exact Nat.lt_succ_self _

def cutLine (quote : Char) : Text → Option (Text × Text)
  | [] => none
  | c :: rest =>
    if c = quote then some ([], rest)
    else if c = '\\' && quote = '"' then
      match rest with
      | [] => none
      | d :: rest =>
        if isPlain d then (cutLine quote rest).map fun (cut, after) => (c :: d :: cut, after)
        else none
    else if isPlain c then (cutLine quote rest).map fun (cut, after) => (c :: cut, after)
    else none

-- The end of a string of several lines: three quotes. One or two more before them belong to it.
def closing? (quote : Char) (t : Text) : Option (Text × Text) :=
  let count := min (t.takeWhile (· = quote)).length 5
  if count < 3 then none else some (List.replicate (count - 3) quote, t.drop count)

def cutLines (quote : Char) : Text → Option (Text × Text)
  | [] => none
  | c :: rest =>
    match closing? quote (c :: rest) with
    | some found => some found
    | none =>
      if c = '\\' && quote = '"' then
        match rest with
        | [] => none
        | d :: rest => (cutLines quote rest).map fun (cut, after) => (c :: d :: cut, after)
      else if isPlain c || startsLine (c :: rest) then
        (cutLines quote rest).map fun (cut, after) => (c :: cut, after)
      else none

def dropLineBreak : Text → Text
  | '\n' :: rest => rest
  | '\r' :: '\n' :: rest => rest
  | t => t

def readLineString (quote : Char) (t : Text) : Option (Text × Text) := do
  let (cut, after) ← cutLine quote t
  if quote = '"' then return (← unescape? false cut, after) else return (cut, after)

def readLinesString (quote : Char) (t : Text) : Option (Text × Text) := do
  let (cut, after) ← cutLines quote (dropLineBreak t)
  if quote = '"' then return (← unescape? true cut, after) else return (cut, after)

def readString (quote : Char) (t : Text) : Option (Text × Text) :=
  match dropStart? [quote, quote] t with
  | some rest => readLinesString quote rest
  | none => readLineString quote t

def number? (base : Nat) (t : Text) : Option Nat :=
  let groups := t.splitOn '_'
  if groups.any List.isEmpty then none
  else
    groups.flatten.foldlM
      (fun n c => (hexValue? c).bind fun digit =>
        if digit < base then some (n * base + digit) else none) 0

def decimal? (t : Text) : Option Nat :=
  if t.head? = some '0' && t.length > 1 then none else number? 10 t

def dropSign : Text → Text
  | '+' :: rest => rest
  | '-' :: rest => rest
  | t => t

def signed? (magnitude? : Text → Option Nat) : Text → Option Int
  | '-' :: digits => (magnitude? digits).map fun n => -(n : Int)
  | '+' :: digits => (magnitude? digits).map Int.ofNat
  | digits => (magnitude? digits).map Int.ofNat

def whole? : Text → Option Int
  | '0' :: 'x' :: digits => (number? 16 digits).map Int.ofNat
  | '0' :: 'o' :: digits => (number? 8 digits).map Int.ofNat
  | '0' :: 'b' :: digits => (number? 2 digits).map Int.ofNat
  | digits => signed? decimal? digits

def leastInteger : Int := -170141183460469231731687303715884105728

def greatestInteger : Int := 340282366920938463463374607431768211455

-- An integer can be held in 128 bits, with a sign or without one.
def integer? (t : Text) : Option Value :=
  (whole? t).map fun n => if leastInteger ≤ n ∧ n ≤ greatestInteger then .integer n else .tooLarge

def fractional? (t : Text) : Option Decimal := do
  let (whole, fraction) ← splitAtFirst? '.' t
  let places := (fraction.filter (· != '_')).length
  return ⟨(← decimal? whole) * Nat.pow 10 places + (← number? 10 fraction), -places⟩

def scientific? (t : Text) : Option Decimal := do
  let (mantissa, exponent) ← splitAtFirst? 'e' (t.map Char.toLower)
  let number ← (fractional? mantissa).or ((decimal? mantissa).map (⟨·, 0⟩))
  return ⟨number.digits, number.exponent + (← signed? (number? 10) exponent)⟩

def float? (t : Text) : Option Value :=
  let t := dropSign t
  if t = "inf".toList || t = "nan".toList then some .float
  else
    ((fractional? t).or (scientific? t)).map fun number =>
      if number.isFloat then .float else .tooLarge

def isField (count low high : Nat) (t : Text) : Bool :=
  t.length = count && t.all Char.isDigit &&
    let n := Nat.ofDigitChars 10 t 0
    low ≤ n && n ≤ high

def isLeapYear (year : Nat) : Bool := year % 4 = 0 && (year % 100 ≠ 0 || year % 400 = 0)

def daysInMonth (year month : Nat) : Nat :=
  if month = 2 then (if isLeapYear year then 29 else 28)
  else if month ∈ [4, 6, 9, 11] then 30
  else 31

def isDay (t : Text) : Bool :=
  match t.splitOn '-' with
  | [year, month, day] =>
    isField 4 0 9999 year && isField 2 1 12 month &&
      isField 2 1 (daysInMonth (Nat.ofDigitChars 10 year 0) (Nat.ofDigitChars 10 month 0)) day
  | _ => false

def isSeconds (t : Text) : Bool :=
  match splitAtFirst? '.' t with
  | some (seconds, fraction) =>
    isField 2 0 60 seconds && !fraction.isEmpty && fraction.all Char.isDigit
  | none => isField 2 0 60 t

def isTime (t : Text) : Bool :=
  match t.splitOn ':' with
  | [hour, minute] => isField 2 0 23 hour && isField 2 0 59 minute
  | [hour, minute, seconds] => isField 2 0 23 hour && isField 2 0 59 minute && isSeconds seconds
  | _ => false

def isOffset : Text → Bool
  | [c] => c = 'Z' || c = 'z'
  | sign :: clock =>
    (sign = '+' || sign = '-') &&
      match clock.splitOn ':' with
      | [hour, minute] => isField 2 0 23 hour && isField 2 0 59 minute
      | _ => false
  | [] => false

def startsOffset (c : Char) : Bool := c = 'Z' || c = 'z' || c = '+' || c = '-'

def isDate (t : Text) : Bool :=
  isDay t || isTime t ||
    (isDay (t.take 10) &&
      match t.drop 10 with
      | mark :: clock =>
        (mark = 'T' || mark = 't' || mark = ' ') &&
          isTime (clock.takeWhile fun c => !startsOffset c) &&
          (match clock.dropWhile (fun c => !startsOffset c) with
            | [] => true
            | offset => isOffset offset)
      | [] => false)

def isBareCharacter (c : Char) : Bool :=
  c.isAlphanum || c == '_' || c == '-' || c == '+' || c == '.' || c == ':'

def bare? (t : Text) : Option Value :=
  if t = "true".toList then some (.boolean true)
  else if t = "false".toList then some (.boolean false)
  else ((integer? t).or (float? t)).or (if isDate t then some .date else none)

def cutBare (t : Text) : Text × Text :=
  let first := t.takeWhile isBareCharacter
  match t.dropWhile isBareCharacter with
  | ' ' :: rest =>
    if isDay first && rest.head?.any Char.isDigit then
      (first ++ ' ' :: rest.takeWhile isBareCharacter, rest.dropWhile isBareCharacter)
    else (first, ' ' :: rest)
  | rest => (first, rest)

end BlockMarkup.Toml
