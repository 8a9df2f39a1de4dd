import BlockMarkup.Text.Blank

namespace BlockMarkup

def decimal (n : Nat) : Text := Nat.toDigits 10 n

def maxWord : Nat := 18446744073709551615

def word? (digits : Text) : Option Nat :=
  if !digits.isEmpty && digits.all Char.isDigit then
    let n := Nat.ofDigitChars 10 digits 0
    if n ≤ maxWord then some n else none
  else none

theorem word?_le {digits : Text} {n : Nat} (found : word? digits = some n) : n ≤ maxWord := by
  unfold word? at found
  dsimp only at found
  split at found
  · split at found
    · rename_i fits
      cases Option.some.inj found
      exact fits
    · cases found
  · cases found

def hexValue? (c : Char) : Option Nat :=
  if '0' ≤ c ∧ c ≤ '9' then some (c.toNat - 48)
  else if 'a' ≤ c ∧ c ≤ 'f' then some (c.toNat - 87)
  else if 'A' ≤ c ∧ c ≤ 'F' then some (c.toNat - 55)
  else none

end BlockMarkup
