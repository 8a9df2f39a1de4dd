import BlockMarkup.Text.Number

namespace BlockMarkup.Toml

structure Decimal where
  digits : Nat
  exponent : Int
deriving DecidableEq

namespace Decimal

-- The greatest float is `2 ^ 1024 - 2 ^ 971`, and half a step above it counts as too large.
def floatLimit : Nat := Nat.pow 2 1024 - Nat.pow 2 970

def isBelowLimit (number : Decimal) : Bool :=
  number.digits * Nat.pow 10 number.exponent.toNat <
    floatLimit * Nat.pow 10 (-number.exponent).toNat

-- Whether a float can hold a number, exactly or rounded. The place of the first digit decides
-- unless it is that of the limit, so that no long power is taken.
def isFloat (number : Decimal) : Bool :=
  number.digits = 0 ||
    let size := (decimal number.digits).length + number.exponent
    size < 309 || (size = 309 && number.isBelowLimit)

end Decimal
end BlockMarkup.Toml
