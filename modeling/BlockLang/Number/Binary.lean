import BlockLang.Number.Decimal

/-!
The binary number nearest to a written one, and the parts of a binary number.
-/

namespace BlockLang

-- How many decimal digits a number has. Zero has none.
def digitCount (n : Nat) : Nat :=
  if n = 0 then 0 else (Nat.toDigits 10 n).length

namespace Decimal

-- The nearest binary number, a tie going to the even one. Exponents beyond the range of binary
-- numbers are settled before any power of ten is taken.
def toFloat : Decimal → Float
  | nan => 0.0 / 0.0
  | infinite negative => withSign negative (1.0 / 0.0)
  | finite negative digits exponent => withSign negative (magnitude digits exponent)
where
  withSign (negative : Bool) (x : Float) : Float :=
    if negative then -x else x
  magnitude (digits : Nat) (exponent : Int) : Float :=
    let place := exponent + digitCount digits
    if digits = 0 || place < -330 then 0.0
    else if 310 < place then 1.0 / 0.0
    else Float.ofScientific digits (exponent < 0) exponent.natAbs

end Decimal

def readFloat? (s : String) : Option Float :=
  (Decimal.ofList? s.toList).map Decimal.toFloat

-- The positive number `mantissa * 2 ^ exponent`. At the foot of a binade the number below is only
-- half as far away as the number above.
structure Binade where
  mantissa : Nat
  exponent : Int
  atFoot : Bool

def Binade.ofFloat (x : Float) : Binade :=
  let bits : Nat := x.toBits.toNat
  let fraction : Nat := bits % Nat.pow 2 52
  let biased : Nat := bits / Nat.pow 2 52 % Nat.pow 2 11
  if biased = 0 then ⟨fraction, -1074, false⟩
  else ⟨Nat.pow 2 52 + fraction, (biased : Int) - 1075, fraction = 0 && 1 < biased⟩

def isNegative (x : Float) : Bool :=
  Nat.pow 2 63 ≤ x.toBits.toNat

end BlockLang
