import BlockLang.Number.Binary

/-!
The fewest decimal digits that read back as a given binary number.

A number is written with as many digits as it takes for some number with so many digits to be
nearer to it than to any other binary number. Of two such decimals the nearer one is taken.
-/

namespace BlockLang

inductive Tie where
  | up
  | even
  deriving DecidableEq, Repr

-- The number `0.d₁d₂…dₙ * 10 ^ point`, by the digits' value without zeros at its end.
structure Digits where
  value : Nat
  point : Int
  deriving DecidableEq, Repr

namespace Digits

def toList (d : Digits) : List Char :=
  Nat.toDigits 10 d.value

structure Ratio where
  num : Nat
  den : Nat

def Ratio.shift (r : Ratio) (e : Int) : Ratio :=
  if 0 ≤ e then ⟨r.num * Nat.pow 10 e.toNat, r.den⟩
  else ⟨r.num, r.den * Nat.pow 10 (-e).toNat⟩

-- The real numbers that read as one binary number: the number itself and the two ends, all three
-- over one denominator. The ends belong to it when its mantissa is even.
structure Interval where
  low : Nat
  mid : Nat
  high : Nat
  den : Nat
  closed : Bool

def Interval.ofBinade (b : Binade) : Interval :=
  let up := if 2 ≤ b.exponent then Nat.pow 2 (b.exponent - 2).toNat else 1
  let den := if 2 ≤ b.exponent then 1 else Nat.pow 2 (2 - b.exponent).toNat
  let mid := 4 * b.mantissa
  { low := (if b.atFoot then mid - 1 else mid - 2) * up
    mid := mid * up
    high := (mid + 2) * up
    den := den
    closed := b.mantissa % 2 = 0 }

def Interval.has (i : Interval) (n : Nat) (e : Int) : Bool :=
  let r := (Ratio.mk n 1).shift e
  let point := r.num * i.den
  if i.closed then i.low * r.den ≤ point && point ≤ i.high * r.den
  else i.low * r.den < point && point < i.high * r.den

-- The least power of ten above the number. The search starts from a guess by the number's length in
-- binary, which is never more than two off.
def place (b : Binade) (i : Interval) : Int :=
  let guess := (b.mantissa.log2 + b.exponent) * 30103 / 100000
  let above := fun (e : Int) =>
    let r := (Ratio.mk 1 1).shift e
    i.mid * r.den < r.num * i.den
  (([-1, 0, 1, 2].map (guess + ·)).find? above).getD (guess + 2)

def dropZeros : Nat → Nat → Nat
  | 0, n => n
  | fuel + 1, n => if n % 10 = 0 then dropZeros fuel (n / 10) else n

-- Of the two decimals next to the number on the grid `10 ^ e`, the one that reads back. If both do,
-- the nearer one.
def onGrid? (tie : Tie) (i : Interval) (e : Int) : Option Nat :=
  let r := (Ratio.mk i.mid i.den).shift (-e)
  let below := r.num / r.den
  let twice := 2 * (r.num % r.den)
  match i.has below e && below ≠ 0, i.has (below + 1) e with
  | false, false => none
  | true, false => some below
  | false, true => some (below + 1)
  | true, true =>
    if twice < r.den then some below
    else if r.den < twice then some (below + 1)
    else match tie with
      | .up => some (below + 1)
      | .even => some (if below % 2 = 0 then below else below + 1)

-- The fewest digits of a positive number, the coarsest grid first. Seventeen digits always tell a
-- binary number from its neighbours.
def shortest (tie : Tie) (b : Binade) : Digits :=
  let i := Interval.ofBinade b
  let k := place b i
  let found := (List.range 17).findSome? fun (n : Nat) =>
    let e : Int := k - 1 - n
    (onGrid? tie i e).map fun value => (value, e)
  let (value, e) := found.getD (0, 0)
  let digits := dropZeros 20 value
  ⟨digits, e + digitCount value⟩

end Digits

end BlockLang
