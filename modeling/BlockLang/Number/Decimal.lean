/-!
Numbers as they are written: digits, and a power of ten.
-/

namespace BlockLang

inductive Decimal where
  -- The number `digits` times ten to the power `exponent`.
  | finite (negative : Bool) (digits : Nat) (exponent : Int)
  | infinite (negative : Bool)
  | nan
  deriving DecidableEq, Repr

namespace Decimal

-- The value of a digit in a base up to sixteen, in letters of either case.
def digit? (base : Nat) (c : Char) : Option Nat :=
  let value :=
    if '0' ≤ c && c ≤ '9' then c.toNat - '0'.toNat
    else if 'a' ≤ c && c ≤ 'f' then c.toNat - 'a'.toNat + 10
    else if 'A' ≤ c && c ≤ 'F' then c.toNat - 'A'.toNat + 10
    else base
  if value < base then some value else none

def natural? (base : Nat) (acc : Nat) : List Char → Option Nat
  | [] => some acc
  | c :: cs => (digit? base c).bind fun d => natural? base (acc * base + d) cs

-- A sign, and what follows it. No sign counts as plus.
def splitSign : List Char → Bool × List Char
  | '-' :: cs => (true, cs)
  | '+' :: cs => (false, cs)
  | cs => (false, cs)

-- A whole number with at least one digit, and no sign but a plus.
def unsigned? (base : Nat) (cs : List Char) : Option Nat :=
  let cs := match cs with
    | '+' :: cs => cs
    | cs => cs
  if cs.isEmpty then none else natural? base 0 cs

def signed? (base : Nat) (cs : List Char) : Option Int :=
  let (negative, cs) := splitSign cs
  if cs.isEmpty then none
  else (natural? base 0 cs).map fun (n : Nat) => if negative then -(n : Int) else n

-- The exponent after the mark `e`. Where there is no mark it is zero.
def exponent? : List Char → Option Int
  | [] => some 0
  | c :: cs => if c = 'e' || c = 'E' then signed? 10 cs else none

-- Digits with at most one point among them and an exponent after them. One digit is the least, on
-- either side of the point.
def mantissa? (negative : Bool) (cs : List Char) : Option Decimal :=
  let whole := cs.takeWhile Char.isDigit
  let rest := cs.dropWhile Char.isDigit
  let (places, rest) := match rest with
    | '.' :: rest => (rest.takeWhile Char.isDigit, rest.dropWhile Char.isDigit)
    | rest => ([], rest)
  if whole.isEmpty && places.isEmpty then none
  else
    (natural? 10 0 (whole ++ places)).bind fun digits =>
      (exponent? rest).map fun e => finite negative digits (e - places.length)

-- Reads a number: a sign, then digits, or a word for infinity or for no number.
def ofList? (cs : List Char) : Option Decimal :=
  let (negative, cs) := splitSign cs
  let word := cs.map Char.toLower
  if word = "inf".toList || word = "infinity".toList then some (infinite negative)
  else if word = "nan".toList then some nan
  else mantissa? negative cs

end Decimal

end BlockLang
