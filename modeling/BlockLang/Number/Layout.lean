import BlockLang.Number.Shortest

/-!
How a binary number is written: where the positional form ends, and what stands at its end.
-/

namespace BlockLang

structure NumberLayout where
  -- The places of the point, from the first digit, that the positional form serves.
  positional : Int → Bool
  -- Does a whole number in the positional form keep its point?
  keepPoint : Bool
  tie : Tie

namespace NumberLayout

-- Plain numbers: always positional, and whole ones without a point.
def plain : NumberLayout := ⟨fun _ => true, false, .up⟩

-- Numbers that show that they are not whole numbers: positional from a ten-thousandth up to ten to
-- the sixteenth.
def fractional : NumberLayout := ⟨fun p => -3 ≤ p && p ≤ 16, true, .up⟩

-- Numbers in a document: positional from a hundred-thousandth up to ten to the sixteenth.
def document : NumberLayout := ⟨fun p => -4 ≤ p && p ≤ 16, true, .even⟩

def writePositional (keepPoint : Bool) (digits : List Char) (point : Int) : List Char :=
  if point ≤ 0 then '0' :: '.' :: List.replicate (-point).toNat '0' ++ digits
  else if point.toNat < digits.length then
    digits.take point.toNat ++ '.' :: digits.drop point.toNat
  else
    digits ++ List.replicate (point.toNat - digits.length) '0' ++
      (if keepPoint then ['.', '0'] else [])

-- Digits with the point after the first one, and the power of ten.
def writeScientific (digits : List Char) (point : Int) : List Char :=
  (match digits with
    | [d] => [d]
    | d :: ds => d :: '.' :: ds
    | [] => []) ++ 'e' :: (toString (point - 1)).toList

def writeDigits (layout : NumberLayout) (d : Digits) : List Char :=
  if layout.positional d.point then writePositional layout.keepPoint d.toList d.point
  else writeScientific d.toList d.point

-- Any number, with its sign. A number that is none has no sign.
def write (layout : NumberLayout) (x : Float) : String :=
  if x.isNaN then "NaN"
  else
    let sign := if isNegative x then "-" else ""
    if x.isInf then sign ++ "inf"
    else if x == 0.0 then sign ++ (if layout.keepPoint then "0.0" else "0")
    else
      sign ++ String.ofList (layout.writeDigits (.shortest layout.tie (.ofFloat x)))

end NumberLayout

end BlockLang
