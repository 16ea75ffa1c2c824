/-!
Sets of characters, given by the ranges of their code points.
-/

namespace BlockLang.Text

abbrev Ranges := Array (Nat × Nat)

def Ranges.has (ranges : Ranges) (c : Char) : Bool :=
  ranges.any fun (first, last) => first ≤ c.toNat && c.toNat ≤ last

-- Every `step`-th code point from `first` to `last`, moved by `shift`.
structure Shift where
  first : Nat
  last : Nat
  step : Nat
  shift : Int

def Shift.move? (s : Shift) (c : Char) : Option Char :=
  if s.first ≤ c.toNat && c.toNat ≤ s.last && (c.toNat - s.first) % s.step == 0 then
    some (Char.ofNat (c.toNat + s.shift).toNat)
  else none

end BlockLang.Text
