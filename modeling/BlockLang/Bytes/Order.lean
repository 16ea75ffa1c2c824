/-!
Numbers as bytes, in both orders, and bytes in groups.
-/

namespace BlockLang

namespace Bytes

def ofHighFirst (bytes : List UInt8) : Nat :=
  bytes.foldl (fun n b => n * 256 + b.toNat) 0

def lowFirst (count n : Nat) : List UInt8 :=
  (List.range count).map fun i => (n >>> (8 * i)).toUInt8

def ofLowFirst (bytes : List UInt8) : Nat :=
  ofHighFirst bytes.reverse

-- Groups of `size` bytes. The last one may be shorter.
def groups {α : Type} (size : Nat) (xs : List α) : List (List α) :=
  match size, xs with
  | _, [] => []
  | 0, _ => []
  | size + 1, x :: xs => (x :: xs.take size) :: groups (size + 1) (xs.drop size)
termination_by xs.length
decreasing_by simp only [List.length_drop, List.length_cons]; omega

def hexDigits (b : UInt8) : List Char :=
  [Nat.digitChar (b.toNat / 16), Nat.digitChar (b.toNat % 16)]

def hex (bytes : List UInt8) : String :=
  String.ofList (bytes.flatMap hexDigits)

end Bytes

end BlockLang
