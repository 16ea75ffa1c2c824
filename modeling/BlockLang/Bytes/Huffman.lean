import BlockLang.Rest

/-!
Canonical prefix codes, given by the lengths of their code words.

A code is a binary tree. The words of one length come before all longer ones, and in the order of
their symbols, so the tree is built level by level from the lengths alone.
-/

namespace BlockLang

abbrev Bits := List Bool

namespace Bits

def ofByte (b : UInt8) : Bits :=
  (List.range 8).map b.toNat.testBit

def ofBytes (bytes : List UInt8) : Bits :=
  bytes.flatMap ofByte

def toNat : Bits → Nat
  | [] => 0
  | b :: bs => b.toNat + 2 * toNat bs

def number? (n : Nat) (bits : Bits) : Option (Upto bits Nat) :=
  let taken := bits.take n
  if taken.length = n then some ⟨toNat taken, bits.drop n, by simp⟩ else none

end Bits

inductive CodeTree where
  | empty
  | leaf (symbol : Nat)
  | node (zero one : CodeTree)
  deriving DecidableEq, Repr

namespace CodeTree

def walk (t : CodeTree) (bits : Bits) : Option (Upto bits Nat) :=
  match t, bits with
  | empty, _ => none
  | leaf symbol, bits => some (.nothing bits symbol)
  | node _ _, [] => none
  | node zero one, b :: bs =>
    ((if b then one else zero).walk bs).map fun symbol => symbol.tail.upto

def pairUp : List CodeTree → List CodeTree
  | zero :: one :: ts => node zero one :: pairUp ts
  | ts => ts

-- Trees for `slots` points of one level. Each level lists the symbols whose words end there; the
-- words take the first points, and all others lead on. There is no such list of trees if the words
-- are too many, or if points are left at the end.
def level? (slots : Nat) : List (List Nat) → Option (List CodeTree)
  | [] => if slots = 0 then some [] else none
  | symbols :: deeper =>
    if slots < symbols.length then none
    else (level? (2 * (slots - symbols.length)) deeper).map fun ts =>
      symbols.map leaf ++ pairUp ts

end CodeTree

structure Code where
  zero : CodeTree
  one : CodeTree
  deriving DecidableEq, Repr

namespace Code

def empty : Code := ⟨.empty, .empty⟩

def next? (c : Code) (bits : Bits) : Option (After bits Nat) :=
  match bits with
  | [] => none
  | b :: bs =>
    ((if b then c.one else c.zero).walk bs).map Upto.tail

def maxLength : Nat := 15

-- The symbols that have words of a length. Symbols are numbered as their lengths are listed.
def symbols (lengths : List Nat) (n : Nat) : List Nat :=
  (lengths.zipIdx.filter fun (length, _) => length = n).map (·.2)

-- The code with words of these lengths, where the length zero stands for no word.
def ofLengths? (lengths : List Nat) : Option Code :=
  match CodeTree.level? 2 ((List.range' 1 maxLength).map (symbols lengths)) with
  | some [zero, one] => some ⟨zero, one⟩
  | _ => none

-- As `ofLengths?`, but there may be no word at all, or only one of length one.
def ofFewLengths? (lengths : List Nat) : Option Code :=
  match lengths.zipIdx.filter fun (length, _) => length ≠ 0 with
  | [] => some empty
  | [(1, symbol)] => some ⟨.leaf symbol, .empty⟩
  | _ => ofLengths? lengths

end Code

end BlockLang
