import BlockLang.Graph.Record

/-!
Scripts as records.

Records are numbered in the order in which numbers are asked for: a block asks for those of its
inputs and then for those of its body, and a stack asks for the numbers of all its blocks before any
of them asks for more. `fresh` is the next number that no record has yet.
-/

namespace BlockLang

-- What comes of some blocks: a value, their records, and the next number.
structure Flat (α : Type) where
  value : α
  records : List Record
  fresh : Nat

-- The number of the first block of a stack whose blocks are numbered from `fresh` on.
def Block.firstId? (fresh : Nat) (blocks : List Block) : Option Nat :=
  if blocks.isEmpty then none else some fresh

mutual

-- The records of a block that has a number, and of all blocks within it.
def Block.flatten (id : Nat) (next parent : Option Nat) (fresh : Nat) : Block → Flat Unit
  | ⟨opcode, kind, inputs, fields, comment, span⟩ =>
    let b : Block := ⟨opcode, kind, inputs, fields, comment, span⟩
    let slots := Input.flattenAll id fresh inputs
    let body := BlockKind.flatten id slots.fresh kind
    let next := match body.value with
      | some first => some first
      | none => next
    ⟨(), b.record id next parent slots.value :: slots.records ++ body.records, body.fresh⟩

-- The records of the body of a script, and the number of its first block.
def BlockKind.flatten (parent fresh : Nat) : BlockKind → Flat (Option Nat)
  | .hat body _ =>
    let rest := Block.flattenAll parent fresh (fresh + body.length) body
    ⟨Block.firstId? fresh body, rest.records, rest.fresh⟩
  | .plain | .condition | .argument _ | .call _ _ | .prototype _ _ => ⟨none, [], fresh⟩

-- The records of the blocks of a stack, which are numbered from `id` on.
def Block.flattenAll (parent id fresh : Nat) : List Block → Flat Unit
  | [] => ⟨(), [], fresh⟩
  | b :: bs =>
    let first := b.flatten id (Block.firstId? (id + 1) bs) (some parent) fresh
    let rest := Block.flattenAll id (id + 1) first.fresh bs
    ⟨(), first.records ++ rest.records, rest.fresh⟩

-- The slot of an input of some name, and the records of the blocks in it. A stack without blocks
-- has no slot.
def Input.flatten (name : String) (parent fresh : Nat) : Input → Flat (Option Slot)
  | .literal text => ⟨some (.literal text), [], fresh⟩
  | .var v => ⟨some (.var v), [], fresh⟩
  | .list l => ⟨some (.list l), [], fresh⟩
  | .block b =>
    let rest := b.flatten fresh none (some parent) (fresh + 1)
    ⟨some (b.slot name fresh), rest.records, rest.fresh⟩
  | .stack bs =>
    let rest := Block.flattenAll parent fresh (fresh + bs.length) bs
    ⟨(Block.firstId? fresh bs).map .shaped, rest.records, rest.fresh⟩

def Input.flattenAll (parent fresh : Nat) : List (String × Input) → Flat (List (String × Slot))
  | [] => ⟨[], [], fresh⟩
  | (name, i) :: is =>
    let first := i.flatten name parent fresh
    let rest := Input.flattenAll parent first.fresh is
    ⟨(first.value.map (name, ·)).toList ++ rest.value, first.records ++ rest.records, rest.fresh⟩

end

def Block.flattenScripts (fresh : Nat) : List Block → Flat Unit
  | [] => ⟨(), [], fresh⟩
  | b :: bs =>
    let first := b.flatten fresh none none (fresh + 1)
    let rest := Block.flattenScripts first.fresh bs
    ⟨(), first.records ++ rest.records, rest.fresh⟩

end BlockLang
