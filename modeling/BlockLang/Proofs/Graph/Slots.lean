import Mathlib.Data.List.Forall2
import BlockLang.Graph.Flatten
import BlockLang.Proofs.Block.Parts

/-!
Each block of a script has a record, and the records stand in the order of the blocks. The slots of
records hold the records of the blocks that are in the inputs.
-/

namespace BlockLang

-- What the record of a block tells of it. An input has a slot, unless it is a stack without blocks.
structure Record.Of (b : Block) (r : Record) : Prop where
  opcode   : r.opcode = b.opcode
  fields   : r.fields = b.fields
  mutation : r.mutation = b.mutation?
  slots    : (∀ i ∈ b.inputs, i.2 ≠ .stack []) → r.slots.map (·.1) = b.inputs.map (·.1)

variable {parent fresh : Nat} {i : Input} {is : List (String × Input)}

theorem Input.isSome_flatten (h : i ≠ .stack []) (name : String) (parent fresh : Nat) :
    (i.flatten name parent fresh).value.isSome := by
  cases i
  case stack bs =>
    cases bs
    case nil => contradiction
    case cons => rfl
  all_goals rfl

theorem Input.flattenAll_names_eq (h : ∀ i ∈ is, i.2 ≠ .stack []) :
    (Input.flattenAll parent fresh is).value.map (·.1) = is.map (·.1) := by
  induction is generalizing fresh
  case nil => rfl
  case cons i is hi =>
    have ⟨h, hs⟩ := List.forall_mem_cons.mp h
    have ⟨s, hs'⟩ := Option.isSome_iff_exists.mp (Input.isSome_flatten h i.1 parent fresh)
    simp [Input.flattenAll, hs', hi hs]

-- The induction follows the functions that number the records.
mutual

theorem Block.flatten_of : ∀ (b : Block) (id : Nat) (next parent : Option Nat) (fresh : Nat),
    List.Forall₂ Record.Of b.blocks (b.flatten id next parent fresh).records
  | ⟨opcode, kind, inputs, fields, comment, span⟩, id, next, parent, fresh => by
    rw [Block.blocks, Block.flatten]
    refine .cons ⟨rfl, rfl, rfl, Input.flattenAll_names_eq⟩ ?_
    exact List.rel_append (Input.flattenAll_of inputs id fresh) (BlockKind.flatten_of kind id _)

theorem BlockKind.flatten_of : ∀ (kind : BlockKind) (parent fresh : Nat),
    List.Forall₂ Record.Of kind.blocks (kind.flatten parent fresh).records
  | .hat body _, parent, fresh => by
    rw [BlockKind.blocks, BlockKind.flatten]
    exact Block.flattenAll_of body parent fresh _
  | .plain, _, _ | .condition, _, _ | .argument _, _, _ | .call _ _, _, _
  | .prototype _ _, _, _ => .nil

theorem Block.flattenAll_of : ∀ (bs : List Block) (parent id fresh : Nat),
    List.Forall₂ Record.Of (Block.blocksAll bs) (Block.flattenAll parent id fresh bs).records
  | [], _, _, _ => .nil
  | b :: bs, parent, id, fresh => by
    rw [Block.blocksAll, Block.flattenAll]
    exact List.rel_append (Block.flatten_of b id _ _ fresh) (Block.flattenAll_of bs id _ _)

theorem Input.flatten_of : ∀ (i : Input) (name : String) (parent fresh : Nat),
    List.Forall₂ Record.Of i.blocks (i.flatten name parent fresh).records
  | .literal _, _, _, _ | .var _, _, _, _ | .list _, _, _, _ => .nil
  | .block b, name, parent, fresh => by
    rw [Input.blocks, Input.flatten]
    exact Block.flatten_of b fresh none _ _
  | .stack bs, name, parent, fresh => by
    rw [Input.blocks, Input.flatten]
    exact Block.flattenAll_of bs parent fresh _

theorem Input.flattenAll_of : ∀ (is : List (String × Input)) (parent fresh : Nat),
    List.Forall₂ Record.Of (Input.blocksAll is) (Input.flattenAll parent fresh is).records
  | [], _, _ => .nil
  | (name, i) :: is, parent, fresh => by
    rw [Input.blocksAll, Input.flattenAll]
    exact List.rel_append (Input.flatten_of i name parent fresh) (Input.flattenAll_of is parent _)

end

theorem Block.flattenScripts_of (bs : List Block) (fresh : Nat) :
    List.Forall₂ Record.Of (Block.blocksAll bs) (Block.flattenScripts fresh bs).records := by
  induction bs generalizing fresh
  case nil => exact .nil
  case cons b bs hi => exact List.rel_append (Block.flatten_of b fresh none none _) (hi _)

-- A slot for an input. If the input holds blocks, then the slot holds the record that the first of
-- them is paired with.
inductive Slot.Of (pairs : List (Block × Record)) (name : String) : Input → Slot → Prop
  | literal {text : String} : Of pairs name (.literal text) (.literal text)
  | var {v : String} : Of pairs name (.var v) (.var v)
  | list {l : String} : Of pairs name (.list l) (.list l)
  | block {b : Block} {r : Record} (h : (b, r) ∈ pairs) :
      Of pairs name (.block b) (b.slot name r.id)
  | stack {b : Block} {bs : List Block} {r : Record} (h : (b, r) ∈ pairs) :
      Of pairs name (.stack (b :: bs)) (.shaped r.id)

-- A record of a block, with slots for the inputs of the block.
structure Record.Plugs (pairs : List (Block × Record)) (b : Block) (r : Record) : Prop where
  opcode : r.opcode = b.opcode
  shadow : r.shadow = b.isShadow
  slots  : ∀ s ∈ r.slots, ∃ i, (s.1, i) ∈ b.inputs ∧ Slot.Of pairs s.1 i s.2

variable {pairs : List (Block × Record)}

-- The record of a block is the first one that comes of it, under the number that the block has.
theorem Block.exists_flatten (b : Block) (id : Nat) (next parent : Option Nat) (fresh : Nat)
    (h : b.blocks.zip (b.flatten id next parent fresh).records ⊆ pairs) :
    ∃ r, (b, r) ∈ pairs ∧ r.id = id := by
  obtain ⟨opcode, kind, inputs, fields, comment, span⟩ := b
  rw [Block.blocks, Block.flatten] at h
  exact ⟨_, h List.mem_cons_self, rfl⟩

theorem zip_append_subset {bs bs' : List Block} {rs rs' : List Record}
    (hr : List.Forall₂ Record.Of bs rs) (h : (bs ++ bs').zip (rs ++ rs') ⊆ pairs) :
    bs.zip rs ⊆ pairs ∧ bs'.zip rs' ⊆ pairs := by
  rw [List.zip_append hr.length_eq] at h
  exact List.append_subset.mp h

theorem Input.exists_slot (i : Input) (name : String) (parent fresh : Nat)
    (h : i.blocks.zip (i.flatten name parent fresh).records ⊆ pairs) :
    ∀ s ∈ (i.flatten name parent fresh).value, Slot.Of pairs name i s := by
  intro s hs
  cases i
  case literal =>
    obtain rfl := Option.some.inj hs
    exact .literal
  case var =>
    obtain rfl := Option.some.inj hs
    exact .var
  case list =>
    obtain rfl := Option.some.inj hs
    exact .list
  case block b =>
    obtain rfl := Option.some.inj hs
    rw [Input.blocks, Input.flatten] at h
    have ⟨r, hr, he⟩ := b.exists_flatten _ _ _ _ h
    exact he ▸ .block hr
  case stack bs =>
    cases bs
    case nil => cases hs
    case cons b bs =>
      obtain rfl := Option.some.inj hs
      rw [Input.blocks, Input.flatten, Block.blocksAll, Block.flattenAll] at h
      have ⟨h, _⟩ := zip_append_subset (Block.flatten_of ..) h
      have ⟨r, hr, he⟩ := b.exists_flatten _ _ _ _ h
      exact he ▸ .stack hr

theorem Input.exists_slots {is : List (String × Input)} {parent fresh : Nat}
    (h : (Input.blocksAll is).zip (Input.flattenAll parent fresh is).records ⊆ pairs) :
    ∀ s ∈ (Input.flattenAll parent fresh is).value,
      ∃ i, (s.1, i) ∈ is ∧ Slot.Of pairs s.1 i s.2 := by
  induction is generalizing fresh
  case nil => exact nofun
  case cons i is hi =>
    obtain ⟨name, i⟩ := i
    rw [Input.blocksAll, Input.flattenAll] at h
    have ⟨h, hs⟩ := zip_append_subset (Input.flatten_of ..) h
    intro s hm
    rw [Input.flattenAll] at hm
    cases List.mem_append.mp hm
    case inl hm =>
      obtain ⟨s, hv, rfl⟩ := Option.map_eq_some_iff.mp (Option.mem_toList.mp hm)
      exact ⟨i, List.mem_cons_self, i.exists_slot name _ _ h s hv⟩
    case inr hm =>
      have ⟨j, hj, ho⟩ := hi hs s hm
      exact ⟨j, List.mem_cons_of_mem _ hj, ho⟩

-- The induction follows the functions that number the records.
mutual

theorem Block.flatten_plugs : ∀ (b : Block) (id : Nat) (next parent : Option Nat) (fresh : Nat),
    b.blocks.zip (b.flatten id next parent fresh).records ⊆ pairs →
    List.Forall₂ (Record.Plugs pairs) b.blocks (b.flatten id next parent fresh).records
  | ⟨opcode, kind, inputs, fields, comment, span⟩, id, next, parent, fresh, h => by
    rw [Block.blocks, Block.flatten] at h ⊢
    have ⟨hi, hk⟩ := zip_append_subset (Input.flattenAll_of ..)
      (List.Subset.trans (List.subset_cons_self ..) h)
    refine .cons ⟨rfl, rfl, Input.exists_slots hi⟩ ?_
    exact List.rel_append (Input.flattenAll_plugs inputs id fresh hi)
      (BlockKind.flatten_plugs kind id _ hk)

theorem BlockKind.flatten_plugs : ∀ (kind : BlockKind) (parent fresh : Nat),
    kind.blocks.zip (kind.flatten parent fresh).records ⊆ pairs →
    List.Forall₂ (Record.Plugs pairs) kind.blocks (kind.flatten parent fresh).records
  | .hat body _, parent, fresh, h => by
    rw [BlockKind.blocks, BlockKind.flatten] at h ⊢
    exact Block.flattenAll_plugs body parent fresh _ h
  | .plain, _, _, _ | .condition, _, _, _ | .argument _, _, _, _ | .call _ _, _, _, _
  | .prototype _ _, _, _, _ => .nil

theorem Block.flattenAll_plugs : ∀ (bs : List Block) (parent id fresh : Nat),
    (Block.blocksAll bs).zip (Block.flattenAll parent id fresh bs).records ⊆ pairs →
    List.Forall₂ (Record.Plugs pairs) (Block.blocksAll bs)
      (Block.flattenAll parent id fresh bs).records
  | [], _, _, _, _ => .nil
  | b :: bs, parent, id, fresh, h => by
    rw [Block.blocksAll, Block.flattenAll] at h ⊢
    have ⟨hb, hbs⟩ := zip_append_subset (Block.flatten_of ..) h
    exact List.rel_append (Block.flatten_plugs b id _ _ fresh hb)
      (Block.flattenAll_plugs bs id _ _ hbs)

theorem Input.flatten_plugs : ∀ (i : Input) (name : String) (parent fresh : Nat),
    i.blocks.zip (i.flatten name parent fresh).records ⊆ pairs →
    List.Forall₂ (Record.Plugs pairs) i.blocks (i.flatten name parent fresh).records
  | .literal _, _, _, _, _ | .var _, _, _, _, _ | .list _, _, _, _, _ => .nil
  | .block b, name, parent, fresh, h => by
    rw [Input.blocks, Input.flatten] at h ⊢
    exact Block.flatten_plugs b fresh none _ _ h
  | .stack bs, name, parent, fresh, h => by
    rw [Input.blocks, Input.flatten] at h ⊢
    exact Block.flattenAll_plugs bs parent fresh _ h

theorem Input.flattenAll_plugs : ∀ (is : List (String × Input)) (parent fresh : Nat),
    (Input.blocksAll is).zip (Input.flattenAll parent fresh is).records ⊆ pairs →
    List.Forall₂ (Record.Plugs pairs) (Input.blocksAll is)
      (Input.flattenAll parent fresh is).records
  | [], _, _, _ => .nil
  | (name, i) :: is, parent, fresh, h => by
    rw [Input.blocksAll, Input.flattenAll] at h ⊢
    have ⟨hi, his⟩ := zip_append_subset (Input.flatten_of ..) h
    exact List.rel_append (Input.flatten_plugs i name parent fresh hi)
      (Input.flattenAll_plugs is parent _ his)

end

theorem Block.flattenScripts_plugs {bs : List Block} {fresh : Nat}
    (h : (Block.blocksAll bs).zip (Block.flattenScripts fresh bs).records ⊆ pairs) :
    List.Forall₂ (Record.Plugs pairs) (Block.blocksAll bs)
      (Block.flattenScripts fresh bs).records := by
  induction bs generalizing fresh
  case nil => exact .nil
  case cons b bs hi =>
    rw [Block.blocksAll, Block.flattenScripts] at h ⊢
    have ⟨hb, hbs⟩ := zip_append_subset (Block.flatten_of ..) h
    exact List.rel_append (Block.flatten_plugs b fresh none none _ hb) (hi hbs)

end BlockLang
