import BlockLang.Graph.Flatten
import BlockLang.Proofs.Block.Tidy
import BlockLang.Proofs.Graph.Links
import Mathlib.Algebra.GroupWithZero.Nat

/-!
The records of blocks have numbers of their own, and their links agree with each other.
-/

namespace BlockLang

-- The number of blocks within a block.
def Block.within (b : Block) : Nat :=
  Input.countAll b.inputs + b.kind.count

-- The number of blocks within the blocks of a stack.
def Block.withinAll (bs : List Block) : Nat :=
  (bs.map Block.within).sum

theorem Block.count_eq (b : Block) : b.count = 1 + b.within := by
  cases b
  rw [Block.count, Block.within, Nat.add_assoc]

theorem Block.countAll_eq (bs : List Block) :
    Block.countAll bs = bs.length + Block.withinAll bs := by
  induction bs
  case nil => rfl
  case cons b bs hi =>
    simp only [Block.countAll, hi, Block.count_eq, Block.withinAll, List.map_cons, List.sum_cons,
      List.length_cons]
    omega

namespace Flat

-- The records have the numbers that they are given and so many numbers from `fresh` on.
structure Numbers {α : Type} (x : Flat α) (given : List Nat) (fresh n : Nat) : Prop where
  counter : x.fresh = fresh + n
  ids     : (x.records.map (·.id)).Perm (given ++ List.range' fresh n)

variable {α β γ : Type} {x : Flat α} {y : Flat β} {z : Flat γ} {given given' : List Nat}
  {fresh m n : Nat}

theorem Numbers.nil {a : α} : Numbers ⟨a, [], fresh⟩ [] fresh 0 :=
  ⟨rfl, .refl _⟩

theorem Numbers.append {c : γ} (hx : x.Numbers given fresh m)
    (hy : y.Numbers given' x.fresh n) :
    Numbers ⟨c, x.records ++ y.records, y.fresh⟩ (given ++ given') fresh (m + n) where
  counter := by rw [hy.counter, hx.counter, Nat.add_assoc]
  ids := by
    have hn : List.range' fresh (m + n) = List.range' fresh m ++ List.range' x.fresh n := by
      rw [hx.counter, List.range'_append_1]
    rw [List.map_append, hn, List.perm_iff_count]
    intro id
    have hx := hx.ids.count_eq id
    have hy := hy.ids.count_eq id
    simp only [List.count_append] at hx hy ⊢
    omega

theorem Numbers.cons {c : γ} {r : Record} (hx : x.Numbers given fresh n) :
    Numbers ⟨c, r :: x.records, x.fresh⟩ (r.id :: given) fresh n where
  counter := hx.counter
  ids := by simpa using hx.ids

-- The blocks of a stack have the first numbers that are free.
theorem Numbers.stack {c : γ} (hx : x.Numbers (List.range' fresh m) (fresh + m) n) :
    Numbers ⟨c, x.records, x.fresh⟩ [] fresh (m + n) where
  counter := by rw [hx.counter, Nat.add_assoc]
  ids := by
    rw [List.nil_append, ← List.range'_append_1]
    exact hx.ids

end Flat

-- The induction follows the functions that number the records.
mutual

theorem Block.flatten_numbers : ∀ (b : Block) (id : Nat) (next parent : Option Nat) (fresh : Nat),
    (b.flatten id next parent fresh).Numbers [id] fresh b.within
  | ⟨_, kind, inputs, _, _, _⟩, id, next, parent, fresh => by
    have hi := Input.flattenAll_numbers inputs id fresh
    have hb := BlockKind.flatten_numbers kind id (Input.flattenAll id fresh inputs).fresh
    rw [Block.flatten]
    exact (hi.append hb (c := ())).cons

theorem BlockKind.flatten_numbers : ∀ (kind : BlockKind) (parent fresh : Nat),
    (kind.flatten parent fresh).Numbers [] fresh kind.count
  | .hat body _, parent, fresh => by
    rw [BlockKind.count, Block.countAll_eq, BlockKind.flatten]
    exact (Block.flattenAll_numbers body parent fresh (fresh + body.length)).stack
  | .plain, _, _ | .condition, _, _ | .argument _, _, _ | .call _ _, _, _
  | .prototype _ _, _, _ => .nil

theorem Block.flattenAll_numbers : ∀ (bs : List Block) (parent id fresh : Nat),
    (Block.flattenAll parent id fresh bs).Numbers (List.range' id bs.length) fresh
      (Block.withinAll bs)
  | [], _, _, _ => .nil
  | b :: bs, parent, id, fresh => by
    have hb := Block.flatten_numbers b id (Block.firstId? (id + 1) bs) (some parent) fresh
    rw [Block.flattenAll, Block.withinAll, List.map_cons, List.sum_cons]
    exact hb.append (Block.flattenAll_numbers bs id (id + 1) _)

theorem Input.flatten_numbers : ∀ (i : Input) (name : String) (parent fresh : Nat),
    (i.flatten name parent fresh).Numbers [] fresh i.count
  | .literal _, _, _, _ | .var _, _, _, _ | .list _, _, _, _ => .nil
  | .block b, name, parent, fresh => by
    have hb : (b.flatten fresh none (some parent) (fresh + 1)).Numbers (List.range' fresh 1)
        (fresh + 1) b.within := Block.flatten_numbers b fresh none (some parent) (fresh + 1)
    rw [Input.count, Block.count_eq, Input.flatten]
    exact hb.stack
  | .stack bs, name, parent, fresh => by
    rw [Input.count, Block.countAll_eq, Input.flatten]
    exact (Block.flattenAll_numbers bs parent fresh (fresh + bs.length)).stack

theorem Input.flattenAll_numbers : ∀ (is : List (String × Input)) (parent fresh : Nat),
    (Input.flattenAll parent fresh is).Numbers [] fresh (Input.countAll is)
  | [], _, _ => .nil
  | (name, i) :: is, parent, fresh => by
    have hi := Input.flatten_numbers i name parent fresh
    have his := Input.flattenAll_numbers is parent (i.flatten name parent fresh).fresh
    rw [Input.flattenAll, Input.countAll]
    exact hi.append his

end

theorem Block.flattenScripts_numbers (bs : List Block) (fresh : Nat) :
    (Block.flattenScripts fresh bs).Numbers [] fresh (Block.countAll bs) := by
  induction bs generalizing fresh
  case nil => exact .nil
  case cons b bs hi =>
    have hb : (b.flatten fresh none none (fresh + 1)).Numbers (List.range' fresh 1)
        (fresh + 1) b.within := Block.flatten_numbers b fresh none none (fresh + 1)
    rw [Block.countAll, Block.count_eq, Block.flattenScripts]
    exact (hb.stack (c := ())).append (hi _)

section Links

variable {R : Ref → Prop}

-- The numbers in the slots of a record.
def Slot.ids (slots : List (String × Slot)) : List Nat :=
  slots.filterMap (·.2.id?)

theorem Block.id?_slot {name : String} {b : Block} {id : Nat} : (b.slot name id).id? = some id := by
  unfold Block.slot
  split
  · rfl
  split <;> rfl

-- Only the starts of scripts have bodies.
theorem BlockKind.Inner.flatten {kind : BlockKind} {fields : List (String × Field)}
    (h : kind.Inner R fields) (parent fresh : Nat) :
    kind.flatten parent fresh = ⟨none, [], fresh⟩ := by
  cases kind
  case hat => exact h.elim
  all_goals rfl

mutual

theorem Block.flatten_links : ∀ (b : Block) (id : Nat) (next parent : Option Nat) (fresh : Nat),
    b.Tidy R → Record.Links (b.flatten id next parent fresh).records (next.toList.map (id, ·))
      (parent.toList.map (·, id))
  | ⟨opcode, kind, inputs, fields, comment, span⟩, id, next, parent, fresh, ht => by
    have ⟨_, hk, hi⟩ := Block.tidy_iff.mp ht
    have hi := Input.flattenAll_links inputs id fresh hi
    rw [Block.flatten, hk.flatten, List.append_nil]
    apply hi.cons
    rw [Record.links, List.map_append]
    exact .refl _

theorem Block.flattenAll_links : ∀ (bs : List Block) (parent id fresh : Nat), Block.AllTidy R bs →
    Record.Links (Block.flattenAll parent id fresh bs).records []
      ((Block.firstId? id bs).toList.map (parent, ·))
  | [], _, _, _, _ => .nil
  | b :: bs, parent, id, fresh, ht => by
    have ⟨hb, hbs⟩ := Block.allTidy_cons.mp ht
    have hb := Block.flatten_links b id (Block.firstId? (id + 1) bs) (some parent) fresh hb
    rw [Block.flattenAll]
    exact hb.thread (Block.flattenAll_links bs id (id + 1) _ hbs)

theorem Input.flatten_links : ∀ (i : Input) (name : String) (parent fresh : Nat), i.Tidy R →
    Record.Links (i.flatten name parent fresh).records []
      (((i.flatten name parent fresh).value.bind Slot.id?).toList.map (parent, ·))
  | .literal _, _, _, _, _ | .var _, _, _, _, _ | .list _, _, _, _, _ => .nil
  | .block b, name, parent, fresh, ht => by
    have hb := Block.flatten_links b fresh none (some parent) (fresh + 1) (Input.tidy_block.mp ht)
    rw [Input.flatten, Option.bind_some, Block.id?_slot]
    exact hb
  | .stack bs, name, parent, fresh, ht => by
    have hbs := Block.flattenAll_links bs parent fresh (fresh + bs.length) (Input.tidy_stack.mp ht)
    have hf : ((Block.firstId? fresh bs).map .shaped).bind Slot.id? = Block.firstId? fresh bs := by
      cases Block.firstId? fresh bs <;> rfl
    rw [Input.flatten, hf]
    exact hbs

theorem Input.flattenAll_links : ∀ (is : List (String × Input)) (parent fresh : Nat),
    Input.AllTidy R is → Record.Links (Input.flattenAll parent fresh is).records []
      ((Slot.ids (Input.flattenAll parent fresh is).value).map (parent, ·))
  | [], _, _, _ => .nil
  | (name, i) :: is, parent, fresh, ht => by
    have ⟨hi, his⟩ := Input.allTidy_cons.mp ht
    have hi := Input.flatten_links i name parent fresh hi
    have his := Input.flattenAll_links is parent (i.flatten name parent fresh).fresh his
    have hs : Slot.ids (Input.flattenAll parent fresh ((name, i) :: is)).value =
        ((i.flatten name parent fresh).value.bind Slot.id?).toList ++
          Slot.ids (Input.flattenAll parent (i.flatten name parent fresh).fresh is).value := by
      rw [Input.flattenAll, Slot.ids, List.filterMap_append]
      congr 1
      cases (i.flatten name parent fresh).value <;> simp [List.filterMap_cons]
      split <;> simp_all
    rw [hs, List.map_append, Input.flattenAll]
    exact Record.Links.append [] hi his

end

-- The links of scripts lead neither out nor in.
theorem Block.flatten_script_links {b : Block} (h : b.TidyScript R) (id fresh : Nat) :
    Record.Links (b.flatten id none none fresh).records [] [] := by
  have hi := Input.flattenAll_links b.inputs id fresh h.inputs
  have ⟨body, place, hk, hb⟩ := h.body
  have hb := fun fresh => Block.flattenAll_links body id fresh (fresh + body.length) hb
  obtain ⟨opcode, kind, inputs, fields, comment, span⟩ := b
  obtain rfl : kind = .hat body place := hk
  rw [Block.flatten, BlockKind.flatten]
  refine (Record.Links.append [] hi (hb _)).cons (?_ : List.Perm _ ([] ++ _))
  rw [Record.links, ← List.map_append]
  apply List.Perm.map _
  cases Block.firstId? _ body
  case none => simp [Block.record, Slot.ids]
  case some first => simpa [Block.record, Slot.ids] using (List.perm_append_singleton ..).symm

theorem Block.flattenScripts_links {bs : List Block} (h : ∀ b ∈ bs, b.TidyScript R) (fresh : Nat) :
    Record.Links (Block.flattenScripts fresh bs).records [] [] := by
  induction bs generalizing fresh
  case nil => exact .nil
  case cons b bs hi =>
    have hb := Block.flatten_script_links (h b (by simp)) fresh (fresh + 1)
    have hbs := hi (fun b hb => h b (by simp [hb])) (b.flatten fresh none none (fresh + 1)).fresh
    exact Record.Links.append [] hb hbs

end Links

section Order

-- A record has a higher number than its parent.
def Record.Descends (r : Record) : Prop :=
  ∀ p, r.parent = some p → p < r.id

mutual

theorem Block.flatten_descends : ∀ (b : Block) (id : Nat) (next parent : Option Nat) (fresh : Nat),
    id < fresh → (∀ p, parent = some p → p < id) →
    ∀ r ∈ (b.flatten id next parent fresh).records, r.Descends
  | ⟨_, kind, inputs, _, _, _⟩, id, next, parent, fresh, hf, hp => by
    have hi := Input.flattenAll_descends inputs id fresh hf
    have hc := (Input.flattenAll_numbers inputs id fresh).counter
    have hb := BlockKind.flatten_descends kind id (Input.flattenAll id fresh inputs).fresh
      (by omega)
    rw [Block.flatten]
    exact List.forall_mem_cons.mpr ⟨hp, List.forall_mem_append.mpr ⟨hi, hb⟩⟩

theorem BlockKind.flatten_descends : ∀ (kind : BlockKind) (parent fresh : Nat), parent < fresh →
    ∀ r ∈ (kind.flatten parent fresh).records, r.Descends
  | .hat body _, parent, fresh, hp => by
    rw [BlockKind.flatten]
    exact Block.flattenAll_descends body parent fresh _ (Nat.le_refl _) hp
  | .plain, _, _, _ | .condition, _, _, _ | .argument _, _, _, _ | .call _ _, _, _, _
  | .prototype _ _, _, _, _ => List.forall_mem_nil _

theorem Block.flattenAll_descends : ∀ (bs : List Block) (parent id fresh : Nat),
    id + bs.length ≤ fresh → parent < id →
    ∀ r ∈ (Block.flattenAll parent id fresh bs).records, r.Descends
  | [], _, _, _, _, _ => List.forall_mem_nil _
  | b :: bs, parent, id, fresh, hf, hp => by
    rw [List.length_cons] at hf
    have hb := Block.flatten_descends b id (Block.firstId? (id + 1) bs) (some parent) fresh
      (by omega) (fun p he => Option.some.inj he ▸ hp)
    have hc := (Block.flatten_numbers b id (Block.firstId? (id + 1) bs) (some parent) fresh).counter
    rw [Block.flattenAll]
    exact List.forall_mem_append.mpr
      ⟨hb, Block.flattenAll_descends bs id (id + 1) _ (by omega) (Nat.lt_succ_self id)⟩

theorem Input.flatten_descends : ∀ (i : Input) (name : String) (parent fresh : Nat),
    parent < fresh → ∀ r ∈ (i.flatten name parent fresh).records, r.Descends
  | .literal _, _, _, _, _ | .var _, _, _, _, _ | .list _, _, _, _, _ => List.forall_mem_nil _
  | .block b, name, parent, fresh, hp => by
    rw [Input.flatten]
    exact Block.flatten_descends b fresh none (some parent) (fresh + 1) (Nat.lt_succ_self fresh)
      (fun p he => Option.some.inj he ▸ hp)
  | .stack bs, name, parent, fresh, hp => by
    rw [Input.flatten]
    exact Block.flattenAll_descends bs parent fresh _ (Nat.le_refl _) hp

theorem Input.flattenAll_descends : ∀ (is : List (String × Input)) (parent fresh : Nat),
    parent < fresh → ∀ r ∈ (Input.flattenAll parent fresh is).records, r.Descends
  | [], _, _, _ => List.forall_mem_nil _
  | (name, i) :: is, parent, fresh, hp => by
    have hi := Input.flatten_descends i name parent fresh hp
    have hc := (Input.flatten_numbers i name parent fresh).counter
    rw [Input.flattenAll]
    exact List.forall_mem_append.mpr
      ⟨hi, Input.flattenAll_descends is parent _ (by omega)⟩

end

theorem Block.flattenScripts_descends (bs : List Block) (fresh : Nat) :
    ∀ r ∈ (Block.flattenScripts fresh bs).records, r.Descends := by
  induction bs generalizing fresh
  case nil => exact List.forall_mem_nil _
  case cons b bs hi =>
    exact List.forall_mem_append.mpr
      ⟨Block.flatten_descends b fresh none none _ (Nat.lt_succ_self fresh) nofun, hi _⟩

end Order

section Records

variable {R : Ref → Prop}

-- The record of a block that starts no script.
structure Record.Inner (r : Record) : Prop where
  slots  : (r.slots.map (·.1)).Nodup
  parent : r.parent ≠ none
  place  : r.place = none

-- The record of the start of a script.
structure Record.Starts (b : Block) (r : Record) : Prop where
  slots  : (r.slots.map (·.1)).Nodup
  parent : r.parent = none
  place  : r.place ≠ none
  opcode : r.opcode = b.opcode

-- Each input has at most one slot.
theorem Input.flattenAll_names {parent fresh : Nat} {is : List (String × Input)} :
    ((Input.flattenAll parent fresh is).value.map (·.1)).Sublist (is.map (·.1)) := by
  induction is generalizing fresh
  case nil => exact .slnil
  case cons i is hi =>
    rw [Input.flattenAll, List.map_append, List.map_cons]
    cases (i.2.flatten i.1 parent fresh).value
    case none => exact hi.cons _
    case some => exact hi.cons_cons _

mutual

theorem Block.flatten_inner : ∀ (b : Block) (id : Nat) (next : Option Nat) (parent fresh : Nat),
    b.Tidy R → ∀ r ∈ (b.flatten id next (some parent) fresh).records, r.Inner
  | ⟨opcode, kind, inputs, fields, comment, span⟩, id, next, parent, fresh, ht => by
    have ⟨hn, hk, hi⟩ := Block.tidy_iff.mp ht
    have hi := Input.flattenAll_inner inputs id fresh hi
    rw [Block.flatten, hk.flatten, List.append_nil]
    refine List.forall_mem_cons.mpr ⟨⟨?_, nofun, ?_⟩, hi⟩
    · exact hn.inputs.sublist Input.flattenAll_names
    · cases kind
      case hat => exact hk.elim
      all_goals rfl

theorem Block.flattenAll_inner : ∀ (bs : List Block) (parent id fresh : Nat), Block.AllTidy R bs →
    ∀ r ∈ (Block.flattenAll parent id fresh bs).records, r.Inner
  | [], _, _, _, _ => List.forall_mem_nil _
  | b :: bs, parent, id, fresh, ht => by
    have ⟨hb, hbs⟩ := Block.allTidy_cons.mp ht
    rw [Block.flattenAll]
    exact List.forall_mem_append.mpr ⟨Block.flatten_inner b id _ parent fresh hb,
      Block.flattenAll_inner bs id (id + 1) _ hbs⟩

theorem Input.flatten_inner : ∀ (i : Input) (name : String) (parent fresh : Nat), i.Tidy R →
    ∀ r ∈ (i.flatten name parent fresh).records, r.Inner
  | .literal _, _, _, _, _ | .var _, _, _, _, _ | .list _, _, _, _, _ => List.forall_mem_nil _
  | .block b, name, parent, fresh, ht => by
    rw [Input.flatten]
    exact Block.flatten_inner b fresh none parent (fresh + 1) (Input.tidy_block.mp ht)
  | .stack bs, name, parent, fresh, ht => by
    rw [Input.flatten]
    exact Block.flattenAll_inner bs parent fresh _ (Input.tidy_stack.mp ht)

theorem Input.flattenAll_inner : ∀ (is : List (String × Input)) (parent fresh : Nat),
    Input.AllTidy R is → ∀ r ∈ (Input.flattenAll parent fresh is).records, r.Inner
  | [], _, _, _ => List.forall_mem_nil _
  | (name, i) :: is, parent, fresh, ht => by
    have ⟨hi, his⟩ := Input.allTidy_cons.mp ht
    rw [Input.flattenAll]
    exact List.forall_mem_append.mpr ⟨Input.flatten_inner i name parent fresh hi,
      Input.flattenAll_inner is parent _ his⟩

end

-- The record of a script comes before those of the blocks in it.
theorem Block.flatten_script {b : Block} (h : b.TidyScript R) (id fresh : Nat) :
    ∃ r rs, (b.flatten id none none fresh).records = r :: rs ∧ r.id = id ∧ r.Starts b ∧
      ∀ r ∈ rs, r.Inner := by
  have hi := Input.flattenAll_inner b.inputs id fresh h.inputs
  have ⟨body, place, hk, hb⟩ := h.body
  have hb := fun fresh => Block.flattenAll_inner body id fresh (fresh + body.length) hb
  have hn := h.named
  obtain ⟨opcode, kind, inputs, fields, comment, span⟩ := b
  obtain rfl : kind = .hat body place := hk
  rw [Block.flatten, BlockKind.flatten]
  exact ⟨_, _, rfl, rfl, ⟨hn.inputs.sublist Input.flattenAll_names, rfl, nofun, rfl⟩,
    List.forall_mem_append.mpr ⟨hi, hb _⟩⟩

-- Of the records of a script, the first one only has no parent.
theorem Block.filter_flattenScripts_cons {b : Block} (h : b.TidyScript R) (bs : List Block)
    (fresh : Nat) : ∃ r, r.id = fresh ∧ r.Starts b ∧
      ((Block.flattenScripts fresh (b :: bs)).records.filter fun r => r.parent.isNone) =
        r :: (Block.flattenScripts (b.flatten fresh none none (fresh + 1)).fresh bs).records.filter
          fun r => r.parent.isNone := by
  have ⟨r, rs, hr, hid, hs, hrs⟩ := Block.flatten_script h fresh (fresh + 1)
  have hf : rs.filter (fun r => r.parent.isNone) = [] := by
    apply List.filter_eq_nil_iff.mpr
    intro r hr
    simpa using (hrs r hr).parent
  refine ⟨r, hid, hs, ?_⟩
  rw [Block.flattenScripts, hr, List.filter_append, List.filter_cons_of_pos (by simp [hs.parent]),
    hf]
  rfl

-- The records without a parent are those of the scripts, in order.
theorem Block.flattenScripts_starts {bs : List Block} (h : ∀ b ∈ bs, b.TidyScript R)
    (fresh : Nat) : List.Forall₂ Record.Starts bs
      ((Block.flattenScripts fresh bs).records.filter fun r => r.parent.isNone) := by
  induction bs generalizing fresh
  case nil => exact .nil
  case cons b bs hi =>
    have ⟨hb, hbs⟩ := List.forall_mem_cons.mp h
    have ⟨r, _, hs, hf⟩ := Block.filter_flattenScripts_cons hb bs fresh
    rw [hf]
    exact .cons hs (hi hbs _)

-- A record has a place if it has no parent, and only then.
theorem Block.flattenScripts_parent {bs : List Block} (h : ∀ b ∈ bs, b.TidyScript R) (fresh : Nat) :
    ∀ r ∈ (Block.flattenScripts fresh bs).records,
      (r.slots.map (·.1)).Nodup ∧ (r.parent = none ↔ r.place ≠ none) := by
  induction bs generalizing fresh
  case nil => exact List.forall_mem_nil _
  case cons b bs hi =>
    have hbs := hi (fun b hb => h b (by simp [hb])) (b.flatten fresh none none (fresh + 1)).fresh
    have ⟨r, rs, hr, _, hs, hrs⟩ := Block.flatten_script (h b (by simp)) fresh (fresh + 1)
    rw [Block.flattenScripts, hr]
    refine List.forall_mem_append.mpr ⟨List.forall_mem_cons.mpr ⟨?_, fun r hr => ?_⟩, hbs⟩
    · exact ⟨hs.slots, by simp [hs.parent, hs.place]⟩
    · exact ⟨(hrs r hr).slots, by simp [(hrs r hr).parent, (hrs r hr).place]⟩

end Records

end BlockLang
