import Mathlib.Data.Multiset.Count
import BlockLang.Block.Logic
import BlockLang.Proofs.Block.Parts

/-!
What the negation of an input keeps: an input that is turned around is made of the same blocks, each
with inputs of the same names. One that is not is kept whole, but for the operand of a difference
that has only one.
-/

namespace BlockLang

-- A block without what its inputs hold.
def Block.shell (b : Block) : String × Multiset String :=
  (b.opcode, (b.inputs.map (·.1) : List String))

def Input.shells (i : Input) : List (String × Multiset String) :=
  i.blocks.map Block.shell

def Input.shellsAll (is : List (String × Input)) : List (String × Multiset String) :=
  (Input.blocksAll is).map Block.shell

variable {b b' : Block} {i i' l r : Input} {is is' : List (String × Input)} {name n : String}

theorem Input.shellsAll_cons :
    Input.shellsAll ((name, i) :: is) = i.shells ++ Input.shellsAll is := by
  rw [shellsAll, blocksAll, List.map_append, shells, shellsAll]

theorem Input.shellsAll_perm (h : is.Perm is') :
    (Input.shellsAll is).Perm (Input.shellsAll is') := by
  induction h
  case nil => exact .refl _
  case cons hi =>
    rw [shellsAll_cons, shellsAll_cons]
    exact hi.append_left _
  case swap p q is =>
    rw [shellsAll_cons, shellsAll_cons, shellsAll_cons, shellsAll_cons, ← List.append_assoc,
      ← List.append_assoc]
    exact List.perm_append_comm.append_right _
  case trans h h' => exact h.trans h'

theorem Block.shells_eq (b : Block) :
    (Input.block b).shells = b.shell :: (Input.shellsAll b.inputs ++ b.kind.blocks.map shell) := by
  rw [Input.shells, Input.blocks, Block.blocks_eq, List.map_cons, List.map_append, Input.shellsAll]

-- The inputs of a block may be put in another order, and what they hold in another form.
theorem Block.shells_setInputs (b : Block) (hn : (is.map (·.1)).Perm (b.inputs.map (·.1)))
    (hs : (Input.shellsAll is).Perm (Input.shellsAll b.inputs)) :
    (Input.block { b with inputs := is }).shells.Perm (Input.block b).shells := by
  have he : Block.shell { b with inputs := is } = b.shell := by
    rw [Block.shell, Block.shell, Multiset.coe_eq_coe.mpr hn]
  rw [shells_eq, shells_eq, he]
  exact (hs.append_right _).cons _

theorem Block.inputs_perm (hl : b.input? left = some l) (hr : b.input? right = some r) :
    b.inputs.Perm ((left, l) :: (right, r) :: b.eraseOperands.inputs) := by
  have hr : (b.inputs.eraseP (·.1 = left)).lookup right = some r :=
    (lookup_eraseP_of_ne (by decide)).trans hr
  exact (perm_of_lookup_eq_some hl).trans ((perm_of_lookup_eq_some hr).cons _)

theorem Block.shells_of_swapped? (h : b.swapped? = some b') :
    (Input.block b').shells.Perm (Input.block b).shells := by
  unfold swapped? at h
  split at h
  case h_2 => cases h
  case h_1 l r hl hr =>
    cases h
    have hp := (inputs_perm hl hr).symm
    refine b.shells_setInputs (hp.map (·.1)) (.trans ?_ (Input.shellsAll_perm hp))
    simp only [Input.shellsAll_cons, ← List.append_assoc]
    exact List.perm_append_comm.append_right _

mutual

theorem Input.shells_of_negated? : ∀ {i i' : Input}, i.negated? = some i' →
    i'.shells.Perm i.shells
  | .literal _, i', h => by
    simp only [Input.negated?, Option.map_eq_some_iff] at h
    have ⟨_, _, hi⟩ := h
    exact hi ▸ .refl _
  | .block b, i', h => by
    simp only [Input.negated?, Option.map_eq_some_iff] at h
    have ⟨_, hb, hi⟩ := h
    exact hi ▸ Block.shells_of_negated? hb
  | .var _, _, h | .list _, _, h | .stack _, _, h => by simp [Input.negated?] at h

theorem Block.shells_of_negated? : ∀ {b b' : Block}, b.negated? = some b' →
    (Input.block b').shells.Perm (Input.block b).shells
  | ⟨opcode, kind, inputs, fields, comment, span⟩, b', h => by
    let b : Block := ⟨opcode, kind, inputs, fields, comment, span⟩
    simp only [Block.negated?] at h
    split at h
    case isTrue => exact Block.shells_of_swapped? h
    split at h
    case isFalse => cases h
    split at h
    case h_1 is hs =>
      cases h
      have ⟨hn, hs⟩ := Input.shells_of_negatedAt? hs
      exact b.shells_setInputs (.of_eq hn) hs
    case h_2 =>
      have ⟨is, hs, hb⟩ := Option.map_eq_some_iff.mp h
      have ⟨hn, hs⟩ := Input.shells_of_negatedAt? hs
      exact hb ▸ b.shells_setInputs (.of_eq hn) hs

theorem Input.shells_of_negatedAt? {name : String} : ∀ {is is' : List (String × Input)},
    Input.negatedAt? name is = some is' →
      is'.map (·.1) = is.map (·.1) ∧ (Input.shellsAll is').Perm (Input.shellsAll is)
  | [], _, h => by simp [Input.negatedAt?] at h
  | (n, i) :: is, _, h => by
    simp only [Input.negatedAt?] at h
    split at h
    case isTrue =>
      have ⟨_, hi, hs⟩ := Option.map_eq_some_iff.mp h
      rw [← hs, Input.shellsAll_cons, Input.shellsAll_cons]
      exact ⟨rfl, (Input.shells_of_negated? hi).append_right _⟩
    case isFalse =>
      have ⟨_, his, hs⟩ := Option.map_eq_some_iff.mp h
      have ⟨hn, hp⟩ := Input.shells_of_negatedAt? his
      rw [← hs, Input.shellsAll_cons, Input.shellsAll_cons]
      exact ⟨congrArg (n :: ·) hn, hp.append_left _⟩

end

-- A difference with an operand on one side only.
def Block.isHalf (b : Block) : Bool :=
  b.isDifference && (b.input? left).isSome != (b.input? right).isSome

def Input.isHalf : Input → Bool
  | block b => b.isHalf
  | _ => false

namespace Block

theorem negated?_difference (hd : b.isDifference) : b.negated? = b.swapped? := by
  cases b
  simp [negated?, hd]

theorem setInputs_eq_self : { b with inputs := is } = b ↔ is = b.inputs := by
  cases b
  simp

theorem eraseInput_eq_self : b.eraseInput name = b ↔ b.input? name = none := by
  rw [eraseInput, setInputs_eq_self, List.eraseP_eq_self_iff, input?, List.lookup_eq_none_iff]
  exact forall₂_congr fun p _ => by rw [decide_eq_true_eq, bne_iff_ne, ne_comm]

theorem eraseOperands_eq_self :
    b.eraseOperands = b ↔ b.input? left = none ∧ b.input? right = none := by
  refine ⟨fun h => ?_, fun ⟨hl, hr⟩ => ?_⟩
  · have hs : (b.eraseInput left).inputs.Sublist b.inputs := List.eraseP_sublist
    have hs' : b.eraseOperands.inputs.Sublist (b.eraseInput left).inputs := List.eraseP_sublist
    rw [h] at hs'
    have hl : b.eraseInput left = b := setInputs_eq_self.mpr (hs.antisymm hs')
    exact ⟨eraseInput_eq_self.mp hl, eraseInput_eq_self.mp (by rwa [eraseOperands, hl] at h)⟩
  · rw [eraseOperands, eraseInput_eq_self.mpr hl, eraseInput_eq_self.mpr hr]

theorem swapped?_eq_none : b.swapped? = none ↔ b.input? left = none ∨ b.input? right = none := by
  unfold swapped?
  cases b.input? left <;> cases b.input? right <;> simp

end Block

namespace Input

-- What is taken from zero is the input as it was, unless it is a difference with one operand.
theorem subtrahend_eq_self (h : i.negated? = none) : i.subtrahend = i ↔ i.isHalf = false := by
  cases i
  case block b =>
    by_cases hd : b.isDifference
    case neg => simp [subtrahend, isHalf, Block.isHalf, hd]
    case pos =>
      have hs : b.swapped? = none := by simpa [negated?, Block.negated?_difference hd] using h
      have he : (block b).subtrahend = block b ↔ b.eraseOperands = b := by simp [subtrahend, hd]
      rw [he, Block.eraseOperands_eq_self, isHalf, Block.isHalf, hd, Bool.true_and]
      cases Block.swapped?_eq_none.mp hs
      case inl hn => simp [hn]
      case inr hn => simp [hn]
  all_goals simp [subtrahend, isHalf]

theorem countAll_le_of_sublist (h : is'.Sublist is) : countAll is' ≤ countAll is := by
  induction h
  case slnil => exact Nat.le_refl _
  case cons hi => exact hi.trans (Nat.le_add_left _ _)
  case cons_cons hi => exact Nat.add_le_add_left hi _

theorem count_subtrahend_le (i : Input) : i.subtrahend.count ≤ i.count := by
  cases i
  case block b =>
    rw [subtrahend]
    split
    case isTrue =>
      have hs : b.eraseOperands.inputs.Sublist b.inputs :=
        List.Sublist.trans List.eraseP_sublist List.eraseP_sublist
      have hc := countAll_le_of_sublist hs
      cases b
      simp only [count, Block.count, Block.eraseOperands, Block.eraseInput] at hc ⊢
      omega
    case isFalse => exact Nat.le_refl _
  all_goals exact Nat.le_refl _

theorem count_minus (i : Input) : (Block.minus i).count = i.count + 1 := by
  simp [Block.minus, Block.plain, Block.ofKind, Block.withInput, Block.count, countAll, count,
    BlockKind.count]
  omega

theorem count_of_negated? (h : i.negated? = some i') : i'.count = i.count := by
  have hl := (shells_of_negated? h).length_eq
  rw [shells, shells, List.length_map, List.length_map] at hl
  rw [count_eq_length, count_eq_length, hl]

-- An input that is turned around has as many blocks as before. Any other is kept whole in a
-- difference from zero, unless it is itself a difference with one operand, which is lost then.
theorem count_negate (i : Input) :
    (i.negate.2 = true → i.negate.1.count = i.count) ∧
      (i.negate.2 = false → (i.negate.1 = block (.minus i) ↔ i.isHalf = false)) ∧
      i.negate.1.count ≤ (block (.minus i)).count := by
  unfold negate
  split
  case h_1 i' hn =>
    have hc : i'.count = i.count := count_of_negated? hn
    refine ⟨fun _ => hc, nofun, ?_⟩
    rw [hc, count, count_minus]
    exact Nat.le_succ _
  case h_2 hn =>
    refine ⟨nofun, fun _ => ?_, ?_⟩
    · rw [← subtrahend_eq_self hn]
      simp [Block.minus, Block.withInput]
    · rw [count, count, count_minus, count_minus]
      exact Nat.succ_le_succ i.count_subtrahend_le

-- A difference without its right operand, from which a list is to be told by its length.
def halfDifference : Input :=
  block ((Block.plain "operator_subtract").withInput Block.left (.block (.lengthOf "l")))

theorem negate_halfDifference : halfDifference.negate.2 = false ∧
    halfDifference.negate.1 ≠ block (.minus halfDifference) ∧
    halfDifference.negate.1 = block (.minus (.block (.plain "operator_subtract"))) ∧
    (block (.minus halfDifference)).count = 3 ∧ halfDifference.negate.1.count = 2 := by
  have hc : halfDifference.negate.1.count = 2 := rfl
  have hc' : (block (.minus halfDifference)).count = 3 := rfl
  refine ⟨rfl, fun h => ?_, rfl, hc', hc⟩
  rw [h, hc'] at hc
  contradiction

end Input

end BlockLang
