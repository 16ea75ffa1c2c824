import BlockLang.Block.Logic
import BlockLang.Proofs.Block.Tidy

/-!
Negation, and what counts as true: blocks stay tidy.
-/

namespace BlockLang

variable {R : Ref → Prop} {b b' : Block} {i i' l r : Input} {name : String}
  {is is' : List (String × Input)}

namespace Block

theorem tidy_of_mem (h : b.Tidy R) (hi : b.input? name = some i) : i.Tidy R := by
  have ⟨l₁, l₂, hl, _⟩ := List.lookup_eq_some_iff.mp hi
  exact Input.allTidy_iff.mp (tidy_iff.mp h).2.2 (name, i) (by simp [hl])

theorem Tidy.setInputs (h : b.Tidy R) (hn : (is.map (·.1)).Nodup) (hi : Input.AllTidy R is) :
    { b with inputs := is }.Tidy R := by
  have ⟨hb, hk, _⟩ := tidy_iff.mp h
  exact tidy_iff.mpr ⟨⟨hn, hb.fields, hb.fit, hb.refs⟩, hk, hi⟩

theorem names_eraseInput :
    (b.eraseInput name).inputs.map (·.1) = (b.inputs.map (·.1)).erase name := by
  have hp : (fun p : String × Input => decide (p.1 = name)) = (fun n => name == n) ∘ (·.1) :=
    funext fun p => by simp [Bool.beq_eq_decide_eq, eq_comm]
  rw [List.erase_eq_eraseP, List.eraseP_map, Block.eraseInput, hp]

theorem Tidy.eraseInput (h : b.Tidy R) : (b.eraseInput name).Tidy R := by
  have ⟨hb, _, hi⟩ := tidy_iff.mp h
  refine h.setInputs ?_ (Input.allTidy_iff.mpr fun i hm => ?_)
  · exact names_eraseInput ▸ hb.inputs.erase name
  · exact Input.allTidy_iff.mp hi i (List.mem_of_mem_eraseP hm)

theorem Tidy.eraseOperands (h : b.Tidy R) : b.eraseOperands.Tidy R :=
  h.eraseInput.eraseInput

-- The operands are put back in front, where neither is left among the others.
theorem tidy_of_swapped? (hs : b.swapped? = some b') (h : b.Tidy R) : b'.Tidy R := by
  unfold swapped? at hs
  split at hs
  case h_2 => cases hs
  case h_1 l r hl hr =>
    cases hs
    have hb := (tidy_iff.mp h).1.inputs
    have ⟨he, _, hi⟩ := tidy_iff.mp h.eraseOperands
    have hn : b.eraseOperands.inputs.map (·.1) = ((b.inputs.map (·.1)).erase left).erase right := by
      rw [eraseOperands, names_eraseInput, names_eraseInput]
    refine h.setInputs ?_ ?_
    · have hl : left ∉ b.eraseOperands.inputs.map (·.1) := fun hm =>
        hb.not_mem_erase (List.mem_of_mem_erase (hn ▸ hm))
      have hr : right ∉ b.eraseOperands.inputs.map (·.1) := hn ▸ (hb.erase left).not_mem_erase
      rw [List.map_cons, List.map_cons, List.nodup_cons, List.nodup_cons]
      exact ⟨by simpa [left, right] using hl, hr, he.inputs⟩
    · simp [hi, tidy_of_mem h hl, tidy_of_mem h hr]

end Block

-- The induction follows the three functions; inputs keep their names.
mutual

theorem Input.tidy_of_negated? : ∀ {i i' : Input}, i.negated? = some i' → i.Tidy R → i'.Tidy R
  | .literal text, i', hn, _ => by
    simp only [Input.negated?, Option.map_eq_some_iff] at hn
    have ⟨_, _, hi⟩ := hn
    simp [← hi]
  | .block b, i', hn, h => by
    simp only [Input.negated?, Option.map_eq_some_iff] at hn
    have ⟨_, hb, hi⟩ := hn
    exact hi ▸ Input.tidy_block.mpr (Block.tidy_of_negated? hb (Input.tidy_block.mp h))
  | .var _, _, hn, _ | .list _, _, hn, _ | .stack _, _, hn, _ => by simp [Input.negated?] at hn

theorem Block.tidy_of_negated? : ∀ {b b' : Block}, b.negated? = some b' → b.Tidy R → b'.Tidy R
  | ⟨opcode, kind, inputs, fields, comment, span⟩, b', hn, h => by
    have ⟨hb, _, hi⟩ := Block.tidy_iff.mp h
    simp only [Block.negated?] at hn
    split at hn
    · exact Block.tidy_of_swapped? hn h
    split at hn
    · split at hn
      case h_1 _ hl =>
        cases hn
        have ⟨hi', hn'⟩ := Input.allTidy_of_negatedAt? hl hi
        exact h.setInputs (hn' ▸ hb.inputs) hi'
      case h_2 _ =>
        have ⟨_, hr, hb'⟩ := Option.map_eq_some_iff.mp hn
        have ⟨hi', hn'⟩ := Input.allTidy_of_negatedAt? hr hi
        exact hb' ▸ h.setInputs (hn' ▸ hb.inputs) hi'
    · cases hn

theorem Input.allTidy_of_negatedAt? {name : String} : ∀ {is is' : List (String × Input)},
    Input.negatedAt? name is = some is' → Input.AllTidy R is →
      Input.AllTidy R is' ∧ is'.map (·.1) = is.map (·.1)
  | [], _, hn, _ => by simp [Input.negatedAt?] at hn
  | (n, i) :: is, _, hn, h => by
    have ⟨hi, his⟩ := Input.allTidy_cons.mp h
    simp only [Input.negatedAt?] at hn
    split at hn
    · have ⟨_, hi', he⟩ := Option.map_eq_some_iff.mp hn
      simp [← he, his, Input.tidy_of_negated? hi' hi]
    · have ⟨_, his', he⟩ := Option.map_eq_some_iff.mp hn
      have ⟨ht, hs⟩ := Input.allTidy_of_negatedAt? his' his
      simp [← he, ht, hs, hi]

end

theorem Input.Tidy.subtrahend (h : i.Tidy R) : i.subtrahend.Tidy R := by
  cases i
  case block b =>
    simp only [Input.subtrahend, tidy_block] at h ⊢
    split
    · exact h.eraseOperands
    · exact h
  all_goals exact h

theorem Input.Tidy.negate (h : i.Tidy R) : i.negate.1.Tidy R := by
  unfold Input.negate
  split
  case h_1 _ hn => exact Input.tidy_of_negated? hn h
  case h_2 _ =>
    simp [Block.minus, Block.plain, BlockKind.Inner, Block.left, Block.right, h.subtrahend]

namespace Block

@[simp]
theorem tidy_inverse : b.inverse.Tidy R ↔ b.Tidy R := by
  simp [inverse, condition, BlockKind.Inner]

theorem tidy_lengthOf : (lengthOf name).Tidy R ↔ R (.list name) := by
  simp [tidy_iff, lengthOf, plain, BlockKind.Inner, Field.Fits, Field.ref?, Field.name]

theorem Tidy.counted (h : i.Tidy R) : (counted i).Tidy R := by
  cases i <;> simp_all [Block.counted, tidy_lengthOf]

theorem tidy_equalsZero : (equalsZero i).Tidy R ↔ i.Tidy R := by
  simp [equalsZero, condition, BlockKind.Inner]

theorem tidy_compared {opposite : Bool} (h : i.Tidy R) : (ofTruth.compared i opposite).Tidy R := by
  have hz := tidy_equalsZero.mpr (Tidy.counted h)
  cases opposite <;> simp [ofTruth.compared, hz]

theorem tidy_ofTruth (opposite : Bool) (h : i.Tidy R) : (ofTruth i opposite).Tidy R := by
  have hc : (ofTruth.compared i opposite).Tidy R := tidy_compared h
  cases i
  case block b =>
    have hb := Input.tidy_block.mp h
    simp only [ofTruth]
    split
    · cases opposite <;> simp [hb]
    · exact hc
  all_goals exact hc

theorem Tidy.operand (h : b.Tidy R) : b.operand.Tidy R := by
  unfold Block.operand
  split
  case h_1 _ hi => exact Input.tidy_block.mp (tidy_of_mem h hi)
  case h_2 _ _ hi => exact tidy_ofTruth _ (tidy_of_mem h hi)
  case h_3 _ => exact h

theorem tidy_connect {both : Bool} (hb : b.Tidy R) (hb' : b'.Tidy R) :
    (connect both b b').Tidy R := by
  simp [connect, condition, BlockKind.Inner, hb, hb']

theorem tidy_logical {both : Bool} (hl : l.Tidy R) (hr : r.Tidy R) :
    (logical both l r).Tidy R := by
  have hl : (ofTruth l false).Tidy R := tidy_ofTruth _ hl
  have hr : (ofTruth r false).Tidy R := tidy_ofTruth _ hr
  simp only [logical]
  split
  · exact tidy_inverse.mpr (tidy_connect hl.operand hr.operand)
  · exact tidy_connect hl hr

end Block

theorem Input.Tidy.not (h : i.Tidy R) : i.not.Tidy R := by
  have ht : (Block.ofTruth i false).Tidy R := Block.tidy_ofTruth _ h
  cases i
  case literal text => trivial
  all_goals
    simp only [Input.not]
    split
    · exact tidy_block.mpr ht.operand
    · exact tidy_block.mpr (Block.tidy_inverse.mpr ht)

end BlockLang
