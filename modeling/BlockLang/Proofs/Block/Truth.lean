import BlockLang.Block.Logic
import BlockLang.Proofs.Block.Parts

/-!
What conditions come to, and that rewriting them does not change it.

A valuation says whether a block holds that is no connective. So it settles what is compared with
zero, and thereby which variables, lists, literals and reporters count as true.
-/

namespace BlockLang

mutual

-- Does an input count as true? One that is no condition does if it is not zero.
def Input.counts (v : Block → Bool) : Input → Bool
  | .block b => if b.isCondition then b.holds v else !v (.equalsZero (.block b))
  | .literal text => !v (.equalsZero (Block.counted (.literal text)))
  | .var name => !v (.equalsZero (Block.counted (.var name)))
  | .list name => !v (.equalsZero (Block.counted (.list name)))
  | .stack bs => !v (.equalsZero (Block.counted (.stack bs)))

-- Does a block hold? A connective does by its operands, if it has them.
def Block.holds (v : Block → Bool) : Block → Bool
  | ⟨opcode, kind, inputs, fields, comment, span⟩ =>
    let other := v ⟨opcode, kind, inputs, fields, comment, span⟩
    match opcode, Input.counts? v "OPERAND" inputs, Input.counts? v "OPERAND1" inputs,
      Input.counts? v "OPERAND2" inputs with
    | "operator_not", some x, _, _ => !x
    | "operator_and", _, some x, some y => x && y
    | "operator_or", _, some x, some y => x || y
    | _, _, _, _ => other

-- Does the input of some name count as true, if there is one?
def Input.counts? (v : Block → Bool) (name : String) : List (String × Input) → Option Bool
  | [] => none
  | (n, i) :: is => if name = n then some (i.counts v) else Input.counts? v name is

end

-- The truth of an input is that of the condition that it is made into.
def Input.truth (v : Block → Bool) (i : Input) : Bool :=
  (Block.ofTruth i false).holds v

variable {v : Block → Bool} {b l r : Block} {i : Input} {name : String}
  {is : List (String × Input)} {both opposite : Bool}

theorem Input.counts?_eq : Input.counts? v name is = (is.lookup name).map (Input.counts v) := by
  induction is
  case nil => rfl
  case cons p is hi =>
    rw [Input.counts?, hi, List.lookup_cons]
    by_cases h : name = p.1
    case pos => simp [h]
    case neg =>
      have hb : (name == p.1) = false := by simpa using h
      simp [h, hb]

namespace Block

theorem holds_eq (b : Block) : b.holds v =
    match b.opcode, (b.input? "OPERAND").map (Input.counts v),
      (b.input? "OPERAND1").map (Input.counts v), (b.input? "OPERAND2").map (Input.counts v) with
    | "operator_not", some x, _, _ => !x
    | "operator_and", _, some x, some y => x && y
    | "operator_or", _, some x, some y => x || y
    | _, _, _, _ => v b := by
  cases b
  simp only [holds, Input.counts?_eq, input?]

@[simp]
theorem holds_inverse : b.inverse.holds v = !(Input.block b).counts v := by
  simp [holds_eq, inverse, condition, ofKind, withInput, input?, List.lookup_cons]

@[simp]
theorem holds_connect : (connect both l r).holds v =
    if both then (Input.block l).counts v && (Input.block r).counts v
    else (Input.block l).counts v || (Input.block r).counts v := by
  cases both <;>
    simp [holds_eq, connect, condition, ofKind, withInput, input?, List.lookup_cons]

-- A comparison is no connective, so the valuation settles it.
theorem holds_equalsZero : (equalsZero i).holds v = v (equalsZero i) := by
  simp [holds_eq, equalsZero, condition, ofKind, withInput]

theorem counts_block (h : b.isCondition) : (Input.block b).counts v = b.holds v := by
  rw [Input.counts, if_pos h]

-- A condition is left as it is, or its opposite is taken; all else is compared with zero.
theorem ofTruth_cases (i : Input) (opposite : Bool) :
    (∃ b, i = .block b ∧ b.isCondition ∧ ofTruth i opposite = if opposite then b.inverse else b) ∨
      (∀ v, i.counts v = !v (equalsZero (counted i))) ∧
        ofTruth i opposite = ofTruth.compared i opposite := by
  cases i
  case block b =>
    cases h : b.isCondition
    case true => exact .inl ⟨b, rfl, h, by simp [ofTruth, h]⟩
    case false => exact .inr ⟨fun v => by simp [Input.counts, h, counted], by simp [ofTruth, h]⟩
  all_goals exact .inr ⟨fun v => by rw [Input.counts], rfl⟩

theorem isCondition_ofTruth : (ofTruth i opposite).isCondition := by
  cases ofTruth_cases i opposite
  case inl h =>
    have ⟨b, _, hb, he⟩ := h
    cases opposite
    case false => simpa [he] using hb
    case true => simp [he, inverse, condition, ofKind, withInput, isCondition]
  case inr h =>
    cases opposite <;>
      simp [h.2, ofTruth.compared, inverse, equalsZero, condition, ofKind, withInput, isCondition]

-- What an input is made into holds if the input counts as true, and the other way around.
@[simp]
theorem holds_ofTruth :
    (ofTruth i opposite).holds v = if opposite then !i.counts v else i.counts v := by
  cases ofTruth_cases i opposite
  case inl h =>
    have ⟨b, hi, hb, he⟩ := h
    rw [he, hi]
    cases opposite <;> simp [counts_block hb]
  case inr h =>
    have hz : (equalsZero (counted i)).isCondition := by
      simp [equalsZero, condition, ofKind, withInput, isCondition]
    cases opposite <;>
      simp [h.1, h.2, ofTruth.compared, counts_block hz, holds_equalsZero]

-- The operand of an opposite counts as the opposite of it.
theorem counts_operand (h : b.isInverse) (ho : (b.input? "OPERAND").isSome) :
    (Input.block b.operand).counts v = !b.holds v := by
  have hb : b.opcode = "operator_not" := by simpa [isInverse] using h
  cases hi : b.input? "OPERAND"
  case none => simp [hi] at ho
  case some i =>
    have hn : b.holds v = !i.counts v := by simp [holds_eq, hb, hi]
    rw [hn, Bool.not_not, operand, hi]
    cases i
    case block => rfl
    all_goals simp [counts_block isCondition_ofTruth]

end Block

namespace Input

theorem truth_eq : i.truth v = i.counts v := by
  simp [truth]

-- All opposites within an input are opposites of something.
def HasOperands (i : Input) : Prop :=
  ∀ b ∈ i.blocks, b.isInverse → (b.input? "OPERAND").isSome

namespace HasOperands

theorem block_iff : (Input.block b).HasOperands ↔
    (b.isInverse → (b.input? "OPERAND").isSome) ∧ (∀ p ∈ b.inputs, p.2.HasOperands) ∧
      ∀ b' ∈ b.kind.blocks, b'.isInverse → (b'.input? "OPERAND").isSome := by
  simp only [HasOperands, blocks, Block.blocks_eq b, List.forall_mem_cons, List.forall_mem_append,
    forall_mem_blocksAll]

theorem counted (h : i.HasOperands) : (Block.counted i).HasOperands := by
  cases i
  case list name =>
    simp [Block.counted, block_iff, Block.lengthOf, Block.plain, Block.ofKind, Block.withField,
      Block.isInverse, BlockKind.blocks]
  all_goals exact h

theorem ofTruth (h : i.HasOperands) : (Input.block (Block.ofTruth i false)).HasOperands := by
  cases Block.ofTruth_cases i false
  case inl hi =>
    have ⟨b, hi, _, he⟩ := hi
    rw [he]
    exact hi ▸ h
  case inr hi =>
    have hl : (Input.literal "0").HasOperands := nofun
    rw [hi.2]
    simp [block_iff, Block.ofTruth.compared, Block.inverse, Block.equalsZero, Block.condition,
      Block.ofKind, Block.withInput, Block.input?, Block.isInverse, BlockKind.blocks, h.counted, hl]

theorem operand (h : (Input.block b).HasOperands) : (Input.block b.operand).HasOperands := by
  unfold Block.operand
  split
  case h_1 b' hb => exact fun b hm => h b (Block.blocks_subset_of_input? hb hm)
  case h_2 i hi => exact ofTruth fun b hm => h b (Block.blocks_subset_of_input? hi hm)
  case h_3 => exact h

end HasOperands

theorem counts_operand (h : i.HasOperands) (hb : (Block.ofTruth i false).isInverse) :
    (block (Block.ofTruth i false).operand).counts v = !i.counts v := by
  simp [Block.counts_operand hb ((HasOperands.block_iff.mp h.ofTruth).1 hb)]

theorem not_eq (h : ∀ text, i ≠ .literal text) :
    i.not = if (Block.ofTruth i false).isInverse then block (Block.ofTruth i false).operand
      else block (Block.ofTruth i false).inverse := by
  cases i
  case literal text => exact absurd rfl (h text)
  all_goals rfl

theorem counts_not (hi : i.HasOperands) (h : ∀ text, i ≠ .literal text) :
    i.not.counts v = !i.counts v := by
  rw [not_eq h]
  split
  case isTrue hb => exact counts_operand hi hb
  case isFalse =>
    have hc : (Block.ofTruth i false).inverse.isCondition := rfl
    simp [Block.counts_block hc, Block.counts_block Block.isCondition_ofTruth]

theorem HasOperands.not (hi : i.HasOperands) (h : ∀ text, i ≠ .literal text) :
    i.not.HasOperands := by
  rw [not_eq h]
  split
  case isTrue => exact hi.ofTruth.operand
  case isFalse =>
    simpa [block_iff, Block.inverse, Block.condition, Block.ofKind, Block.withInput, Block.input?,
      BlockKind.blocks] using hi.ofTruth

theorem not_ne_literal (h : ∀ text, i ≠ .literal text) (text : String) : i.not ≠ .literal text := by
  rw [not_eq h]
  split <;> nofun

end Input

namespace Block

-- The opposite of "one of two opposites" is "both", and the other way around.
theorem holds_logical {l r : Input} (hl : l.HasOperands) (hr : r.HasOperands) :
    (logical both l r).holds v =
      if both then l.counts v && r.counts v else l.counts v || r.counts v := by
  simp only [logical]
  split
  case isTrue h =>
    have ⟨hlb, hrb⟩ := Bool.and_eq_true_iff.mp h
    have hc : ∀ l r, (connect (!both) l r).isCondition := fun _ _ => rfl
    rw [holds_inverse, counts_block (hc _ _), holds_connect, Input.counts_operand hl hlb,
      Input.counts_operand hr hrb]
    cases both <;> simp
  case isFalse =>
    simp [counts_block isCondition_ofTruth]

end Block

theorem Input.truth_rewritten {l r : Input} (hl : l.HasOperands) (hr : r.HasOperands)
    (v : Block → Bool) :
    (Block.ofTruth l true).holds v = !l.truth v ∧
      (Block.logical true l r).holds v = (l.truth v && r.truth v) ∧
      (Block.logical false l r).holds v = (l.truth v || r.truth v) ∧
      ((∀ text, l ≠ .literal text) →
        l.not.truth v = !l.truth v ∧ l.not.not.truth v = l.truth v) := by
  simp only [truth_eq]
  refine ⟨by simp, by simp [Block.holds_logical hl hr], by simp [Block.holds_logical hl hr],
    fun h => ?_⟩
  have hn : l.not.counts v = !l.counts v := counts_not hl h
  have hnn : l.not.not.counts v = !l.not.counts v := counts_not (hl.not h) (not_ne_literal h)
  exact ⟨hn, by rw [hnn, hn, Bool.not_not]⟩

-- The opposite of a variable, as a reporter takes it, and that of a button being pressed.
def Input.notScore : Input :=
  .block ((Block.condition "operator_not").withInput "OPERAND" (.var "score"))

def Input.notPressed : Input :=
  .block (Block.condition "sensing_mousedown").inverse

-- The button is pressed, and the variable is zero.
def Block.pressedAtZero (b : Block) : Bool :=
  b.opcode = "sensing_mousedown" || b.opcode = "operator_equals"

theorem Input.truth_rewritten_opposites :
    Input.notScore.HasOperands ∧ Input.notPressed.HasOperands ∧
      (∀ text, Input.notScore ≠ .literal text) ∧
      Input.notScore.truth Block.pressedAtZero = true ∧
      Input.notPressed.truth Block.pressedAtZero = false ∧
      (Block.logical true Input.notScore Input.notPressed).isInverse ∧
      (Block.logical true Input.notScore Input.notPressed).holds Block.pressedAtZero = false ∧
      Input.notScore.not.truth Block.pressedAtZero = false ∧
      Input.notScore.not.not.truth Block.pressedAtZero = true := by
  have hs : Input.notScore.HasOperands := by
    unfold HasOperands
    decide
  have hp : Input.notPressed.HasOperands := by
    unfold HasOperands
    decide
  have hl : ∀ text, Input.notScore ≠ .literal text := nofun
  have ht : Input.notScore.truth Block.pressedAtZero = true := by decide
  have ⟨_, ha, _, hn⟩ := truth_rewritten hs hp Block.pressedAtZero
  have ⟨hn, hnn⟩ := hn hl
  have hnp : Input.notPressed.truth Block.pressedAtZero = false := by decide
  rw [ht, hnp] at ha
  rw [ht] at hn hnn
  exact ⟨hs, hp, hl, ht, hnp, by decide, ha, hn, hnn⟩

end BlockLang
