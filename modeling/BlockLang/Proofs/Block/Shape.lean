import BlockLang.Proofs.Block.Truth
import BlockLang.Proofs.Project.Diagnosed

/-!
The shape of conditions, and what rewriting them joins to what.
-/

namespace BlockLang

-- A block that is made of given blocks, by comparisons with zero and by connectives between
-- conditions.
inductive Block.JoinedFrom (bs : List Block) : Block → Prop
  | given {b : Block} : b ∈ bs → JoinedFrom bs b
  | comparison {i : Input} : i.blocks ⊆ bs → JoinedFrom bs (equalsZero (counted i))
  | opposite {b : Block} : JoinedFrom bs b → b.isCondition → JoinedFrom bs b.inverse
  | connection {both : Bool} {l r : Block} : JoinedFrom bs l → JoinedFrom bs r →
      l.isCondition → r.isCondition → JoinedFrom bs (connect both l r)

-- A reporter that is no condition.
def Input.isPlain : Input → Bool
  | block b => !b.isCondition
  | _ => false

-- An opposite, as it may be written, of a reporter that is no condition.
def Input.negatesPlain : Input → Bool
  | block b => b.isCondition && b.isInverse && (b.input? "OPERAND").any isPlain
  | _ => false

variable {bs bs' : List Block} {b l r p : Block} {i : Input} {both opposite : Bool}

namespace Block

theorem isCondition_inverse : b.inverse.isCondition :=
  rfl

theorem isCondition_equalsZero : (equalsZero i).isCondition :=
  rfl

theorem isCondition_connect : (connect both l r).isCondition :=
  rfl

theorem JoinedFrom.mono (h : JoinedFrom bs b) (hs : bs ⊆ bs') : JoinedFrom bs' b := by
  induction h
  case given hb => exact given (hs hb)
  case comparison hi => exact comparison (List.Subset.trans hi hs)
  case opposite hc hb => exact opposite hb hc
  case connection hl hr hbl hbr => exact connection hbl hbr hl hr

theorem ofTruth_of_plain (h : i.isCondition = false) :
    ofTruth i opposite = ofTruth.compared i opposite := by
  cases i
  case block b => exact if_neg (Bool.eq_false_iff.mp h)
  all_goals rfl

theorem ofTruth_of_condition (h : b.isCondition) : ofTruth (.block b) false = b := by
  simp [ofTruth, h]

theorem joinedFrom_ofTruth : JoinedFrom i.blocks (ofTruth i opposite) := by
  have hz : JoinedFrom i.blocks (equalsZero (counted i)) := .comparison (List.Subset.refl _)
  cases ofTruth_cases i opposite
  case inl h =>
    have ⟨b, hi, hb, he⟩ := h
    have hg : JoinedFrom i.blocks b := .given (by simp [hi, Input.blocks, self_mem_blocks])
    rw [he]
    cases opposite
    case false => exact hg
    case true => exact hg.opposite hb
  case inr h =>
    rw [h.2]
    cases opposite
    case false => exact hz.opposite isCondition_equalsZero
    case true => exact hz

theorem exists_of_negatesPlain (h : i.negatesPlain) :
    ∃ b, i = .block b ∧ b.isCondition ∧ b.isInverse := by
  cases i
  case block b =>
    simp only [Input.negatesPlain, Bool.and_eq_true] at h
    exact ⟨b, rfl, h.1⟩
  all_goals contradiction

theorem isInverse_of_negatesPlain (h : i.negatesPlain) : (ofTruth i false).isInverse := by
  have ⟨b, hi, hb, hn⟩ := exists_of_negatesPlain h
  rw [hi, ofTruth_of_condition hb]
  exact hn

-- What is left of an opposite is a condition, unless it is the opposite of a plain reporter.
theorem joinedFrom_operand (hc : b.isCondition) (hn : b.isInverse) :
    JoinedFrom b.blocks b.operand ∧ b.operand.isCondition = !(Input.block b).negatesPlain := by
  simp only [Input.negatesPlain, hc, hn, Bool.true_and]
  unfold operand
  split
  case h_1 p hp =>
    have hm : p ∈ b.blocks := blocks_subset_of_input? hp self_mem_blocks
    exact ⟨.given hm, by simp [hp, Input.isPlain]⟩
  case h_2 i hi hp =>
    have hi : i.isPlain = false := by
      cases i
      case block p => exact absurd rfl (hi p)
      all_goals rfl
    refine ⟨joinedFrom_ofTruth.mono (blocks_subset_of_input? hp), ?_⟩
    rw [hp, Option.any_some, hi, isCondition_ofTruth, Bool.not_false]
  case h_3 hp => exact ⟨.given self_mem_blocks, by simp [hp, hc]⟩

theorem joinedFrom_operand_ofTruth (h : (ofTruth i false).isInverse) :
    JoinedFrom i.blocks (ofTruth i false).operand ∧
      (ofTruth i false).operand.isCondition = !i.negatesPlain := by
  cases hc : i.isCondition
  case true =>
    cases i
    case block b =>
      rw [ofTruth_of_condition hc] at h ⊢
      rw [Input.blocks]
      exact joinedFrom_operand hc h
    all_goals contradiction
  case false =>
    have ho : (ofTruth i false).operand = equalsZero (counted i) := by
      rw [ofTruth_of_plain hc]
      rfl
    have hp : i.negatesPlain = false := by
      by_contra hp
      have ⟨b, hi, hb, _⟩ := exists_of_negatesPlain (Bool.not_eq_false _ ▸ hp)
      rw [hi, Input.isCondition, hb] at hc
      contradiction
    rw [ho, hp]
    exact ⟨.comparison (List.Subset.refl _), isCondition_equalsZero⟩

-- Two conditions are joined, except where two opposites are and one of them is of a plain reporter.
theorem joinedFrom_logical (both : Bool) (l r : Input) : (logical both l r).isCondition ∧
    ∃ p q, JoinedFrom l.blocks p ∧ JoinedFrom r.blocks q ∧
      if (ofTruth l false).isInverse && (ofTruth r false).isInverse then
        logical both l r = (connect (!both) p q).inverse ∧
          p.isCondition = !l.negatesPlain ∧ q.isCondition = !r.negatesPlain
      else logical both l r = connect both p q ∧ p.isCondition ∧ q.isCondition := by
  simp only [logical]
  split
  case isTrue h =>
    obtain ⟨hl, hr⟩ := Bool.and_eq_true_iff.mp h
    obtain ⟨hp, hpc⟩ := joinedFrom_operand_ofTruth hl
    obtain ⟨hq, hqc⟩ := joinedFrom_operand_ofTruth hr
    exact ⟨isCondition_inverse, _, _, hp, hq, rfl, hpc, hqc⟩
  case isFalse =>
    exact ⟨isCondition_connect, _, _, joinedFrom_ofTruth, joinedFrom_ofTruth, rfl,
      isCondition_ofTruth, isCondition_ofTruth⟩

end Block

theorem Input.joinedFrom_not (i : Input) : i.not.literal?.isSome ∨
    ∃ b, i.not = .block b ∧ Block.JoinedFrom i.blocks b ∧ b.isCondition = !i.negatesPlain := by
  by_cases hl : ∃ text, i = .literal text
  case pos =>
    have ⟨text, hl⟩ := hl
    exact .inl (by simp [hl, Input.not, literal?])
  case neg =>
    rw [not_eq fun text h => hl ⟨text, h⟩]
    right
    split
    case isTrue h => exact ⟨_, rfl, Block.joinedFrom_operand_ofTruth h⟩
    case isFalse h =>
      have hi : i.negatesPlain = false :=
        Bool.eq_false_iff.mpr (mt Block.isInverse_of_negatesPlain h)
      have ht : Block.JoinedFrom i.blocks (Block.ofTruth i false) := Block.joinedFrom_ofTruth
      exact ⟨_, rfl, ht.opposite Block.isCondition_ofTruth, by rw [hi]; rfl⟩

-- Everything that is made of inputs has the shape of a condition, and so have the operands of it,
-- but for what becomes of the opposite of a plain reporter.
theorem Input.shape_rewritten (l r : Input) (both opposite : Bool) :
    ((Block.ofTruth l opposite).isCondition ∧
        Block.JoinedFrom l.blocks (Block.ofTruth l opposite)) ∧
      (l.not.literal?.isSome ∨
        ∃ b, l.not = .block b ∧ Block.JoinedFrom l.blocks b ∧ b.isCondition = !l.negatesPlain) ∧
      (Block.logical both l r).isCondition ∧
      ∃ p q, Block.JoinedFrom l.blocks p ∧ Block.JoinedFrom r.blocks q ∧
        if (Block.ofTruth l false).isInverse && (Block.ofTruth r false).isInverse then
          Block.logical both l r = (Block.connect (!both) p q).inverse ∧
            p.isCondition = !l.negatesPlain ∧ q.isCondition = !r.negatesPlain
        else Block.logical both l r = Block.connect both p q ∧ p.isCondition ∧ q.isCondition :=
  ⟨⟨Block.isCondition_ofTruth, Block.joinedFrom_ofTruth⟩, l.joinedFrom_not,
    Block.joinedFrom_logical both l r⟩

-- What is said first in the first script of a text.
def Input.said? (text : String) : Option Input := do
  let source := MemoryTree.empty.source
  let sprite ← (Sprite.ofSource source ⟨"p"⟩ .none "cat" text).toOption
  match (← sprite.blocks.head?).kind with
  | .hat (b :: _) _ => b.input? "MESSAGE"
  | _ => none

def Input.opcode? : Input → Option String
  | block b => some b.opcode
  | _ => none

-- Whether the inputs of a block are conditions.
def Block.shape (b : Block) : List Bool :=
  b.inputs.map (·.2.isCondition)

-- The reporter is written around a sum, which is no condition.
def negatedSum : String :=
  "variables x;\nonflag \x7b say NOT(x + 1); \x7d\n"

theorem Input.plain_of_negatedSum : ∃ i, said? negatedSum = some i ∧ i.negatesPlain ∧
    i.not.opcode? = some "operator_add" ∧ i.not.isCondition = false ∧
    (Block.logical true i i).operand.opcode = "operator_or" ∧
    (Block.logical true i i).operand.shape = [false, false] := by
  have h : (said? negatedSum).any fun i => i.negatesPlain ∧
      i.not.opcode? = some "operator_add" ∧ i.not.isCondition = false ∧
      (Block.logical true i i).operand.opcode = "operator_or" ∧
      (Block.logical true i i).operand.shape = [false, false] := by
    decide +kernel
  have ⟨i, hi, h⟩ := (Option.any_eq_true _ _).mp h
  exact ⟨i, hi, of_decide_eq_true h⟩

end BlockLang
