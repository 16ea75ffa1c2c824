import BlockLang.Proofs.Block.Truth
import BlockLang.Proofs.Number.Binary
import BlockLang.Proofs.Text.Lowercase

/-!
Literals as conditions: which of them count as true, and which count as the opposite of what their
opposite does.
-/

namespace BlockLang

-- A comparison of two literals comes to what is known of them ahead of time. All else is left to a
-- valuation.
def Block.byComparison (v : Block → Bool) (b : Block) : Bool :=
  match b.opcode, b.input? "OPERAND1", b.input? "OPERAND2" with
  | "operator_equals", some (.literal l), some (.literal r) => compareLiterals l r = .eq
  | _, _, _ => v b

def readsAsZero (text : String) : Bool :=
  (number? text).any (floatValue · = 0)

-- Any capitals are fine.
def readsAsFalse (text : String) : Bool :=
  text.toList.map Char.toLower = "false".toList

-- The texts that are false, if they are, in one of two spellings. The empty one is not among them.
def SpelledPlainly (text : String) : Prop :=
  text ≠ "" ∧ (readsAsFalse text → text = "false") ∧ (readsAsZero text → text = "0")

variable {v : Block → Bool} {text : String} {x : Float} {c : Char} {cs : List Char}

theorem isFinite_of_number? (h : number? text = some x) : x.isFinite :=
  (Option.filter_eq_some_iff.mp h).2

namespace Text

theorem trim_of_cons (h : text.toList = c :: cs) (hc : isBlank c = false) :
    ∃ cs', (trim text).toList = c :: cs' := by
  have hd : (c :: cs).dropWhile isBlank = c :: cs := by simp [hc]
  rw [trim, String.toList_ofList, h, hd, dropEndWhile, List.reverse_cons, List.dropWhile_append]
  split
  case isTrue => exact ⟨[], by simp [hc]⟩
  case isFalse => exact ⟨_, List.reverse_concat⟩

theorem eq_of_toLower_eq (h : c.toLower = 'f') : c = 'f' ∨ c = 'F' := by
  cases toLower_cases c
  case inl hc => exact .inl (hc.symm.trans h)
  case inr hc =>
    have hn : c.toNat = 'F'.toNat := by
      have hf : 'f'.toNat = c.toNat + 32 := h ▸ hc.1
      have hn : 'f'.toNat = 102 := rfl
      have hF : 'F'.toNat = 70 := rfl
      omega
    exact .inr (Char.toNat_inj.mp hn)

end Text

-- A number starts with a digit, a sign or a point, or it is a word that is spelled otherwise.
theorem number?_of_readsAsFalse (h : readsAsFalse text) : number? text = none := by
  simp only [readsAsFalse, decide_eq_true_eq] at h
  have ⟨c, cs, ht, hc, _⟩ := List.map_eq_cons_iff.mp h
  have hc : c = 'f' ∨ c = 'F' := Text.eq_of_toLower_eq hc
  have hb : Text.isBlank c = false := by
    cases hc <;> subst c <;> decide
  have ⟨cs', hcs⟩ := Text.trim_of_cons ht hb
  have hn : Decimal.ofList? (c :: cs') = none := by
    cases hc <;> subst c <;> simp [Decimal.ofList?, Decimal.splitSign, Decimal.mantissa?]
  cases hc <;> subst c <;> simp [number?, hcs, hn]

theorem compareLiterals_zero : compareLiterals "0" text = .eq ↔ readsAsZero text := by
  have h₀ : number? "0" = some 0 := by decide
  have hl : Text.lowercase "0" = "0" := by decide
  simp only [compareLiterals, h₀, hl, readsAsZero]
  cases hx : number? text
  case some x => simp [compareFloat_zero (isFinite_of_number? hx)]
  case none =>
    suffices h : "0" ≠ Text.lowercase text by simpa using h
    intro h
    have ha : ∀ d ∈ "0".toList, d.toNat < 'a'.toNat := by simp
    have ht : Text.lowercase text = text := Text.lowercase_eq (h ▸ ha)
    rw [← ht, ← h, h₀] at hx
    contradiction

namespace Input

theorem not_literal : (literal text).not = literal (boolLiteral !(truthy text)) :=
  rfl

-- The word for what is true stands for a one, which is not zero, and the other word for a zero.
theorem counts_literal : (literal text).counts (Block.byComparison v) =
    !(text = "false" || readsAsZero text) := by
  have hz : ∀ text, Block.byComparison v (.equalsZero (.literal text)) = readsAsZero text := by
    intro text
    rw [Bool.eq_iff_iff, ← compareLiterals_zero]
    simp [Block.byComparison, Block.equalsZero, Block.condition, Block.ofKind, Block.withInput,
      Block.input?, List.lookup_cons]
  rw [counts, Block.counted, hz]
  by_cases ht : text = "true"
  case pos =>
    have h₁ : readsAsZero "1" = false := by decide +kernel
    have ht' : readsAsZero "true" = false := by decide
    simp [ht, h₁, ht']
  case neg =>
    by_cases hf : text = "false"
    case pos =>
      have h₀ : readsAsZero "0" := by decide
      simp [hf, h₀]
    case neg => simp [ht, hf]

theorem counts_boolLiteral (b : Bool) :
    (literal (boolLiteral b)).counts (Block.byComparison v) = b := by
  have ht : readsAsZero "true" = false := by decide
  cases b <;> simp [counts_literal, boolLiteral, ht]

theorem counts_not_literal : (literal text).not.counts (Block.byComparison v) = !truthy text := by
  rw [not_literal, counts_boolLiteral]

theorem counts_not_not_literal :
    (literal text).not.not.counts (Block.byComparison v) = truthy text := by
  have hb : ∀ b, truthy (boolLiteral b) = b := by decide
  rw [not_literal, counts_not_literal, hb, Bool.not_not]

theorem not_truthy_eq :
    (!truthy text) = (text = "" || text = "0" || readsAsFalse text) := by
  simp [truthy, readsAsFalse]

-- What is false as a word, and what is false by comparison with zero.
theorem not_truthy_eq_iff :
    ((!truthy text) = (text = "false" || readsAsZero text)) ↔ SpelledPlainly text := by
  have he : readsAsZero "" = false := by decide
  have h₀ : readsAsZero "0" := by decide
  have hf : readsAsFalse "false" := by decide
  have hn : readsAsFalse text → readsAsZero text = false := fun h => by
    rw [readsAsZero, number?_of_readsAsFalse h, Option.any_none]
  rw [not_truthy_eq, Bool.eq_iff_iff]
  simp only [Bool.or_eq_true, decide_eq_true_eq, SpelledPlainly]
  constructor
  case mp =>
    intro h
    refine ⟨?_, fun hr => ?_, fun hz => ?_⟩
    · rintro rfl
      simp [he] at h
    · have hz : readsAsZero text = false := hn hr
      simpa [hr, hz] using h
    · have hr : ¬readsAsFalse text := fun hr => by simp [hn hr] at hz
      have hte : text ≠ "" := by
        rintro rfl
        simp [he] at hz
      simpa [hz, hr, hte] using h
  case mpr =>
    rintro ⟨hte, hr, hz⟩
    constructor
    case mp =>
      rintro ((h | h) | h)
      · exact absurd h hte
      · exact .inr (h ▸ h₀)
      · exact .inl (hr h)
    case mpr =>
      rintro (h | h)
      · exact .inr (h ▸ hf)
      · exact .inl (.inr (hz h))

-- The opposite of a literal is true if the literal is not, and the opposite of that is true if the
-- literal is, for all literals but those that have a plainer spelling of the same.
theorem truth_not_literal (v : Block → Bool) (text : String) :
    ((literal text).not.truth (Block.byComparison v) =
        (!(literal text).truth (Block.byComparison v)) ↔ SpelledPlainly text) ∧
      ((literal text).not.not.truth (Block.byComparison v) =
        (literal text).truth (Block.byComparison v) ↔ SpelledPlainly text) := by
  simp only [truth_eq, counts_literal, counts_not_literal, counts_not_not_literal, Bool.not_not]
  exact ⟨not_truthy_eq_iff, by rw [← not_truthy_eq_iff, Bool.not_eq_eq_eq_not]⟩

def noOther (_ : Block) : Bool :=
  false

-- The empty text counts as true, and so does its opposite. A zero with a point does not count as
-- true, and neither does its opposite.
theorem truth_not_otherSpelling :
    (literal "").truth (Block.byComparison noOther) = true ∧
      (literal "").not.truth (Block.byComparison noOther) = true ∧
      (literal "").not.not.truth (Block.byComparison noOther) = false ∧
      (literal "0.0").truth (Block.byComparison noOther) = false ∧
      (literal "0.0").not.truth (Block.byComparison noOther) = false ∧
      (literal "0.0").not.not.truth (Block.byComparison noOther) = true := by
  decide +kernel

end Input

end BlockLang
