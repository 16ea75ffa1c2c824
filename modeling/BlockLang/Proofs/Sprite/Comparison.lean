import BlockLang.Proofs.Number.Binary
import BlockLang.Sprite.Reporter

/-!
Comparisons of literals, which come to a word ahead of time: how the six of them are tied to each
other, and what becomes of such a word in a comparison with another one.
-/

namespace BlockLang

open Float.Model (UnpackedFloat)

namespace BinaryOp

def comparisons : List BinaryOp :=
  [eq, ne, lt, gt, le, ge]

-- Whether a comparison holds of two values, by their order.
def accepts : BinaryOp → Ordering → Bool
  | eq => Ordering.isEq
  | ne => Ordering.isNe
  | lt => Ordering.isLT
  | gt => Ordering.isGT
  | le => Ordering.isLE
  | ge => Ordering.isGE
  | _ => fun _ => false

-- The comparison that says the same of two values the other way around.
def mirrored : BinaryOp → BinaryOp
  | lt => gt
  | gt => lt
  | le => ge
  | ge => le
  | op => op

theorem accepts_swap (h : op ∈ comparisons) (o : Ordering) :
    mirrored op ∈ comparisons ∧ (mirrored op).accepts o.swap = accepts op o := by
  simp only [comparisons, List.mem_cons, List.not_mem_nil, or_false] at h
  rcases h with rfl | rfl | rfl | rfl | rfl | rfl <;> cases o <;> decide

end BinaryOp

-- What the comparisons of two values have to do with each other.
structure Consistent (holds : BinaryOp → Bool) : Prop where
  one : [holds .eq, holds .lt, holds .gt].count true = 1
  ne : holds .ne = !holds .eq
  le : holds .le = (holds .lt || holds .eq)
  ge : holds .ge = (holds .gt || holds .eq)

theorem Consistent.accepts (o : Ordering) : Consistent (·.accepts o) := by
  constructor <;> cases o <;> rfl

theorem compare_swap (a b : UnpackedFloat) : b.compare a = (a.compare b).map .swap := by
  have hc : ∀ {m n : Nat} {d e : Int}, ((compare d e).then (compare m n)).swap =
      (compare e d).then (compare n m) := by
    simp [Ordering.swap_then, ← Std.OrientedCmp.eq_swap]
  cases a <;> cases b
  case finite.finite s _ _ _ t _ _ _ => cases s <;> cases t <;> simp [UnpackedFloat.compare, hc]
  case infinity.infinity s t => cases s <;> cases t <;> rfl
  case finite.zero s _ _ _ _ | infinity.zero s _ | infinity.finite s _ _ _ _ => cases s <;> rfl
  case zero.finite _ s _ _ _ | zero.infinity _ s | finite.infinity _ _ _ _ s => cases s <;> rfl
  all_goals rfl

theorem compareFloat_swap (x y : Float) : compareFloat y x = (compareFloat x y).swap := by
  simp only [compareFloat, lt_iff_unpack, UnpackedFloat.lt, compare_swap x.toModel.unpack]
  rcases x.toModel.unpack.compare y.toModel.unpack with _ | _ | _ | _ <;> rfl

theorem compareLiterals_swap (l r : String) :
    compareLiterals r l = (compareLiterals l r).swap := by
  have ht : compare (Text.lowercase r) (Text.lowercase l) =
      (compare (Text.lowercase l) (Text.lowercase r)).swap := Std.OrientedCmp.eq_swap
  simp only [compareLiterals]
  cases number? l <;> cases number? r
  case some.some x y => exact compareFloat_swap x y
  all_goals exact ht

theorem boolLiteral_inj {v w : Bool} : boolLiteral v = boolLiteral w ↔ v = w := by
  decide +revert

variable {scope : Scope} {op : BinaryOp} {o : Ordering} {l r : String} {a b : Expr}

theorem foldBinary?_of_ordering? (h : op.ordering? = some o) :
    foldBinary? op l r = some (boolLiteral (compareLiterals l r = o)) := by
  have hj : op ≠ .join := by
    rintro rfl
    contradiction
  simp [foldBinary?, hj, h]

namespace Scope

theorem folded_of_ordering? {reporter : String} (h : op.ordering? = some o) :
    scope.folded op reporter (.literal l) (.literal r) =
      .ok (.literal (boolLiteral (compareLiterals l r = o))) := by
  simp [folded, Input.literal?, foldBinary?_of_ordering? h]

-- Three of the comparisons are the opposite of another one, whose word is turned around.
theorem binary_literals (h : op ∈ BinaryOp.comparisons) :
    scope.binary op (.literal l) (.literal r) =
      .ok (.literal (boolLiteral (op.accepts (compareLiterals l r)))) := by
  cases op
  case eq | lt | gt | ne | le | ge =>
    rw [binary, folded_of_ordering? rfl]
    cases compareLiterals l r <;> rfl
  all_goals exact absurd h (by decide)

end Scope

namespace Expr

theorem input_literal {t : Token} (h : t.literal = .ok l) :
    (literal t).input scope = .ok (.literal l) := by
  rw [input, h]
  rfl

theorem input_comparison (h : op ∈ BinaryOp.comparisons) (ha : a.input scope = .ok (.literal l))
    (hb : b.input scope = .ok (.literal r)) (span : Span) :
    (binary op span a b).input scope =
      .ok (.literal (boolLiteral (op.accepts (compareLiterals l r)))) := by
  rw [input, ha, hb]
  exact Scope.binary_literals h

-- The comparisons of two literals are built as words that are consistent with each other, and as
-- the same words with the literals the other way around.
theorem input_comparisons (ha : a.input scope = .ok (.literal l))
    (hb : b.input scope = .ok (.literal r)) :
    Consistent (·.accepts (compareLiterals l r)) ∧
      ∀ op ∈ BinaryOp.comparisons, ∀ span,
        (binary op span a b).input scope =
            .ok (.literal (boolLiteral (op.accepts (compareLiterals l r)))) ∧
          (binary op.mirrored span b a).input scope =
            .ok (.literal (boolLiteral (op.accepts (compareLiterals l r)))) := by
  refine ⟨.accepts _, fun op h span => ⟨input_comparison h ha hb span, ?_⟩⟩
  have ⟨hm, hs⟩ := BinaryOp.accepts_swap h (compareLiterals l r)
  rw [input_comparison hm hb ha, compareLiterals_swap, hs]

end Expr

def Scope.blank : Scope :=
  ⟨⟨{}, {}, {}, {}, {}, [], none, .none⟩, .builtin, none⟩

-- A number in base sixteen with blanks around it, which as a text would come before all digits.
def Expr.spacedHex : Expr :=
  .literal ⟨.string, "\" 0X1f \"", .none⟩

def Expr.decimal : Expr :=
  .literal ⟨.float, "9.50", .none⟩

theorem Expr.input_spacedHex : spacedHex.input .blank = .ok (.literal " 0X1f ") :=
  input_literal (by decide)

theorem Expr.input_decimal : decimal.input .blank = .ok (.literal "9.5") :=
  input_literal (by decide)

theorem compareLiterals_spacedHex : compareLiterals " 0X1f " "9.5" = .gt := by
  decide

theorem Expr.input_comparisons_spacedHex :
    spacedHex.input .blank = .ok (.literal " 0X1f ") ∧
      decimal.input .blank = .ok (.literal "9.5") ∧
      Consistent (·.accepts .gt) ∧
      (binary .ge .none spacedHex decimal).input .blank = .ok (.literal "true") ∧
      (binary .le .none decimal spacedHex).input .blank = .ok (.literal "true") := by
  have ⟨hc, h⟩ := input_comparisons input_spacedHex input_decimal
  have ⟨hge, hle⟩ := h .ge (by decide) .none
  rw [compareLiterals_spacedHex] at hc hge hle
  exact ⟨input_spacedHex, input_decimal, hc, hge, hle⟩

namespace Expr

-- A word for what is true, or for what is not.
def word (w : Bool) : Expr :=
  .literal ⟨.keyword, boolLiteral w, .none⟩

theorem input_word (w : Bool) : (word w).input scope = .ok (.literal (if w then "1" else "0")) :=
  input_literal (by cases w <;> decide)

-- A comparison comes to a word, and the words that are written stand for digits, which are no
-- words: no two of them are equal.
theorem compareLiterals_word (v w : Bool) :
    (compareLiterals (boolLiteral v) (if w then "1" else "0")).isEq = false := by
  cases v <;> cases w <;> decide

-- What becomes of a comparison that is compared with a word: it is never true, so it is what is
-- meant only if the comparison does not come to that word.
theorem input_comparedWithWord (h : op ∈ BinaryOp.comparisons)
    (ha : a.input scope = .ok (.literal l)) (hb : b.input scope = .ok (.literal r)) (w : Bool)
    (inner outer : Span) :
    (binary op inner a b).input scope =
        .ok (.literal (boolLiteral (op.accepts (compareLiterals l r)))) ∧
      (binary .eq outer (binary op inner a b) (word w)).input scope = .ok (.literal "false") ∧
      ((binary .eq outer (binary op inner a b) (word w)).input scope =
          .ok (.literal (boolLiteral (op.accepts (compareLiterals l r) == w))) ↔
        op.accepts (compareLiterals l r) ≠ w) := by
  have hi := input_comparison h ha hb inner
  have hw : (binary .eq outer (binary op inner a b) (word w)).input scope =
      .ok (.literal (boolLiteral false)) := by
    rw [input_comparison (by decide) hi (input_word w), BinaryOp.accepts, compareLiterals_word]
  refine ⟨hi, hw, ?_⟩
  rw [hw, Except.ok.injEq, Input.literal.injEq, boolLiteral_inj]
  cases op.accepts (compareLiterals l r) <;> cases w <;> decide

theorem input_comparedWithWord_spacedHex :
    spacedHex.input .blank = .ok (.literal " 0X1f ") ∧
      decimal.input .blank = .ok (.literal "9.5") ∧
      (binary .ge .none spacedHex decimal).input .blank = .ok (.literal "true") ∧
      (binary .eq .none (binary .ge .none spacedHex decimal) (word false)).input .blank =
        .ok (.literal "false") ∧
      (binary .eq .none (binary .ge .none spacedHex decimal) (word true)).input .blank =
        .ok (.literal "false") := by
  have hc : BinaryOp.ge ∈ BinaryOp.comparisons := by decide
  have h := input_comparedWithWord hc input_spacedHex input_decimal
  rw [compareLiterals_spacedHex] at h
  exact ⟨input_spacedHex, input_decimal, (h true .none .none).1, (h false .none .none).2.1,
    (h true .none .none).2.1⟩

def one : Expr :=
  .literal ⟨.number, "1", .none⟩

-- One is equal to itself, but that it is so is not equal to what is true.
theorem input_oneIsOne_ne_input_word :
    (binary .eq .none one one).input .blank = .ok (.literal "true") ∧
      (binary .eq .none (binary .eq .none one one) (word true)).input .blank =
        .ok (.literal "false") := by
  have h₁ : one.input .blank = .ok (.literal "1") := input_literal (by decide)
  have ho : compareLiterals "1" "1" = .eq := by decide
  have hw : compareLiterals "true" "1" = .gt := by decide
  have h : (binary .eq .none one one).input .blank = .ok (.literal "true") := by
    rw [input_comparison (by decide) h₁ h₁, ho]
    rfl
  refine ⟨h, ?_⟩
  rw [input_comparison (by decide) h (input_word true), if_pos rfl, hw]
  rfl

end Expr

end BlockLang
