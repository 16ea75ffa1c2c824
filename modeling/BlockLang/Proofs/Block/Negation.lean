import BlockLang.Block.Logic
import BlockLang.Proofs.Block.Shells
import BlockLang.Proofs.Number.Binary

/-!
What arithmetic blocks come to in exact numbers, and that the negation of an input comes to the
opposite of it.

A valuation says what all other inputs come to: variables, lists and blocks of other kinds. Any of
them may have no value.
-/

namespace BlockLang

-- The number that a literal counts as. A text that is no number counts as zero.
def literalAmount (text : String) : ℚ :=
  ((number? text).map floatValue).getD 0

-- There is no division by zero.
def Block.exactly? : String → Option (ℚ → ℚ → Option ℚ)
  | "operator_subtract" => some fun x y => some (x - y)
  | "operator_multiply" => some fun x y => some (x * y)
  | "operator_divide" => some fun x y => if y = 0 then none else some (x / y)
  | _ => none

mutual

def Input.amount? (v : Input → Option ℚ) : Input → Option ℚ
  | .literal text => some (literalAmount text)
  | .block b => b.amount? v
  | .var name => v (.var name)
  | .list name => v (.list name)
  | .stack bs => v (.stack bs)

-- An arithmetic block comes to what its operands do, if it has both of them.
def Block.amount? (v : Input → Option ℚ) : Block → Option ℚ
  | ⟨opcode, kind, inputs, fields, comment, span⟩ =>
    match Block.exactly? opcode, Input.amountAt? v Block.left inputs,
      Input.amountAt? v Block.right inputs with
    | some op, some x, some y => do op (← x) (← y)
    | _, _, _ => v (.block ⟨opcode, kind, inputs, fields, comment, span⟩)

-- What the input of some name comes to, if there is one.
def Input.amountAt? (v : Input → Option ℚ) (name : String) :
    List (String × Input) → Option (Option ℚ)
  | [] => none
  | (n, i) :: is => if name = n then some (i.amount? v) else Input.amountAt? v name is

end

def Block.isArithmetic (b : Block) : Bool :=
  b.isDifference || b.isProduct

-- A block with one input on the left and one on the right.
def Block.Binary (b : Block) : Prop :=
  (b.inputs.map (·.1)).count Block.left = 1 ∧ (b.inputs.map (·.1)).count Block.right = 1

-- The literals that an input is made of, be it one itself.
def Input.literals (i : Input) : List String :=
  i.literal?.toList ++ i.blocks.flatMap fun b => b.inputs.filterMap (·.2.literal?)

-- Is the opposite of a literal, once written, read as the same number?
def WrittenBack (text : String) : Prop :=
  ∀ x ∈ number? text, ∃ y ∈ number? (formatNumber (-x)), y == -x

instance (b : Block) : Decidable b.Binary :=
  inferInstanceAs (Decidable (_ ∧ _))

instance (text : String) : Decidable (WrittenBack text) :=
  inferInstanceAs (Decidable (∀ x ∈ number? text, _))

variable {v : Input → Option ℚ} {b b' : Block} {i i' : Input} {name : String}
  {is is' : List (String × Input)} {x y : Option ℚ}

theorem Input.amountAt?_eq :
    Input.amountAt? v name is = (is.lookup name).map (Input.amount? v) := by
  induction is
  case nil => rfl
  case cons p is hi =>
    rw [Input.amountAt?, hi, lookup_cons_ite]
    split <;> rfl

-- What becomes of two operands if one of them is turned around, or if they are swapped.
theorem bind_neg_left {op : ℚ → ℚ → Option ℚ} (h : ∀ x y, op (-x) y = (op x y).map Neg.neg) :
    ((x.map Neg.neg).bind fun x => y.bind fun y => op x y) =
      (x.bind fun x => y.bind fun y => op x y).map Neg.neg := by
  cases x <;> cases y <;> simp [h]

theorem bind_neg_right {op : ℚ → ℚ → Option ℚ} (h : ∀ x y, op x (-y) = (op x y).map Neg.neg) :
    (x.bind fun x => (y.map Neg.neg).bind fun y => op x y) =
      (x.bind fun x => y.bind fun y => op x y).map Neg.neg := by
  cases x <;> cases y <;> simp [h]

theorem bind_sub_swap : (y.bind fun y => x.bind fun x => some (y - x)) =
    (x.bind fun x => y.bind fun y => some (x - y)).map Neg.neg := by
  cases x <;> cases y <;> simp

namespace Block

theorem amount?_eq (b : Block) : b.amount? v =
    match exactly? b.opcode, (b.input? left).map (Input.amount? v),
      (b.input? right).map (Input.amount? v) with
    | some op, some x, some y => do op (← x) (← y)
    | _, _, _ => v (.block b) := by
  cases b
  simp only [amount?, Input.amountAt?_eq, input?]

theorem amount?_operands {op : ℚ → ℚ → Option ℚ} {l r : Input}
    (ho : exactly? b.opcode = some op) (hl : b.input? left = some l)
    (hr : b.input? right = some r) :
    b.amount? v = (l.amount? v).bind fun x => (r.amount? v).bind fun y => op x y := by
  simp only [amount?_eq, ho, hl, hr]
  rfl

theorem exactly?_difference (h : b.isDifference) :
    exactly? b.opcode = some fun x y => some (x - y) := by
  have h : b.opcode = "operator_subtract" := by simpa [isDifference] using h
  rw [h, exactly?]

-- The opposite of either operand makes for the opposite of a product or a quotient.
theorem exactly?_product (h : b.isProduct) : ∃ op, exactly? b.opcode = some op ∧
    ∀ x y, op (-x) y = (op x y).map Neg.neg ∧ op x (-y) = (op x y).map Neg.neg := by
  have h : b.opcode = "operator_multiply" ∨ b.opcode = "operator_divide" := by
    simpa [isProduct] using h
  cases h
  case inl h => exact ⟨_, by rw [h, exactly?], fun x y => by simp⟩
  case inr h =>
    refine ⟨_, by rw [h, exactly?], fun x y => ?_⟩
    by_cases hy : y = 0 <;> simp [hy, neg_div, div_neg]

theorem Binary.input? (h : b.Binary) :
    (∃ l, b.input? left = some l) ∧ ∃ r, b.input? right = some r := by
  have ⟨hl, hr⟩ := h
  have hs : ∀ name, (b.inputs.map (·.1)).count name = 1 → ∃ i, b.input? name = some i := by
    intro name hc
    have hm : name ∈ b.inputs.map (·.1) := List.count_pos_iff.mp (by omega)
    have ⟨p, hp, hn⟩ := List.mem_map.mp hm
    exact Option.isSome_iff_exists.mp (List.lookup_isSome_iff.mpr ⟨p, hp, by simp [hn]⟩)
  exact ⟨hs _ hl, hs _ hr⟩

theorem amount?_of_swapped? (hd : b.isDifference) (hs : b.swapped? = some b') :
    b'.amount? v = (b.amount? v).map Neg.neg := by
  unfold swapped? at hs
  split at hs
  case h_2 => cases hs
  case h_1 l r hl hr =>
    cases hs
    rw [amount?_operands (exactly?_difference hd) hl hr, ← bind_sub_swap]
    exact amount?_operands (exactly?_difference hd) rfl rfl

theorem amount?_minus : (minus i).amount? v = (i.amount? v).map Neg.neg := by
  have h₀ : literalAmount "0" = 0 := by decide
  rw [amount?_operands (exactly?_difference rfl) rfl rfl, Input.amount?, h₀]
  cases i.amount? v <;> simp

end Block

-- All arithmetic blocks within an input have both operands, and its literals can be turned around.
structure Input.Exact (i : Input) : Prop where
  binary      : ∀ b ∈ i.blocks, b.isArithmetic → b.Binary
  writtenBack : ∀ text ∈ i.literals, WrittenBack text

namespace Input

theorem Exact.self (h : (block b).Exact) (ha : b.isArithmetic) : b.Binary :=
  h.binary b Block.self_mem_blocks ha

theorem literals_subset_of_mem (hm : (name, i) ∈ b.inputs) : i.literals ⊆ (block b).literals := by
  refine List.append_subset.mpr ⟨fun text ht => ?_, fun text ht => ?_⟩
  · have ht : i.literal? = some text := Option.mem_toList.mp ht
    have hb : text ∈ b.inputs.filterMap (·.2.literal?) := List.mem_filterMap.mpr ⟨_, hm, ht⟩
    exact List.mem_append_right _ (List.mem_flatMap.mpr ⟨b, Block.self_mem_blocks, hb⟩)
  · have ⟨b', hb, ht⟩ := List.mem_flatMap.mp ht
    have hb : b' ∈ b.blocks := Block.blocks_subset_of_mem hm hb
    exact List.mem_append_right _ (List.mem_flatMap.mpr ⟨b', hb, ht⟩)

theorem Exact.of_mem (h : (block b).Exact) (hm : (name, i) ∈ b.inputs) : i.Exact where
  binary b' hb := h.binary b' (Block.blocks_subset_of_mem hm hb)
  writtenBack text ht := h.writtenBack text (literals_subset_of_mem hm ht)

theorem literalAmount_neg {text : String} {x : Float} (h : WrittenBack text)
    (hx : number? text = some x) : literalAmount (formatNumber (-x)) = -literalAmount text := by
  have ⟨y, hy, he⟩ := h x hx
  simp only [literalAmount, hx, Option.mem_def.mp hy, Option.map_some, Option.getD_some]
  rw [floatValue_congr he, floatValue_neg]

end Input

-- The induction follows the three functions. Among the inputs of a block one is turned around,
-- and the others are what they were.
mutual

theorem Input.amount?_of_negated? : ∀ {i i' : Input}, i.negated? = some i' → i.Exact →
    i'.amount? v = (i.amount? v).map Neg.neg
  | .literal text, i', hn, h => by
    simp only [Input.negated?, Option.map_eq_some_iff] at hn
    have ⟨x, hx, hi⟩ := hn
    have hw : WrittenBack text := h.writtenBack text (List.mem_singleton_self text)
    rw [← hi, Input.amount?, Input.amount?, Input.literalAmount_neg hw hx, Option.map_some]
  | .block b, i', hn, h => by
    simp only [Input.negated?, Option.map_eq_some_iff] at hn
    have ⟨b', hb, hi⟩ := hn
    rw [← hi, Input.amount?, Input.amount?]
    exact Block.amount?_of_negated? hb h
  | .var _, _, hn, _ | .list _, _, hn, _ | .stack _, _, hn, _ => by simp [Input.negated?] at hn

theorem Block.amount?_of_negated? : ∀ {b b' : Block}, b.negated? = some b' →
    (Input.block b).Exact → b'.amount? v = (b.amount? v).map Neg.neg
  | ⟨opcode, kind, inputs, fields, comment, span⟩, b', hn, h => by
    simp only [Block.negated?] at hn
    split at hn
    case isTrue hd => exact Block.amount?_of_swapped? hd hn
    split at hn
    case isFalse => cases hn
    case isTrue hp =>
      have ⟨⟨l, hl⟩, r, hr⟩ := (h.self (by simp [Block.isArithmetic, hp])).input?
      have ⟨op, ho, hop⟩ := Block.exactly?_product hp
      have hi : ∀ p ∈ inputs, p.2.Exact := fun ⟨_, _⟩ hm => h.of_mem hm
      rw [Block.amount?_operands ho hl hr]
      split at hn
      case h_1 is hs =>
        cases hn
        have ⟨l', hl', ha, hs⟩ := Input.amount?_of_negatedAt? hs hi hl
        have hr : is.lookup Block.right = some r := (hs Block.right (by decide)).trans hr
        rw [← bind_neg_left fun x y => (hop x y).1, ← ha]
        exact Block.amount?_operands ho hl' hr
      case h_2 =>
        have ⟨is, hs, hb⟩ := Option.map_eq_some_iff.mp hn
        have ⟨r', hr', ha, hs⟩ := Input.amount?_of_negatedAt? hs hi hr
        have hl : is.lookup Block.left = some l := (hs Block.left (by decide)).trans hl
        rw [← bind_neg_right fun x y => (hop x y).2, ← ha, ← hb]
        exact Block.amount?_operands ho hl hr'

theorem Input.amount?_of_negatedAt? {name : String} {i : Input} :
    ∀ {is is' : List (String × Input)}, Input.negatedAt? name is = some is' →
      (∀ p ∈ is, p.2.Exact) → is.lookup name = some i →
        ∃ i', is'.lookup name = some i' ∧ i'.amount? v = (i.amount? v).map Neg.neg ∧
          ∀ n, n ≠ name → is'.lookup n = is.lookup n
  | [], _, hn, _, _ => by simp [Input.negatedAt?] at hn
  | (n, j) :: is, _, hn, h, hi => by
    have ⟨hj, his⟩ := List.forall_mem_cons.mp h
    simp only [Input.negatedAt?] at hn
    split at hn
    case isTrue he =>
      have ⟨j', hj', hs⟩ := Option.map_eq_some_iff.mp hn
      subst he hs
      have hij : j = i := by simpa using hi
      refine ⟨j', List.lookup_cons_self, hij ▸ Input.amount?_of_negated? hj' hj, fun m hm => ?_⟩
      rw [lookup_cons_ite, lookup_cons_ite, if_neg hm, if_neg hm]
    case isFalse he =>
      have ⟨is', his', hs⟩ := Option.map_eq_some_iff.mp hn
      subst hs
      rw [lookup_cons_ite, if_neg (Ne.symm he)] at hi
      have ⟨i', hi', ha, hr⟩ := Input.amount?_of_negatedAt? his' his hi
      refine ⟨i', by rwa [lookup_cons_ite, if_neg (Ne.symm he)], ha, fun m hm => ?_⟩
      rw [lookup_cons_ite, lookup_cons_ite, hr m hm]

end

-- A difference with both operands can always be turned around, so it is never taken from zero.
theorem Input.subtrahend_of_binary (h : ∀ b ∈ i.blocks, b.isArithmetic → b.Binary)
    (hn : i.negated? = none) : i.subtrahend = i := by
  refine (subtrahend_eq_self hn).mpr ?_
  cases i
  case block b =>
    rw [isHalf, Block.isHalf, Bool.and_eq_false_iff]
    by_cases hd : b.isDifference
    case pos =>
      have hb : b.Binary := h b Block.self_mem_blocks (by simp [Block.isArithmetic, hd])
      obtain ⟨⟨l, hl⟩, r, hr⟩ := hb.input?
      exact .inr (by simp [hl, hr])
    case neg => exact .inl (Bool.eq_false_iff.mpr hd)
  all_goals rfl

theorem Input.amount?_negate (v : Input → Option ℚ)
    (hb : ∀ b ∈ i.blocks, b.isArithmetic → b.Binary)
    (hw : ∀ text ∈ i.literals, WrittenBack text) :
    i.negate.1.amount? v = (i.amount? v).map Neg.neg := by
  have h : i.Exact := ⟨hb, hw⟩
  unfold Input.negate
  split
  case h_1 i' hn => exact amount?_of_negated? hn h
  case h_2 hn =>
    rw [subtrahend_of_binary hb hn, Input.amount?]
    exact Block.amount?_minus

def Block.arithmetic (opcode : String) (l r : Input) : Block :=
  ((plain opcode).withInput left l).withInput right r

-- `lives * (score * 4 / (level - 2))`. The literal below the quotient takes the sign.
def Input.scaledLives : Input :=
  let score : Block := .arithmetic "operator_multiply" (.var "score") (.literal "4")
  let level : Block := .arithmetic "operator_subtract" (.var "level") (.literal "2")
  let quotient : Block := .arithmetic "operator_divide" (.block score) (.block level)
  .block (.arithmetic "operator_multiply" (.var "lives") (.block quotient))

theorem Input.amount?_negate_scaledLives :
    (∀ b ∈ scaledLives.blocks, b.isArithmetic → b.Binary) ∧
      (∀ text ∈ scaledLives.literals, WrittenBack text) ∧
      scaledLives.negate.2 ∧ scaledLives.negate.1.literals = ["-4", "2"] ∧
      scaledLives.negate.1.amount? (fun _ => some 6) = some (-36) ∧
      scaledLives.negate.1.amount? (fun _ => some 2) = none := by
  have hb : ∀ b ∈ scaledLives.blocks, b.isArithmetic → b.Binary := by decide +kernel
  have hw : ∀ text ∈ scaledLives.literals, WrittenBack text := by decide +kernel
  have h₆ : scaledLives.amount? (fun _ => some 6) = some 36 := by decide +kernel
  have h₂ : scaledLives.amount? (fun _ => some 2) = none := by decide +kernel
  have hn₆ := amount?_negate (fun _ => some 6) hb hw
  have hn₂ := amount?_negate (fun _ => some 2) hb hw
  rw [h₆, Option.map_some] at hn₆
  rw [h₂, Option.map_none] at hn₂
  exact ⟨hb, hw, by decide +kernel, by decide +kernel, hn₆, hn₂⟩

end BlockLang
