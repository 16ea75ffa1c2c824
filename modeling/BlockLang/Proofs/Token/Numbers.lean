import Mathlib.Data.Nat.Digits.Lemmas
import BlockLang.Token.Literal
import BlockLang.Proofs.Token.Cover

/-!
The whole numbers of a source stand for their values, in whichever base they are written.
-/

namespace BlockLang

-- The digits that characters spell, the first one first. Letters may be of either case, and
-- underscores stand for nothing.
inductive DigitsOf (base : Nat) : List Char → List Nat → Prop
  | nil : DigitsOf base [] []
  | underscore {cs ns} (rest : DigitsOf base cs ns) : DigitsOf base ('_' :: cs) ns
  | digit {c n cs ns} (small : n < base) (char : c.toLower = n.digitChar)
      (rest : DigitsOf base cs ns) : DigitsOf base (c :: cs) (n :: ns)

-- The marks that stand after a zero, with the bases that they are for.
def radixMarks : List (Char × Nat) :=
  [('x', 16), ('X', 16), ('b', 2), ('B', 2), ('o', 8), ('O', 8)]

-- A whole number as it is written, by its base and its digits. Without a mark the base is ten.
inductive WholeNumber : List Char → Nat → List Nat → Prop
  | marked {mark base cs ns} (known : (mark, base) ∈ radixMarks) (digits : DigitsOf base cs ns) :
      WholeNumber ('0' :: mark :: cs) base ns
  | plain {c cs ns} (first : c ≠ '_') (digits : DigitsOf 10 (c :: cs) ns) :
      WholeNumber (c :: cs) 10 ns

-- The decimal numeral of a number, with no zeros in front.
structure IsNumeral (text : String) (n : Nat) : Prop where
  canonical : text.toList.head? = some '0' → text = "0"
  value     : ∃ ns, ns ≠ [] ∧ text.toList = ns.map Nat.digitChar ∧ (∀ d ∈ ns, d < 10) ∧
    Nat.ofDigits 10 ns.reverse = n

variable {c mark : Char} {cs body : List Char} {base n acc : Nat} {ns : List Nat}

theorem Char.of_ascii {P : Char → Prop} (h : ∀ n < 128, P (.ofNat n)) (hc : c.toNat < 128) :
    P c := by
  rw [← Char.ofNat_toNat c]
  exact h _ hc

theorem Char.toNat_lt_of_toLower (h : c.toLower.toNat < 128) : c.toNat < 128 := by
  unfold Char.toLower at h
  split at h
  case isTrue hc => exact Nat.lt_of_le_of_lt (UInt32.le_iff_toNat_le.mp hc.2) (by decide)
  case isFalse => exact h

theorem exists_digits_iff :
    (∃ ns, DigitsOf base cs ns) ↔ ∀ c ∈ cs, c = '_' ∨ ∃ n < base, c.toLower = n.digitChar := by
  constructor
  case mp =>
    rintro ⟨ns, h⟩
    induction h
    case nil => simp
    case underscore hi => simpa using hi
    case digit hn hc _ hi => exact List.forall_mem_cons.mpr ⟨.inr ⟨_, hn, hc⟩, hi⟩
  case mpr =>
    intro h
    induction cs
    case nil => exact ⟨[], .nil⟩
    case cons c cs hi =>
      have ⟨hc, hs⟩ := List.forall_mem_cons.mp h
      have ⟨ns, hs⟩ := hi hs
      rcases hc with rfl | ⟨n, hn, hc⟩
      · exact ⟨ns, .underscore hs⟩
      · exact ⟨n :: ns, .digit hn hc hs⟩

theorem toDigits_eq_digits (hn : n ≠ 0) :
    Nat.toDigits 10 n = (Nat.digits 10 n).reverse.map Nat.digitChar := by
  induction n using Nat.strong_induction_on
  case h n hi =>
    rw [Nat.toDigits_eq_if (by decide), Nat.digits_def' (by decide) (Nat.pos_of_ne_zero hn)]
    split
    case isTrue hs => simp [Nat.div_eq_of_lt hs, Nat.mod_eq_of_lt hs]
    case isFalse hs =>
      have hi := hi (n / 10) (by omega) (by omega)
      simp [hi]

theorem isNumeral_toString : IsNumeral (toString n) n := by
  rw [Nat.toString_eq_ofList_toDigits]
  by_cases hn : n = 0
  case pos =>
    subst hn
    exact ⟨fun _ => rfl, [0], by simp⟩
  case neg =>
    have hd := Nat.getLast_digit_ne_zero 10 hn
    rw [toDigits_eq_digits hn]
    constructor
    case canonical =>
      simp [List.getLast?_eq_getLast_of_ne_nil (Nat.digits_ne_nil_iff_ne_zero.mpr hn), hd]
    case value =>
      refine ⟨_, by simpa [Nat.digits_eq_nil_iff_eq_zero] using hn, String.toList_ofList, ?_, ?_⟩
      · exact fun d hd => Nat.digits_lt_base (by decide) (List.mem_reverse.mp hd)
      · rw [List.reverse_reverse, Nat.ofDigits_digits]

namespace Decimal

theorem digit?_of_toLower (hb : base ≤ 16) (hn : n < base) (hc : c.toLower = n.digitChar) :
    digit? base c = some n := by
  have hd : ∀ n < 16, n.digitChar.toNat < 128 := by decide
  have hs : c.toNat < 128 := Char.toNat_lt_of_toLower (hc ▸ hd n (by omega))
  have h := Char.of_ascii (P := fun c => ∀ m < 16, c.toLower = m.digitChar →
    digit? 16 c = some m) (by decide +kernel) hs n (by omega) hc
  unfold digit? at h ⊢
  grind

theorem filter_of_toLower (hb : base ≤ 16) (hn : n < base) (hc : c.toLower = n.digitChar) :
    (c :: cs).filter (· ≠ '_') = c :: cs.filter (· ≠ '_') := by
  refine List.filter_cons_of_pos (decide_eq_true ?_)
  rintro rfl
  simpa [digit?] using digit?_of_toLower hb hn hc

theorem natural?_of_digits (hb : base ≤ 16) (h : DigitsOf base cs ns) :
    natural? base acc (cs.filter (· ≠ '_')) =
      some (acc * base ^ ns.length + Nat.ofDigits base ns.reverse) := by
  induction h generalizing acc
  case nil => simp [natural?]
  case underscore hi => simpa using hi
  case digit c n cs ns hn hc _ hi =>
    rw [filter_of_toLower hb hn hc, natural?, digit?_of_toLower hb hn hc, Option.bind_some, hi]
    simp only [List.reverse_cons, Nat.ofDigits_append, Nat.ofDigits_singleton, List.length_cons,
      List.length_reverse]
    grind

theorem filter_eq_nil_iff_of_digits (hb : base ≤ 16) (h : DigitsOf base cs ns) :
    cs.filter (· ≠ '_') = [] ↔ ns = [] := by
  induction h
  case nil => simp
  case underscore hi => simpa using hi
  case digit hn hc _ hi =>
    rw [filter_of_toLower hb hn hc]
    simp

theorem unsigned?_of_plus_notMem (h : '+' ∉ cs) :
    unsigned? base cs = if cs = [] then none else natural? base 0 cs := by
  cases cs
  case nil => rfl
  case cons c cs =>
    have hc : c ≠ '+' := by
      rintro rfl
      simp at h
    simp [unsigned?, hc]

theorem unsigned?_of_digits (hb : base ≤ 16) (h : DigitsOf base cs ns) :
    unsigned? base (cs.filter (· ≠ '_')) =
      if ns = [] then none else some (Nat.ofDigits base ns.reverse) := by
  have hp : '+' ∉ cs := by
    intro hp
    obtain hp | ⟨n, hn, hp⟩ := exists_digits_iff.mp ⟨ns, h⟩ '+' hp
    · contradiction
    · simpa [digit?] using digit?_of_toLower hb hn hp
  rw [unsigned?_of_plus_notMem fun hf => hp (List.mem_filter.mp hf).1, natural?_of_digits hb h]
  simp only [filter_eq_nil_iff_of_digits hb h, Nat.zero_mul, Nat.zero_add]

theorem isDigit_of_digits (h : DigitsOf 10 cs ns) : ∀ c ∈ cs.filter (· ≠ '_'), c.isDigit := by
  intro c hc
  have ⟨hc, hu⟩ := List.mem_filter.mp hc
  obtain rfl | ⟨n, hn, hc⟩ := exists_digits_iff.mp ⟨ns, h⟩ c hc
  · contradiction
  have hd : ∀ n < 10, n.digitChar.toNat < 128 := by decide
  exact Char.of_ascii (P := fun c => ∀ n < 10, c.toLower = n.digitChar → c.isDigit)
    (by decide +kernel) (Char.toNat_lt_of_toLower (hc ▸ hd n hn)) n hn hc

-- Digits alone are a number, of whatever size.
theorem ofList?_of_digits (h : DigitsOf 10 cs ns) (hn : ns ≠ []) :
    ∃ d, ofList? (cs.filter (· ≠ '_')) = some d := by
  have hd := isDigit_of_digits h
  have hv : natural? 10 0 (cs.filter (· ≠ '_')) = some _ := natural?_of_digits (by decide) h
  rw [ne_eq, ← filter_eq_nil_iff_of_digits (by decide) h] at hn
  generalize cs.filter (· ≠ '_') = cs at hd hv hn
  obtain ⟨c, rest, he⟩ := List.exists_cons_of_ne_nil hn
  have hc : c.isDigit := hd c (he ▸ List.mem_cons_self)
  have hs : splitSign cs = (false, cs) := by
    subst he
    unfold splitSign
    split <;> simp_all
  have hm : mantissa? false cs ≠ none := by
    simp only [mantissa?, List.takeWhile_eq_self_iff.mpr hd, List.dropWhile_eq_nil_iff.mpr hd]
    simp [hn, hv, exponent?]
  refine Option.ne_none_iff_exists'.mp ?_
  simp only [ofList?, hs]
  split
  · exact Option.some_ne_none _
  split
  · exact Option.some_ne_none _
  · exact hm

end Decimal

namespace WholeNumber

theorem known_mark (h : (mark, base) ∈ radixMarks) : base ≤ 16 ∧ mark ≠ '_' := by
  have hk : ∀ m ∈ radixMarks, m.2 ≤ 16 ∧ m.1 ≠ '_' := by decide
  exact hk _ h

theorem splitRadix_of_mark (h : (mark, base) ∈ radixMarks) :
    Token.splitRadix ('0' :: mark :: cs) = (base, cs) := by
  simp only [radixMarks, List.mem_cons, Prod.mk.injEq, List.not_mem_nil, or_false] at h
  rcases h with ⟨rfl, rfl⟩ | ⟨rfl, rfl⟩ | ⟨rfl, rfl⟩ | ⟨rfl, rfl⟩ | ⟨rfl, rfl⟩ | ⟨rfl, rfl⟩
  all_goals rfl

theorem splitRadix_of_isDigit (h : ∀ c ∈ cs, c.isDigit) : Token.splitRadix cs = (10, cs) := by
  unfold Token.splitRadix
  split
  case h_1 mark cs =>
    have hm : mark.isDigit := h mark (by simp)
    simp only [Bool.or_eq_true, decide_eq_true_eq]
    split_ifs with hx hb ho
    case pos => rcases hx with rfl | rfl <;> contradiction
    case pos => rcases hb with rfl | rfl <;> contradiction
    case pos => rcases ho with rfl | rfl <;> contradiction
    case neg => rfl
  case h_2 => rfl

theorem base_le (h : WholeNumber cs base ns) : base ≤ 16 := by
  cases h
  case marked hm _ => exact (known_mark hm).1
  case plain => decide

-- The digits are those that the mark and the underscores leave.
theorem splitRadix_filter (h : WholeNumber cs base ns) : ∃ ds, DigitsOf base ds ns ∧
    Token.splitRadix (cs.filter (· ≠ '_')) = (base, ds.filter (· ≠ '_')) := by
  cases h
  case marked mark ds hm hs =>
    have hr : Token.splitRadix ('0' :: mark :: ds.filter (· ≠ '_')) = _ := splitRadix_of_mark hm
    exact ⟨ds, hs, by simpa [(known_mark hm).2] using hr⟩
  case plain hs => exact ⟨_, hs, splitRadix_of_isDigit (Decimal.isDigit_of_digits hs)⟩

theorem ne_nil (h : WholeNumber cs 10 ns) : ns ≠ [] := by
  cases h
  case marked hm _ => simp [radixMarks] at hm
  case plain hc hs =>
    cases hs
    case underscore => contradiction
    case digit => simp

variable {text : String}

-- A number of at most 128 bits is written out, and no other one with a mark is a number at all.
theorem decodeInteger?_eq (h : WholeNumber text.toList base ns) : ∃ ds, DigitsOf base ds ns ∧
    Token.decodeInteger? text =
      if ns ≠ [] ∧ Nat.ofDigits base ns.reverse < 2 ^ 128 then
        some (toString (Nat.ofDigits base ns.reverse))
      else Token.decodeInteger?.rounded? base (ds.filter (· ≠ '_')) := by
  have ⟨ds, hs, hr⟩ := splitRadix_filter h
  refine ⟨ds, hs, ?_⟩
  rw [Token.decodeInteger?, hr]
  simp only [Decimal.unsigned?_of_digits h.base_le hs, Token.exactBound, Nat.pow_eq]
  by_cases hn : ns = [] <;> simp [hn]

end WholeNumber

namespace Scan

theorem word_ne_number : word c cs ≠ token .number body := by
  have ⟨_, _, hw, hk⟩ := word_cases c cs
  rw [hw]
  rintro ⟨⟩
  simp at hk

theorem punctuation?_ne_number : Token.punctuation? c ≠ some .number := by
  unfold Token.punctuation?
  split <;> rintro ⟨⟩

theorem head_eq_number (h : head c cs = token .number body) :
    c.isDigit ∧ number c cs = token .number body := by
  unfold head at h
  repeat' split at h
  all_goals first
    | exact absurd h word_ne_number
    | exact ⟨‹_›, h⟩
    | cases h
  exact absurd ‹_› punctuation?_ne_number

theorem toNat_lt_of_isRadixDigit (h : isRadixDigit mark c) : c.toNat < 128 := by
  have hv : c.toNat = c.val.toNat := rfl
  unfold isRadixDigit at h
  split at h
  case isTrue =>
    simp [Char.isDigit, Char.le_def, UInt32.le_iff_toNat_le] at h
    omega
  split at h
  case isTrue =>
    have hb : c = '0' ∨ c = '1' := by simpa using h
    rcases hb with rfl | rfl <;> decide
  case isFalse =>
    simp [Char.le_def, UInt32.le_iff_toNat_le] at h
    omega

theorem toLower_of_isRadixDigit (hm : (mark, base) ∈ radixMarks) (h : isRadixDigit mark c) :
    ∃ n < base, c.toLower = n.digitChar := by
  have hd : ∀ m ∈ radixMarks, isRadixDigit m.1 c → ∃ n < m.2, c.toLower = n.digitChar :=
    Char.of_ascii (P := fun c => ∀ m ∈ radixMarks, isRadixDigit m.1 c →
      ∃ n < m.2, c.toLower = n.digitChar) (by decide +kernel) (toNat_lt_of_isRadixDigit h)
  exact hd _ hm h

theorem toLower_of_isDigit (h : c.isDigit) : ∃ n < 10, c.toLower = n.digitChar := by
  have hx : isRadixDigit 'x' c := by simp [isRadixDigit, h]
  have hs : c.toNat < 128 := toNat_lt_of_isRadixDigit hx
  exact Char.of_ascii (P := fun c => c.isDigit → ∃ n < 10, c.toLower = n.digitChar)
    (by decide +kernel) hs h

theorem wholeNumber_of_digits (hc : c.isDigit) (hb : ∀ d ∈ body, isDigitChar d) :
    ∃ ns, WholeNumber (c :: body) 10 ns := by
  have hs : ∀ d ∈ c :: body, d = '_' ∨ ∃ n < 10, d.toLower = n.digitChar := by
    refine List.forall_mem_cons.mpr ⟨.inr (toLower_of_isDigit hc), fun d hd => ?_⟩
    have hd : d.isDigit ∨ d = '_' := by simpa [isDigitChar] using hb d hd
    exact hd.symm.imp_right toLower_of_isDigit
  have ⟨ns, hs⟩ := exists_digits_iff.mpr hs
  refine ⟨ns, .plain ?_ hs⟩
  rintro rfl
  contradiction

theorem number_decimal (hc : c.isDigit) (h : number.decimal cs = token .number body) :
    ∃ ns, WholeNumber (c :: body) 10 ns := by
  have hb : body = cs.takeWhile isDigitChar := by
    unfold number.decimal at h
    grind
  exact wholeNumber_of_digits hc fun d hd => List.mem_takeWhile_imp (hb ▸ hd)

theorem exists_radixMarks (h : mark ∈ "xXbBoO".toList) : ∃ base, (mark, base) ∈ radixMarks := by
  simp only [radixMarks, List.mem_cons, Prod.mk.injEq]
  simp at h
  grind

-- What the reader takes for a number are digits of the base that the mark gives.
theorem wholeNumber_of_number (hc : c.isDigit) (h : number c cs = token .number body) :
    ∃ base ns, WholeNumber (c :: body) base ns := by
  unfold number at h
  split at h
  case h_1 mark rest =>
    split at h
    case isTrue hm =>
      simp only [Bool.and_eq_true, decide_eq_true_eq, List.contains_iff_mem] at hm
      obtain ⟨rfl, hm⟩ := hm
      obtain ⟨_, rfl⟩ := Scan.token.inj h
      obtain ⟨base, hm⟩ := exists_radixMarks hm
      have hs : ∀ d ∈ rest.takeWhile fun d => isRadixDigit mark d || d = '_',
          d = '_' ∨ ∃ n < base, d.toLower = n.digitChar := by
        intro d hd
        have hd : isRadixDigit mark d ∨ d = '_' := by simpa using List.mem_takeWhile_imp hd
        exact hd.symm.imp_right (toLower_of_isRadixDigit hm)
      obtain ⟨ns, hs⟩ := exists_digits_iff.mpr hs
      exact ⟨base, ns, .marked hm hs⟩
    case isFalse => exact ⟨10, number_decimal hc h⟩
  case h_2 => exact ⟨10, number_decimal hc h⟩

end Scan

namespace Token

variable {ts : List Token} {t : Token} {source : String}

theorem rounded?_of_digits (h : DigitsOf 10 cs ns) (hn : ns ≠ []) :
    ∃ s, decodeInteger?.rounded? 10 (cs.filter (· ≠ '_')) = some s := by
  have ⟨d, hd⟩ := Decimal.ofList?_of_digits h hn
  exact ⟨_, by rw [decodeInteger?.rounded?, if_pos rfl, hd]; rfl⟩

-- A whole number stands for its value if that has at most 128 bits. Otherwise it is an error if it
-- has a mark, and it is rounded if it has none.
theorem literal_ofSource (h : ofSource source = .ok ts) (ht : t ∈ ts) (hk : t.kind = .number) :
    ∃ base ns, WholeNumber t.text.toList base ns ∧
      (ns ≠ [] → Nat.ofDigits base ns.reverse < 2 ^ 128 →
        ∃ s, literal t = .ok s ∧ IsNumeral s (Nat.ofDigits base ns.reverse)) ∧
      (base ≠ 10 → ns = [] ∨ 2 ^ 128 ≤ Nat.ofDigits base ns.reverse →
        literal t = .error (.span t.span (.malformedNumber t.text))) ∧
      (base = 10 → ∃ s, literal t = .ok s) := by
  obtain ⟨c, rest, body, hd, hx⟩ := head_of_mem_scan h ht (by simp [hk])
  obtain ⟨hc, hd⟩ := Scan.head_eq_number (hk ▸ hd)
  obtain ⟨base, ns, hl⟩ := Scan.wholeNumber_of_number hc hd
  rw [← String.toList_ofList (l := c :: body), ← hx] at hl
  obtain ⟨ds, hs, he⟩ := hl.decodeInteger?_eq
  have ht : literal t =
      (decodeInteger? t.text).elim (.error (.span t.span (.malformedNumber t.text))) .ok := by
    cases hd : decodeInteger? t.text <;> simp [literal, hk, hd]
  refine ⟨base, ns, hl, fun hn hv => ?_, fun hb hv => ?_, fun hb => ?_⟩
  case refine_1 =>
    rw [ht, he, if_pos ⟨hn, hv⟩]
    exact ⟨_, rfl, isNumeral_toString⟩
  case refine_2 =>
    rw [ht, he, if_neg (by grind)]
    simp [decodeInteger?.rounded?, hb]
  case refine_3 =>
    subst hb
    obtain ⟨s, hr⟩ := rounded?_of_digits hs hl.ne_nil
    rw [ht, he]
    split
    all_goals grind

-- Marks and letters of either case, underscores at all places, and zeros in front.
def numbersSource : String :=
  "0x_fF 0B0_1_ 1__0 0o017 00_7"

theorem literal_numbersSource : ∃ ts t, ofSource numbersSource = .ok ts ∧ t ∈ ts ∧
    t.kind = .number ∧ t.text = "0x_fF" ∧ literal t = .ok "255" ∧
    ts.map literal = [.ok "255", .ok "1", .ok "10", .ok "15", .ok "7",
      .error (.span ⟨1, 29, 1⟩ .notLiteral)] ∧
    ∃ base ns, WholeNumber t.text.toList base ns ∧
      (ns ≠ [] → Nat.ofDigits base ns.reverse < 2 ^ 128 →
        ∃ s, literal t = .ok s ∧ IsNumeral s (Nat.ofDigits base ns.reverse)) := by
  have h : (ofSource numbersSource).map (fun ts => (ts.map literal,
      ts.head?.map fun t => (t.kind, t.text, literal t))) = .ok ([.ok "255", .ok "1", .ok "10",
        .ok "15", .ok "7", .error (.span ⟨1, 29, 1⟩ .notLiteral)],
        some (.number, "0x_fF", .ok "255")) := by
    decide +kernel
  obtain ⟨ts, hs, hl⟩ := map_eq_ok.mp h
  obtain ⟨hl, ht⟩ := Prod.mk.inj hl
  obtain ⟨t, ht, hf⟩ := Option.map_eq_some_iff.mp ht
  simp only [Prod.mk.injEq] at hf
  obtain ⟨hk, hx, hv⟩ := hf
  have hm : t ∈ ts := List.mem_of_head? ht
  obtain ⟨base, ns, he, hn, _⟩ := literal_ofSource hs hm hk
  exact ⟨ts, t, hs, hm, hk, hx, hv, hl, base, ns, he, hn⟩

end Token

end BlockLang
