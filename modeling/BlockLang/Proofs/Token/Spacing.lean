import BlockLang.Proofs.Token.Cover

/-!
The words of a text do not depend on its spacing: written with single spaces between them, they are
read as the same words again.
-/

namespace BlockLang

-- A word ends where a space follows, or nothing.
def Scan.Parted (rest : List Char) : Prop :=
  ∀ c ∈ rest.head?, c = ' '

namespace Scan

variable {c d : Char} {cs body rest : List Char} {kind : TokenKind} {p : Char → Bool}

theorem Parted.stops (h : Parted rest) (hp : p ' ' = false) : ∀ c ∈ rest.head?, p c = false :=
  fun c hc => h c hc ▸ hp

-- What is taken as long as `p` holds is taken again if `p` does not hold for what follows.
theorem takeWhile_append_stop (h : ∀ c ∈ rest.head?, p c = false) :
    (cs.takeWhile p ++ rest).takeWhile p = cs.takeWhile p := by
  have hr : rest.takeWhile p = [] := by
    cases rest
    case nil => rfl
    case cons c rest => simp [h c rfl]
  rw [List.takeWhile_append_of_pos fun _ => List.mem_takeWhile_imp, hr, List.append_nil]

theorem dropWhile_append_stop (h : ∀ c ∈ rest.head?, p c = false) :
    (cs.takeWhile p ++ rest).dropWhile p = rest := by
  rw [List.dropWhile_append_of_pos fun _ => List.mem_takeWhile_imp]
  cases rest
  case nil => rfl
  case cons c rest => simp [h c rfl]

-- The next character is the same one if more of the text is left, and a space otherwise.
theorem head?_append_ne (hb : body <+: cs) (hr : Parted rest) (hd : d ≠ ' ')
    (hc : cs.head? ≠ some d) : (body ++ rest).head? ≠ some d := by
  cases body
  case nil => exact fun he => hd (hr d he)
  case cons c body =>
    have ⟨left, hl⟩ := hb
    subst hl
    exact hc

-- Strings and block comments end with marks of their own, whatever follows.
theorem stringBody_append (h : stringBody cs = (body, true)) :
    stringBody (body ++ rest) = (body, true) := by
  fun_induction stringBody cs generalizing body
  case case1 | case2 | case4 => simp at h
  case case3 c cs hc inner closed hs hi =>
    obtain ⟨hb, hd⟩ := Prod.mk.inj h
    subst hb hd
    simp [stringBody, hc, hi hs]
  case case5 =>
    obtain ⟨hb, _⟩ := Prod.mk.inj h
    subst hb
    rfl
  case case6 c cs hm hc hq inner closed hs hi =>
    obtain ⟨hb, hd⟩ := Prod.mk.inj h
    subst hb hd
    -- A backslash at the end would leave the string open.
    have hm : c ≠ '\\' := by
      intro he
      cases cs
      case nil => simp [stringBody] at hs
      case cons d cs => exact hm d cs he rfl
    rw [List.cons_append, stringBody.eq_3 c _ fun _ _ he => absurd he hm, if_neg hc, if_neg hq,
      hi hs]

theorem commentBody?_ne_nil : commentBody? cs ≠ some [] := by
  fun_induction commentBody? cs <;> simp

theorem commentBody?_append (h : commentBody? cs = some body) :
    commentBody? (body ++ rest) = some body := by
  fun_induction commentBody? cs generalizing body
  case case1 => simp at h
  case case2 => exact Option.some.inj h ▸ rfl
  case case3 c cs hm hi =>
    obtain ⟨inner, hb, he⟩ := Option.map_eq_some_iff.mp h
    subst he
    have hm : ∀ tail, c = '*' → inner ++ rest = '/' :: tail → False := by
      intro tail hc ht
      obtain ⟨left, hl⟩ := commentBody?_prefix hb
      cases inner
      case nil => exact commentBody?_ne_nil hb
      case cons d inner =>
        obtain ⟨hd, _⟩ := List.cons.inj ht
        exact hm (inner ++ left) hc (hd ▸ hl.symm)
    rw [List.cons_append, commentBody?.eq_3 c _ hm, hi hb, Option.map_some]

theorem decimal_append (h : number.decimal cs = token kind body) (hr : Parted rest) :
    number.decimal (body ++ rest) = token kind body := by
  have hs : ∀ c ∈ rest.head?, isDigitChar c = false := hr.stops (by decide)
  -- A number without a point: no point follows it.
  have hw : number.decimal (cs.takeWhile isDigitChar ++ rest) =
      token .number (cs.takeWhile isDigitChar) := by
    unfold number.decimal
    rw [takeWhile_append_stop hs, dropWhile_append_stop hs]
    split
    case h_1 => exact absurd (hr '.' rfl) (by decide)
    case h_2 => rfl
  unfold number.decimal at h
  split at h
  case h_2 =>
    cases h
    exact hw
  split at h
  case isFalse =>
    cases h
    exact hw
  case isTrue d left _ hd =>
    cases h
    have hp : ∀ c ∈ ('.' :: d :: (left.takeWhile isDigitChar ++ rest)).head?,
        isDigitChar c = false := by
      simp [isDigitChar]
    unfold number.decimal
    rw [List.append_assoc, List.cons_append, List.cons_append, takeWhile_append_stop hp,
      dropWhile_append_stop hp]
    simp [hd, takeWhile_append_stop hs]

-- The base of a number is told only by a mark that follows a zero.
theorem number_eq_decimal
    (h : ∀ mark ∈ cs.head?, (decide (c = '0') && "xXbBoO".toList.contains mark) = false) :
    number c cs = number.decimal cs := by
  cases cs
  case nil => rfl
  case cons mark cs => simp only [number, h mark rfl, Bool.false_eq_true, if_false]

theorem number_append (h : number c cs = token kind body) (hr : Parted rest) :
    number c (body ++ rest) = token kind body := by
  have hb : body <+: cs := (h ▸ number_prefix : (token kind body).taken <+: cs)
  by_cases hm : ∀ mark ∈ cs.head?, (decide (c = '0') && "xXbBoO".toList.contains mark) = false
  case pos =>
    rw [number_eq_decimal hm] at h
    rw [number_eq_decimal, decimal_append h hr]
    intro mark hk
    cases body
    case nil => simp [hr mark hk]
    case cons d body =>
      have ⟨left, hl⟩ := hb
      exact hm mark (hl ▸ hk)
  case neg =>
    cases cs
    case nil => exact absurd nofun hm
    case cons mark cs =>
      have hm : (decide (c = '0') && "xXbBoO".toList.contains mark) = true := by
        by_contra hn
        exact hm fun d hd => Option.some.inj hd ▸ Bool.eq_false_iff.mpr hn
      have hs : ∀ d ∈ rest.head?, (isRadixDigit mark d || decide (d = '_')) = false :=
        hr.stops (by simp [isRadixDigit])
      rw [number, if_pos hm] at h
      cases h
      rw [List.cons_append, number, if_pos hm, takeWhile_append_stop hs]

theorem word_append (h : word c cs = token kind body) (hr : Parted rest) :
    word c (body ++ rest) = token kind body := by
  have hs : ∀ d ∈ rest.head?, isWordChar d = false := hr.stops (by decide)
  have hw : word c (cs.takeWhile isWordChar ++ rest) =
      token (if Token.keywords.contains (String.ofList (c :: cs.takeWhile isWordChar)) then .keyword
        else .ident) (cs.takeWhile isWordChar) := by
    unfold word
    rw [takeWhile_append_stop hs, dropWhile_append_stop hs]
    split
    case h_1 => rfl
    case h_2 => exact absurd (hr '!' rfl) (by decide)
    case h_3 => rfl
  unfold word at h
  split at h
  case h_1 =>
    cases h
    exact hw
  case h_3 =>
    cases h
    exact hw
  case h_2 =>
    cases h
    have hm : ∀ d ∈ ('!' :: rest).head?, isWordChar d = false := by simp [isWordChar]
    unfold word
    rw [List.append_assoc, List.singleton_append, takeWhile_append_stop hm,
      dropWhile_append_stop hm]
    split
    case h_1 left he =>
      obtain ⟨_, he⟩ := List.cons.inj he
      exact absurd (hr '=' (he ▸ rfl)) (by decide)
    case h_2 => rfl
    case h_3 hn => exact absurd rfl (hn rest)

theorem operators_space : ∀ op ∈ Token.operators, ' ' ∉ op.toList := by
  decide

-- A longer operator would have a space in it.
theorem operator?_append {op : String} (h : operator? cs = some op) (hr : Parted rest) :
    operator? (op.toList ++ rest) = some op := by
  have ⟨hp, longer, shorter, hs, hl⟩ := List.find?_eq_some_iff_append.mp h
  have hp : op.toList <+: cs := List.isPrefixOf_iff_prefix.mp hp
  refine List.find?_eq_some_iff_append.mpr ⟨by simp, longer, shorter, hs, fun o ho => ?_⟩
  have hm : o ∈ Token.operators := hs ▸ List.mem_append_left _ ho
  rw [Bool.not_eq_true', Bool.eq_false_iff]
  intro hn
  have hn : o.toList <+: op.toList ++ rest := List.isPrefixOf_iff_prefix.mp hn
  obtain hlen | hlen := Nat.lt_or_ge op.toList.length o.toList.length
  case inl =>
    have ho : op.toList <+: o.toList :=
      List.prefix_of_prefix_length_le (List.prefix_append _ _) hn hlen.le
    have ⟨more, ho⟩ := ho
    rw [← ho, List.prefix_append_right_inj] at hn
    cases more
    case nil => simp [← ho] at hlen
    case cons d more =>
      have ⟨left, hl⟩ := hn
      have hd : d = ' ' := hr d (hl ▸ rfl)
      exact operators_space o hm (ho ▸ hd ▸ by simp)
  case inr =>
    have hn : o.toList <+: op.toList :=
      List.prefix_of_prefix_length_le hn (List.prefix_append _ _) hlen
    have hl : o.toList.isPrefixOf cs = false := by simpa using hl o ho
    simp [List.isPrefixOf_iff_prefix.mpr (hn.trans hp)] at hl

-- A word is read again wherever it stands before a space, or at the end.
theorem head_append (h : head c cs = token kind body) (hr : Parted rest) :
    head c (body ++ rest) = token kind body := by
  have hb : body <+: cs := (h ▸ head_prefix : (token kind body).taken <+: cs)
  have hm : ∀ d, d ≠ ' ' → ¬(decide (c = '/') && decide (cs.head? = some d)) = true →
      ¬(decide (c = '/') && decide ((body ++ rest).head? = some d)) = true := by
    simp only [Bool.and_eq_true, decide_eq_true_eq]
    exact fun d hd hn ⟨hc, he⟩ => head?_append_ne hb hr hd (fun he => hn ⟨hc, he⟩) he
  unfold head at h ⊢
  split at h
  case isTrue => cases h
  case isFalse h₁ =>
  rw [if_neg h₁]
  split at h
  case isTrue => cases h
  case isFalse h₂ =>
  rw [Bool.or_eq_true, not_or] at h₂
  rw [if_neg (by rw [Bool.or_eq_true, not_or]; exact ⟨h₂.1, hm '/' (by decide) h₂.2⟩)]
  split at h
  case isTrue h₃ =>
    split at h
    case h_2 => cases h
    case h_1 inner hi =>
      cases h
      simp only [Bool.and_eq_true, decide_eq_true_eq] at h₃
      simp [h₃.1, commentBody?_append hi]
  case isFalse h₃ =>
  rw [if_neg (hm '*' (by decide) h₃)]
  split at h
  case isTrue h₄ =>
    rw [if_pos h₄]
    split at h
    case h_2 => cases h
    case h_1 inner hi =>
      cases h
      rw [stringBody_append hi]
  case isFalse h₄ =>
  rw [if_neg h₄]
  split at h
  case isTrue h₅ =>
    rw [if_pos h₅]
    exact number_append h hr
  case isFalse h₅ =>
  rw [if_neg h₅]
  split at h
  case isTrue h₆ =>
    rw [if_pos h₆]
    split at h
    case h_1 => cases h
    case h_2 hn =>
      cases h
      rw [takeWhile_append_stop (hr.stops (by decide))]
      split
      case h_1 he => exact absurd he hn
      case h_2 => rfl
  case isFalse h₆ =>
  rw [if_neg h₆]
  split at h
  case isTrue h₇ =>
    rw [if_pos h₇]
    exact word_append h hr
  case isFalse h₇ =>
  rw [if_neg h₇]
  split at h
  case h_1 hp =>
    cases h
    simp [hp]
  case h_2 op hp ho =>
    cases h
    have ho : operator? (c :: (op.toList.tail ++ rest)) = some op := by
      rw [← List.cons_append, ← toList_of_operator? ho]
      exact operator?_append ho hr
    simp [hp, ho]
  case h_3 => cases h

end Scan

namespace Token

-- A token by what it says, wherever it stands.
def written (t : Token) : TokenKind × String :=
  (t.kind, t.text)

-- The tokens of a source without its end.
def words (ts : List Token) : List Token :=
  ts.filter (·.kind ≠ .eof)

-- The texts of words with a space between each two of them.
def spaced (ts : List Token) : String :=
  " ".intercalate (ts.map text)

-- A token is what stands at the head of its text before a space, or at the end.
def Reads (t : Token) : Prop :=
  ∃ c body, t.text.toList = c :: body ∧
    ∀ rest, Scan.Parted rest → Scan.head c (body ++ rest) = .token t.kind body

variable {t : Token} {ts : List Token} {cs rest : List Char} {p : Position} {source : String}
  {ws : List (TokenKind × String)}

theorem reads_of_head {c : Char} {kind : TokenKind} {body : List Char} {span : Span}
    (h : Scan.head c cs = .token kind body) : Reads ⟨kind, String.ofList (c :: body), span⟩ :=
  ⟨c, body, String.toList_ofList, fun _ hr => Scan.head_append h hr⟩

theorem reads_of_scan (h : scan p cs = .ok ts) : ∀ t ∈ words ts, t.Reads := by
  fun_induction scan p cs generalizing ts
  case case1 =>
    obtain rfl := Except.ok.inj h
    simp [words]
  case case2 hi => exact hi h
  case case3 hd text hi =>
    simp only [bind_eq_ok, pure_eq_ok] at h
    obtain ⟨left, hl, ht⟩ := h
    subst ht
    rw [words, List.filter_cons_of_pos (by simpa using (Scan.head_eq_token hd).1)]
    exact List.forall_mem_cons.mpr ⟨reads_of_head hd, hi hl⟩
  case case4 => contradiction

-- What is read of a text that starts with a word: this word, and what is read of the rest.
theorem scan_append (ht : t.Reads) (hr : Scan.Parted rest)
    (h : ∀ q, ∃ ts, scan q rest = .ok ts ∧ ts.map written = ws) :
    ∃ ts, scan p (t.text.toList ++ rest) = .ok ts ∧ ts.map written = t.written :: ws := by
  have ⟨c, body, hc, hd⟩ := ht
  have ⟨ts, hs, hw⟩ := h (p.after (c :: body))
  have ht : String.ofList (c :: body) = t.text := by rw [← hc, String.ofList_toList]
  rw [hc, List.cons_append, scan, hd rest hr]
  simp only [List.drop_left, hs, bind_eq_ok, pure_eq_ok]
  exact ⟨_, ⟨ts, rfl, rfl⟩, by simp [hw, written, ht]⟩

theorem scan_space : scan p (' ' :: cs) = scan (p.after [' ']) cs := by
  have hs : Scan.head ' ' cs = .skip [] := rfl
  rw [scan, hs]
  rfl

theorem scan_spaced (h : ∀ t ∈ ts, t.Reads) (p : Position) :
    ∃ ts', scan p (spaced ts).toList = .ok ts' ∧
      ts'.map written = ts.map written ++ [(.eof, "")] := by
  induction ts generalizing p
  case nil => exact ⟨_, scan.eq_1 p, rfl⟩
  case cons t ts hi =>
    obtain ⟨ht, hts⟩ := List.forall_mem_cons.mp h
    cases ts with
    | nil =>
      have hs : (spaced [t]).toList = t.text.toList ++ [] := by simp [spaced]
      rw [hs]
      exact scan_append ht (by simp [Scan.Parted]) fun q => ⟨_, scan.eq_1 q, rfl⟩
    | cons u ts =>
      have hs : (spaced (t :: u :: ts)).toList =
          t.text.toList ++ ' ' :: (spaced (u :: ts)).toList := by
        simp [spaced, String.toList_intercalate]
      rw [hs]
      refine scan_append ht (by simp [Scan.Parted]) fun q => ?_
      rw [scan_space]
      exact hi hts _

-- Words that are written with single spaces between them are read as the same words.
theorem words_ofSource_spaced (h : ofSource source = .ok ts) :
    ∃ ts', ofSource (spaced (words ts)) = .ok ts' ∧
      ts'.map written = (words ts).map written ++ [(.eof, "")] :=
  scan_spaced (reads_of_scan h) .start

-- Neighbours that look like one word without the space, and texts with blanks of their own.
def closeSource : String :=
  "a!= =b! /* x\n */ 0x1fg+ ++=1.5.2 \"c \\\" //\"//d"

theorem words_closeSource_spaced : ∃ ts ts', ofSource closeSource = .ok ts ∧
    spaced (words ts) = "a != = b! /* x\n */ 0x1f g + ++= 1.5 . 2 \"c \\\" //\"" ∧
    ofSource (spaced (words ts)) = .ok ts' ∧
    ts'.map written = (words ts).map written ++ [(.eof, "")] := by
  have h : (ofSource closeSource).map (fun ts => spaced (words ts)) =
      .ok "a != = b! /* x\n */ 0x1f g + ++= 1.5 . 2 \"c \\\" //\"" := by
    decide +kernel
  have ⟨ts, hs, ht⟩ := map_eq_ok.mp h
  have ⟨ts', hs', hw⟩ := words_ofSource_spaced hs
  exact ⟨ts, ts', hs, ht, hs', hw⟩

end Token

end BlockLang
