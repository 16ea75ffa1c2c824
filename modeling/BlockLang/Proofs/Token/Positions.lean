import Mathlib.Data.List.Infix
import Mathlib.Data.List.TakeWhile
import BlockLang.Token.Lexer
import BlockLang.Proofs.Except
import BlockLang.Proofs.Fault

/-!
The places of tokens. Each of them is that of a character of the source or of its end, and the end
is the last token.
-/

namespace BlockLang

-- Where a run of characters starts.
def Span.position (s : Span) : Position :=
  ⟨s.line, s.column⟩

-- The place of a character of a text, or that of its end: some characters of the text stand before.
def Position.IsIn (p : Position) (text : List Char) : Prop :=
  ∃ before, before <+: text ∧ p = Position.start.after before

namespace Scan

variable {c : Char} {cs body : List Char}

-- The characters after the first one that are taken.
def taken : Scan → List Char
  | skip body | token _ body => body
  | fault _ _ => []

theorem stringBody_prefix : (stringBody cs).1 <+: cs := by
  fun_induction stringBody cs <;> simp_all

theorem commentBody?_prefix (h : commentBody? cs = some body) : body <+: cs := by
  fun_induction commentBody? cs generalizing body
  case case1 => contradiction
  case case2 rest => exact Option.some.inj h ▸ ⟨rest, rfl⟩
  case case3 hi =>
    obtain ⟨body, hb, rfl⟩ := Option.map_eq_some_iff.mp h
    exact List.cons_prefix_cons.mpr ⟨rfl, hi hb⟩

-- What is taken as long as `p` holds, and then some more of what is left.
theorem takeWhile_append_prefix {p : Char → Bool} {more : List Char}
    (h : more <+: cs.dropWhile p) : cs.takeWhile p ++ more <+: cs := by
  have ha := (List.prefix_append_right_inj (cs.takeWhile p)).mpr h
  rwa [List.takeWhile_append_dropWhile] at ha

theorem decimal_prefix : (number.decimal cs).taken <+: cs := by
  have hw : cs.takeWhile isDigitChar <+: cs := List.takeWhile_prefix _
  unfold number.decimal
  split
  case h_1 d rest hr =>
    split
    case isTrue =>
      apply takeWhile_append_prefix
      rw [hr]
      have hf : d :: rest.takeWhile isDigitChar <+: d :: rest :=
        List.cons_prefix_cons.mpr ⟨rfl, List.takeWhile_prefix _⟩
      exact List.cons_prefix_cons.mpr ⟨rfl, hf⟩
    case isFalse => exact hw
  case h_2 => exact hw

theorem number_prefix : (number c cs).taken <+: cs := by
  unfold number
  split
  case h_1 mark rest =>
    split
    case isTrue => exact List.cons_prefix_cons.mpr ⟨rfl, List.takeWhile_prefix _⟩
    case isFalse => exact decimal_prefix
  case h_2 => exact decimal_prefix

theorem word_prefix : (word c cs).taken <+: cs := by
  have hw : cs.takeWhile isWordChar <+: cs := List.takeWhile_prefix _
  unfold word
  split
  case h_1 => exact hw
  case h_2 rest _ hr =>
    apply takeWhile_append_prefix
    exact hr ▸ List.cons_prefix_cons.mpr ⟨rfl, List.nil_prefix⟩
  case h_3 => exact hw

theorem operator?_prefix {op : String} (h : operator? (c :: cs) = some op) :
    op.toList.tail <+: cs := by
  unfold operator? at h
  have hp : op.toList <+: c :: cs := by simpa using List.find?_some h
  cases ho : op.toList
  case nil => exact List.nil_prefix
  case cons => exact (List.cons_prefix_cons.mp (ho ▸ hp)).2

theorem comment_prefix (h : commentBody? cs.tail = some body) (hc : cs.head? = some '*') :
    '*' :: body <+: cs := by
  obtain ⟨rest, rfl⟩ := List.head?_eq_some_iff.mp hc
  exact List.cons_prefix_cons.mpr ⟨rfl, commentBody?_prefix h⟩

-- What is taken stands at the head of the text.
theorem head_prefix : (head c cs).taken <+: cs := by
  have hf {fault : Fault} {length : Nat} : (Scan.fault fault length).taken <+: cs := List.nil_prefix
  unfold head
  split
  case isTrue => exact List.nil_prefix
  split
  case isTrue => exact List.takeWhile_prefix _
  split
  case isTrue hc =>
    split
    case h_1 hb => exact comment_prefix hb (by simp_all)
    case h_2 => exact hf
  split
  case isTrue =>
    split
    case h_1 body hb =>
      have hs : (stringBody cs).1 <+: cs := stringBody_prefix
      rwa [hb] at hs
    case h_2 => exact hf
  split
  case isTrue => exact number_prefix
  split
  case isTrue =>
    split
    case h_1 => exact hf
    case h_2 => exact List.takeWhile_prefix _
  split
  case isTrue => exact word_prefix
  split
  case h_1 => exact List.nil_prefix
  case h_2 ho => exact operator?_prefix ho
  case h_3 => exact hf

theorem number_ne_fault {f : Fault} {length : Nat} : number c cs ≠ fault f length := by
  unfold number number.decimal
  repeat' split
  all_goals rintro ⟨⟩

theorem word_ne_fault {f : Fault} {length : Nat} : word c cs ≠ fault f length := by
  unfold word
  repeat' split
  all_goals rintro ⟨⟩

theorem isInternal_head {f : Fault} {length : Nat} (h : head c cs = fault f length) :
    f.isInternal = false := by
  unfold head at h
  repeat' split at h
  all_goals first
    | exact absurd h number_ne_fault
    | exact absurd h word_ne_fault
    | cases h
  all_goals rfl

end Scan

-- A source has been read up to some place, and some characters are left.
def Reached (source : List Char) (p : Position) (left : List Char) : Prop :=
  ∃ before, before ++ left = source ∧ p = Position.start.after before

namespace Reached

variable {source cs body : List Char} {c : Char} {p : Position}

theorem isIn (h : Reached source p cs) : p.IsIn source := by
  have ⟨before, hs, hp⟩ := h
  exact ⟨before, ⟨cs, hs⟩, hp⟩

theorem start : Reached source .start source :=
  ⟨[], rfl, rfl⟩

-- Once a word is read, its characters are among those before.
theorem next (h : Reached source p (c :: cs)) (hb : body <+: cs) :
    Reached source (p.after (c :: body)) (cs.drop body.length) := by
  have ⟨before, hs, hp⟩ := h
  refine ⟨before ++ c :: body, ?_, by rw [hp, Position.after_append]⟩
  rw [List.append_assoc, List.cons_append, ← List.prefix_append_drop hb, hs]

end Reached

namespace Token

variable {source : String} {cs : List Char} {p : Position}

theorem yields_scan {source : List Char} (h : Reached source p cs) :
    Yields (fun ts => (∀ t ∈ ts, t.span.position.IsIn source) ∧
        ∃ t, ts.getLast? = some t ∧ t.kind = .eof)
      (fun e => e.span.position.IsIn source ∧ e.fault.isInternal = false) (scan p cs) := by
  have hi := h.isIn
  fun_induction scan p cs
  case case1 => exact ⟨List.forall_mem_singleton.mpr hi, _, rfl, rfl⟩
  case case2 p c cs body hd further =>
    have hn := h.next (hd ▸ Scan.head_prefix : (Scan.skip body).taken <+: cs)
    exact further hn hn.isIn
  case case3 p c cs kind body hd text further =>
    have hn := h.next (hd ▸ Scan.head_prefix : (Scan.token kind body).taken <+: cs)
    refine (further hn hn.isIn).bind fun rest ⟨hrest, t, ht, hk⟩ => ?_
    exact ⟨List.forall_mem_cons.mpr ⟨hi, hrest⟩, t, by simp [List.getLast?_cons, ht], hk⟩
  case case4 hd => exact ⟨hi, Scan.isInternal_head hd⟩

theorem yields_ofSource :
    Yields (fun ts => (∀ t ∈ ts, t.span.position.IsIn source.toList) ∧
        ∃ t, ts.getLast? = some t ∧ t.kind = .eof)
      (fun e => e.span.position.IsIn source.toList ∧ e.fault.isInternal = false)
      (ofSource source) :=
  yields_scan .start

end Token

end BlockLang
