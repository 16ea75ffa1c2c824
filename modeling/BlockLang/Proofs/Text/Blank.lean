import Mathlib.Data.List.TakeWhile
import BlockLang.Text.Blank

/-!
Texts in parts, and what is left of texts without the white space around them.
-/

namespace BlockLang

namespace Text

variable {p : Char → Bool} {c : Char} {s t u : String} {ss : List String}
  {cs ds part : List Char}

theorem splitBy_ne_nil : splitBy p cs ≠ [] := by
  cases cs
  case nil => simp [splitBy]
  case cons c cs =>
    unfold splitBy
    split
    · simp
    · split <;> simp

theorem splitBy_append (h : p c) : splitBy p (cs ++ c :: ds) = splitBy p cs ++ splitBy p ds := by
  induction cs
  case nil => simp [splitBy, h]
  case cons d cs hi =>
    by_cases hd : p d
    · simp [splitBy, hd, hi]
    · simp only [List.cons_append, splitBy, hd, hi, Bool.false_eq_true, if_false]
      split
      case h_1 he => exact absurd (List.append_eq_nil_iff.mp he).1 splitBy_ne_nil
      case h_2 he =>
        split
        case h_1 he' => exact absurd he' splitBy_ne_nil
        case h_2 he' =>
          obtain ⟨rfl, rfl⟩ := List.cons.inj (he' ▸ he)
          rfl

theorem splitBy_of_forall (h : ∀ c ∈ cs, p c = false) : splitBy p cs = [cs] := by
  induction cs
  case nil => rfl
  case cons c cs hi =>
    have ⟨hc, hcs⟩ := List.forall_mem_cons.mp h
    simp [splitBy, hc, hi hcs]

theorem of_mem_splitBy (h : part ∈ splitBy p cs) (hc : c ∈ part) : p c = false := by
  induction cs generalizing part
  case nil =>
    obtain rfl := List.mem_singleton.mp h
    contradiction
  case cons d cs hi =>
    unfold splitBy at h
    split at h
    case isTrue =>
      cases List.mem_cons.mp h
      case inl he => exact absurd (he ▸ hc) List.not_mem_nil
      case inr h => exact hi h hc
    case isFalse hd =>
      split at h
      case h_1 he => exact absurd he splitBy_ne_nil
      case h_2 he =>
        cases List.mem_cons.mp h
        case inl hp =>
          cases List.mem_cons.mp (hp ▸ hc)
          case inl hcd => simpa [hcd] using hd
          case inr hc => exact hi (by simp [he]) hc
        case inr h => exact hi (by simp [he, h]) hc

theorem splitOnce_append (h : c ∉ cs) : splitOnce c (cs ++ c :: ds) = some (cs, ds) := by
  induction cs
  case nil => simp [splitOnce]
  case cons d cs hi =>
    obtain ⟨hd, hcs⟩ := not_or.mp (List.mem_cons.not.mp h)
    simp [splitOnce, Ne.symm hd, hi hcs]

theorem splitOnce_eq_none : splitOnce c cs = none ↔ c ∉ cs := by
  induction cs
  case nil => simp [splitOnce]
  case cons d cs hi => by_cases hd : d = c <;> simp [splitOnce, hd, hi, Ne.symm]

theorem mem_intercalate (h : c ∉ s.toList) :
    c ∈ (s.intercalate ss).toList ↔ ∃ t ∈ ss, c ∈ t.toList := by
  induction ss
  case nil => simp
  case cons t ss hi =>
    by_cases he : ss = []
    case pos => simp [he]
    case neg =>
      rw [String.intercalate_cons_of_ne_nil he, String.toList_append, String.toList_append,
        List.mem_append, List.mem_append, hi]
      simp [h]

-- No white space comes first.
def Flush (cs : List Char) : Prop :=
  cs.dropWhile isBlank = cs

theorem flush_append (hn : cs ≠ []) (h : Flush cs) : Flush (cs ++ ds) := by
  obtain ⟨c, cs, rfl⟩ := List.exists_cons_of_ne_nil hn
  cases hc : isBlank c
  case false => simp [Flush, hc]
  case true =>
    have hl : (cs.dropWhile isBlank).length ≤ cs.length := (List.dropWhile_suffix _).length_le
    rw [Flush, List.dropWhile_cons_of_pos hc] at h
    exact absurd (congrArg List.length h) (by simp; omega)

theorem flush_mark (hc : isBlank c = false) (h : Flush cs) : Flush (cs ++ c :: ds) := by
  by_cases hn : cs = []
  case pos => simp [hn, Flush, hc]
  case neg => exact flush_append hn h

theorem dropWhile_blanks (hd : ∀ d ∈ ds, isBlank d) (h : Flush cs) :
    (ds ++ cs).dropWhile isBlank = cs := by
  rw [List.dropWhile_append_of_pos hd, h]

-- No white space is around a text.
structure Trimmed (s : String) : Prop where
  front : Flush s.toList
  back  : Flush s.toList.reverse

theorem trimmed_iff : Trimmed s ↔ trim s = s := by
  have hd : (trim s).toList =
      ((s.toList.dropWhile isBlank).reverse.dropWhile isBlank).reverse := String.toList_ofList
  constructor
  case mp =>
    intro h
    apply String.toList_inj.mp
    rw [hd, h.front, h.back, List.reverse_reverse]
  case mpr =>
    intro h
    rw [h] at hd
    -- Nothing is dropped at either end, as nothing is lost.
    have hf : s.toList.dropWhile isBlank <:+ s.toList := List.dropWhile_suffix _
    have hb : ((s.toList.dropWhile isBlank).reverse.dropWhile isBlank).length ≤
        (s.toList.dropWhile isBlank).reverse.length := (List.dropWhile_suffix _).length_le
    have hl := congrArg List.length hd
    rw [List.length_reverse] at hl hb
    have hf : s.toList.dropWhile isBlank = s.toList :=
      hf.eq_of_length_le (by omega)
    refine ⟨hf, ?_⟩
    rw [hf] at hd
    have hr := congrArg List.reverse hd
    rwa [List.reverse_reverse, eq_comm] at hr

namespace Trimmed

theorem empty : Trimmed "" :=
  ⟨rfl, rfl⟩

theorem mark (hs : Trimmed s) (ht : Trimmed t) (hc : isBlank c = false)
    (hu : u.toList = s.toList ++ c :: t.toList) : Trimmed u where
  front := hu ▸ flush_mark hc hs.front
  back  := by
    rw [hu, List.reverse_append, List.reverse_cons, List.append_assoc]
    exact flush_mark hc ht.back

-- If neither text is empty, then it does not matter what is between them.
theorem append (hs : Trimmed s) (ht : Trimmed t) (hs' : s ≠ "") (ht' : t ≠ "") :
    Trimmed (s ++ u ++ t) where
  front := by
    rw [String.toList_append, String.toList_append, List.append_assoc]
    exact flush_append (by simpa using hs') hs.front
  back  := by
    rw [String.toList_append, List.reverse_append]
    exact flush_append (by simpa using ht') ht.back

theorem intercalate (h : ∀ s ∈ ss, Trimmed s ∧ s ≠ "") : Trimmed (u.intercalate ss) := by
  have hn : Trimmed (u.intercalate ss) ∧ (ss ≠ [] → u.intercalate ss ≠ "") := by
    induction ss
    case nil => exact ⟨empty, nofun⟩
    case cons s ss hi =>
      have ⟨⟨hs, hn⟩, hss⟩ := List.forall_mem_cons.mp h
      by_cases he : ss = []
      case pos => simp [he, hs, hn]
      case neg =>
        have ⟨ht, hn'⟩ := hi hss
        rw [String.intercalate_cons_of_ne_nil he]
        exact ⟨hs.append ht hn (hn' he), by simp [hn]⟩
  exact hn.1

end Trimmed

-- What is around a text is cut off.
theorem trim_padded (hc : ∀ c ∈ cs, isBlank c) (hd : ∀ d ∈ ds, isBlank d) (h : Trimmed s) :
    trim (String.ofList (cs ++ s.toList ++ ds)) = s := by
  have hf : (cs ++ s.toList ++ ds).dropWhile isBlank = (s.toList ++ ds).dropWhile isBlank := by
    rw [List.append_assoc, List.dropWhile_append_of_pos hc]
  apply String.toList_inj.mp
  rw [trim, String.toList_ofList, String.toList_ofList, hf, dropEndWhile]
  by_cases hn : s.toList = []
  case pos => simp [hn, List.dropWhile_eq_nil_iff.mpr hd]
  case neg =>
    have hd : ∀ d ∈ ds.reverse, isBlank d := fun d hm => hd d (List.mem_reverse.mp hm)
    rw [flush_append hn h.front, List.reverse_append, dropWhile_blanks hd h.back,
      List.reverse_reverse]

end Text

end BlockLang
