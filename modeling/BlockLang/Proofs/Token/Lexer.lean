import Mathlib.Data.List.TakeWhile
import BlockLang.Symbols.Basic
import BlockLang.Token.Lexer
import BlockLang.Proofs.Except

/-!
The characters of names, and of the names of local variables, which have a colon in them.
-/

namespace BlockLang

namespace Scan

variable {c : Char} {cs body : List Char}

theorem number_ne_ident : number c cs ≠ token .ident body := by
  unfold number number.decimal
  repeat' split
  all_goals rintro ⟨⟩

theorem punctuation?_ne_ident : Token.punctuation? c ≠ some .ident := by
  unfold Token.punctuation?
  split <;> rintro ⟨⟩

theorem word_eq_ident (h : word c cs = token .ident body) : ∀ d ∈ body, isWordChar d := by
  have hb : ∀ d ∈ cs.takeWhile isWordChar, isWordChar d := fun _ => List.mem_takeWhile_imp
  unfold word at h
  repeat' split at h
  all_goals simp_all

-- Only words are names.
theorem head_eq_ident (h : head c cs = token .ident body) :
    (c.isAlpha || c = '_') ∧ word c cs = token .ident body := by
  unfold head at h
  repeat' split at h
  all_goals first
    | exact absurd h number_ne_ident
    | exact ⟨‹_›, h⟩
    | cases h
  exact absurd ‹_› punctuation?_ne_ident

-- A name consists of letters, digits and underscores.
theorem isWordChar_of_head (h : head c cs = token .ident body) : ∀ d ∈ c :: body, isWordChar d := by
  have ⟨hc, hw⟩ := head_eq_ident h
  refine List.forall_mem_cons.mpr ⟨?_, word_eq_ident hw⟩
  simp only [isWordChar, Char.isAlphanum]
  simp_all
  tauto

end Scan

namespace Token

variable {ts : List Token} {t : Token}

-- A token that is no end is what stands at the head of some part of the text.
theorem head_of_mem_scan {p : Position} {cs : List Char} (h : scan p cs = .ok ts) (ht : t ∈ ts)
    (hk : t.kind ≠ .eof) : ∃ c rest body, Scan.head c rest = .token t.kind body ∧
      t.text = String.ofList (c :: body) := by
  fun_induction scan p cs generalizing ts
  case case1 =>
    obtain rfl := Except.ok.inj h
    simp_all
  case case2 hi => exact hi h ht
  case case3 hd text hi =>
    simp only [bind_eq_ok, pure_eq_ok] at h
    obtain ⟨rest, hr, rfl⟩ := h
    cases List.mem_cons.mp ht
    case inl he =>
      subst he
      exact ⟨_, _, _, hd, rfl⟩
    case inr ht => exact hi hr ht
  case case4 => contradiction

theorem isWordChar_of_scan {p : Position} {cs : List Char} (h : scan p cs = .ok ts) (ht : t ∈ ts)
    (hk : t.kind = .ident) : ∀ c ∈ t.text.toList, Scan.isWordChar c := by
  have ⟨c, rest, body, hd, hx⟩ := head_of_mem_scan h ht (by simp [hk])
  rw [hk] at hd
  simpa [hx] using Scan.isWordChar_of_head hd

end Token

-- There is no colon in a name.
theorem isLocalName_of_isWordChar {name : String} (h : ∀ c ∈ name.toList, Scan.isWordChar c) :
    isLocalName name = false := by
  simp only [isLocalName, List.contains_eq_mem, decide_eq_false_iff_not]
  exact fun hc => absurd (h ':' hc) (by decide)

-- The name of a local variable tells its function.
theorem localName_inj {f f' x x' : String} (hf : isLocalName f' = false)
    (hx : isLocalName x' = false) (h : localName f x = localName f' x') : f = f' := by
  have hf : ':' ∉ f'.toList := by simpa [isLocalName] using hf
  have hx : ':' ∉ x'.toList := by simpa [isLocalName] using hx
  have h : f.toList ++ ':' :: x.toList = f'.toList ++ ':' :: x'.toList := by
    have h := congrArg String.toList h
    simpa [localName, toString] using h
  apply String.toList_inj.mp
  obtain ⟨t, ht, hr⟩ | ⟨t, ht, hr⟩ := List.append_eq_append_iff.mp h
  all_goals cases t
  · simpa using ht.symm
  · obtain ⟨rfl, _⟩ := List.cons.inj hr
    simp [ht] at hf
  · simpa using ht
  · obtain ⟨rfl, he⟩ := List.cons.inj hr
    simp [he] at hx

theorem isLocalName_localName {f x : String} : isLocalName (localName f x) := by
  simp [isLocalName, localName, toString]

end BlockLang
