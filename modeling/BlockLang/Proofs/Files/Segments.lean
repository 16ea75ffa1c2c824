import BlockLang.Proofs.Files.Place
import BlockLang.Proofs.Files.Regex

/-!
File patterns segment by segment. Where two stars are only written as a whole segment, a pattern
matches a path if its segments match the segments of the path one after another.
-/

namespace BlockLang

namespace Glob

def segments (cs : List Char) : List (List Char) :=
  Text.splitBy (· = '/') cs

-- A segment of a pattern stands for a segment of a path. A star stands for any run of characters, a
-- question mark for one of them, and everything else for itself.
inductive Fits : List Char → List Char → Prop
  | nil : Fits [] []
  | run {s skipped t : List Char} (rest : Fits s t) : Fits ('*' :: s) (skipped ++ t)
  | one {c : Char} {s t : List Char} (rest : Fits s t) : Fits ('?' :: s) (c :: t)
  | char {c : Char} {s t : List Char} (run : c ≠ '*') (one : c ≠ '?') (rest : Fits s t) :
    Fits (c :: s) (c :: t)

-- The segments of a pattern stand for the segments of a path. Two stars stand for any number of
-- segments, and for at least one if they are the last segment.
inductive FitAll : List (List Char) → List (List Char) → Prop
  | nil : FitAll [] []
  | one {s t : List Char} {ss ts : List (List Char)} (single : s ≠ ['*', '*']) (fits : Fits s t)
      (rest : FitAll ss ts) : FitAll (s :: ss) (t :: ts)
  | directories {ss skipped ts : List (List Char)} (further : ss ≠ []) (rest : FitAll ss ts) :
    FitAll (['*', '*'] :: ss) (skipped ++ ts)
  | deep {ts : List (List Char)} (filled : ts ≠ []) : FitAll [['*', '*']] ts

-- Two stars are a segment of their own wherever they are written.
def StarsApart (cs : List Char) : Prop :=
  ∀ s ∈ segments cs, ['*', '*'] <:+: s → s = ['*', '*']

variable {c : Char} {cs ds s t : List Char} {ss ts us skipped : List (List Char)} {ps : List Piece}

theorem fits_run : Fits ('*' :: s) ds ↔ ∃ skipped t, ds = skipped ++ t ∧ Fits s t := by
  constructor
  case mp =>
    intro h
    cases h
    case run skipped t rest => exact ⟨skipped, t, rfl, rest⟩
    case char h _ _ => contradiction
  case mpr =>
    rintro ⟨skipped, t, rfl, h⟩
    exact .run h

theorem fits_one : Fits ('?' :: s) ds ↔ ∃ t c, ds = c :: t ∧ Fits s t := by
  constructor
  case mp =>
    intro h
    cases h
    case one c t rest => exact ⟨t, c, rfl, rest⟩
    case char h _ => contradiction
  case mpr =>
    rintro ⟨t, c, rfl, h⟩
    exact .one h

theorem fits_char (hr : c ≠ '*') (ho : c ≠ '?') :
    Fits (c :: s) ds ↔ ∃ t, ds = c :: t ∧ Fits s t := by
  constructor
  case mp =>
    intro h
    cases h
    case run => contradiction
    case one => contradiction
    case char t _ _ rest => exact ⟨t, rfl, rest⟩
  case mpr =>
    rintro ⟨t, rfl, h⟩
    exact .char hr ho h

theorem fitAll_one (hs : s ≠ ['*', '*']) :
    FitAll (s :: ss) us ↔ ∃ t ts, us = t :: ts ∧ Fits s t ∧ FitAll ss ts := by
  constructor
  case mp =>
    intro h
    cases h
    case one t ts _ hf rest => exact ⟨t, ts, rfl, hf, rest⟩
    case directories => contradiction
    case deep => contradiction
  case mpr =>
    rintro ⟨t, ts, rfl, hf, rest⟩
    exact .one hs hf rest

theorem fitAll_directories (hs : ss ≠ []) :
    FitAll (['*', '*'] :: ss) us ↔ ∃ skipped ts, us = skipped ++ ts ∧ FitAll ss ts := by
  constructor
  case mp =>
    intro h
    cases h
    case one => contradiction
    case directories skipped ts _ rest => exact ⟨skipped, ts, rfl, rest⟩
    case deep => contradiction
  case mpr =>
    rintro ⟨skipped, ts, rfl, rest⟩
    exact .directories hs rest

theorem fitAll_deep : FitAll [['*', '*']] ts ↔ ts ≠ [] := by
  constructor
  case mp =>
    intro h
    cases h
    case one => contradiction
    case directories => contradiction
    case deep h => exact h
  case mpr => exact .deep

theorem FitAll.ne_nil (h : FitAll ss ts) (hs : ss ≠ []) : ts ≠ [] := by
  induction h
  case nil => contradiction
  case one => exact List.cons_ne_nil _ _
  case directories hf _ hi => exact List.append_ne_nil_of_right_ne_nil _ (hi hf)
  case deep h => exact h

theorem segments_ne_nil : segments cs ≠ [] :=
  Text.splitBy_ne_nil

theorem segments_of_unsplit (h : '/' ∉ cs) : segments cs = [cs] :=
  Text.splitBy_of_forall fun _ hc => decide_eq_false fun he => h (he ▸ hc)

theorem segments_append : segments (cs ++ '/' :: ds) = segments cs ++ segments ds :=
  Text.splitBy_append (by decide)

-- A text is one segment, or a segment and a shorter text behind a slash.
theorem segments_induction {motive : List Char → Prop} (last : ∀ s, '/' ∉ s → motive s)
    (more : ∀ s cs, '/' ∉ s → motive cs → motive (s ++ '/' :: cs)) (cs : List Char) :
    motive cs := by
  by_cases h : '/' ∈ cs
  case neg => exact last cs h
  case pos =>
    have ⟨s, ds, hc, hs⟩ := List.eq_append_cons_of_mem h
    have hl : ds.length < cs.length := by
      rw [hc, List.length_append, List.length_cons]
      omega
    exact hc ▸ more s ds hs (segments_induction last more ds)
termination_by cs.length

theorem segments_eq_singleton : segments ds = [t] ↔ ds = t ∧ '/' ∉ t := by
  constructor
  case mp =>
    intro h
    by_cases hd : '/' ∈ ds
    case pos =>
      obtain ⟨s, r, rfl, hs⟩ := List.eq_append_cons_of_mem hd
      rw [segments_append, segments_of_unsplit hs] at h
      exact absurd (List.cons.inj h).2 segments_ne_nil
    case neg =>
      rw [segments_of_unsplit hd] at h
      obtain rfl := (List.cons.inj h).1
      exact ⟨rfl, hd⟩
  case mpr =>
    rintro ⟨rfl, h⟩
    exact segments_of_unsplit h

theorem segments_eq_append (hs : skipped ≠ []) (hu : us ≠ []) : segments ds = skipped ++ us ↔
    ∃ t r, ds = t ++ '/' :: r ∧ segments t = skipped ∧ segments r = us := by
  constructor
  case mp =>
    intro h
    induction ds using segments_induction generalizing skipped
    case last ds hd =>
      rw [segments_of_unsplit hd] at h
      obtain ⟨rfl, -⟩ | ⟨-, rfl⟩ := List.append_eq_singleton_iff.mp h.symm <;> contradiction
    case more s ds hd hi =>
      rw [segments_append, segments_of_unsplit hd] at h
      obtain ⟨t, skipped, rfl⟩ := List.exists_cons_of_ne_nil hs
      obtain ⟨rfl, ht⟩ := List.cons.inj h
      by_cases he : skipped = []
      case pos => exact ⟨s, ds, rfl, he ▸ segments_of_unsplit hd, by simpa [he] using ht⟩
      case neg =>
        obtain ⟨t, r, rfl, rfl, hr⟩ := hi he ht
        refine ⟨s ++ '/' :: t, r, by simp, ?_, hr⟩
        rw [segments_append, segments_of_unsplit hd, List.singleton_append]
  case mpr =>
    rintro ⟨t, r, rfl, rfl, rfl⟩
    exact segments_append

-- What one character of a segment stands for.
def piece (c : Char) : Piece :=
  if c = '*' then .run else if c = '?' then .one else .char c

theorem pieces_run (h : cs.head? ≠ some '*') : pieces ('*' :: cs) = .run :: pieces cs := by
  rw [pieces.eq_4]
  all_goals grind

theorem pieces_char (hr : c ≠ '*') (ho : c ≠ '?') : pieces (c :: cs) = .char c :: pieces cs := by
  rw [pieces.eq_6]
  all_goals grind

-- A segment without two stars stands for its characters one by one.
theorem pieces_append (hs : ¬['*', '*'] <:+: s) (h : cs.head? ≠ some '*') :
    pieces (s ++ cs) = s.map piece ++ pieces cs := by
  induction s
  case nil => rfl
  case cons c s hi =>
    have hi := hi fun hi => hs (hi.trans (List.suffix_cons c s).isInfix)
    rw [List.cons_append, List.map_cons, List.cons_append, ← hi]
    by_cases hr : c = '*'
    case pos =>
      subst hr
      have hd : (s ++ cs).head? ≠ some '*' := by
        cases s with
        | nil => exact h
        | cons d s =>
          intro hd
          obtain rfl := Option.some.inj hd
          exact hs (List.prefix_append ['*', '*'] s).isInfix
      exact pieces_run hd
    case neg =>
      by_cases ho : c = '?'
      case pos =>
        subst ho
        rfl
      case neg => simp [piece, hr, ho, pieces_char]

theorem matchPieces_segment (hs : '/' ∉ s) : matchPieces (s.map piece ++ ps) ds ↔
    ∃ t rest, ds = t ++ rest ∧ '/' ∉ t ∧ Fits s t ∧ matchPieces ps rest := by
  induction s generalizing ds
  case nil =>
    constructor
    case mp => exact fun h => ⟨[], ds, rfl, List.not_mem_nil, .nil, h⟩
    case mpr =>
      rintro ⟨t, rest, rfl, _, hf, h⟩
      cases hf
      exact h
  case cons c s hi =>
    have ⟨_, hl⟩ := not_or.mp (List.mem_cons.not.mp hs)
    rw [List.map_cons, List.cons_append]
    by_cases hr : c = '*'
    case pos =>
      subst hr
      have hp : piece '*' = .run := rfl
      simp only [hp, matchPieces_run, hi hl, fits_run]
      constructor
      case mp =>
        rintro ⟨skipped, _, rfl, hk, t, rest, rfl, ht, hf, h⟩
        exact ⟨skipped ++ t, rest, by simp, by simp [hk, ht], ⟨skipped, t, rfl, hf⟩, h⟩
      case mpr =>
        rintro ⟨_, rest, rfl, hk, ⟨skipped, t, rfl, hf⟩, h⟩
        have ⟨hk, ht⟩ := not_or.mp (List.mem_append.not.mp hk)
        exact ⟨skipped, t ++ rest, by simp, hk, t, rest, rfl, ht, hf, h⟩
    case neg =>
      by_cases ho : c = '?'
      case pos =>
        subst ho
        have hp : piece '?' = .one := rfl
        simp only [hp, matchPieces_one, hi hl, fits_one]
        grind
      case neg =>
        have hp : piece c = .char c := by simp [piece, hr, ho]
        simp only [hp, matchPieces_char, hi hl, fits_char hr ho]
        grind

theorem StarsApart.tail (h : StarsApart (s ++ '/' :: cs)) : StarsApart cs :=
  fun t ht => h t (segments_append ▸ List.mem_append_right _ ht)

theorem StarsApart.head (h : StarsApart (s ++ '/' :: cs)) (hs : '/' ∉ s) (hn : s ≠ ['*', '*']) :
    ¬['*', '*'] <:+: s := by
  have hm : s ∈ segments (s ++ '/' :: cs) := by
    simp [segments_append, segments_of_unsplit hs]
  exact fun hi => hn (h s hm hi)

theorem fitAll_nil : FitAll [] us ↔ us = [] := by
  constructor
  case mp =>
    intro h
    cases h
    rfl
  case mpr =>
    rintro rfl
    exact .nil

-- The last segment of a pattern.
theorem matchPieces_last (ha : StarsApart s) (hs : '/' ∉ s) (hn : '\n' ∉ ds) :
    matchPieces (pieces s) ds ↔ FitAll [s] (segments ds) := by
  by_cases h : s = ['*', '*']
  case pos =>
    subst h
    have hp : pieces ['*', '*'] = [.deep] := rfl
    rw [hp, matchPieces_deep, fitAll_deep, iff_true_right segments_ne_nil]
    exact ⟨ds, [], by simp, hn, rfl⟩
  case neg =>
    have hi : ¬['*', '*'] <:+: s := fun hi => h (ha s (by simp [segments_of_unsplit hs]) hi)
    have hp : pieces (s ++ []) = s.map piece ++ pieces [] := pieces_append hi nofun
    rw [List.append_nil] at hp
    rw [hp, matchPieces_segment hs, fitAll_one h]
    simp only [fitAll_nil, pieces, matchPieces, List.isEmpty_iff]
    constructor
    case mp =>
      rintro ⟨t, _, rfl, ht, hf, rfl⟩
      exact ⟨t, [], by simpa using segments_of_unsplit ht, hf, rfl⟩
    case mpr =>
      rintro ⟨t, _, he, hf, rfl⟩
      obtain ⟨rfl, ht⟩ := segments_eq_singleton.mp he
      exact ⟨ds, [], by simp, ht, hf, rfl⟩

-- A segment with others behind it. What follows its slash matches if its segments do.
theorem matchPieces_further (hs : '/' ∉ s) (hi : ¬['*', '*'] <:+: s) (hr : ss ≠ [])
    (h : ∀ r, '\n' ∉ r → (matchPieces ps r ↔ FitAll ss (segments r))) (hn : '\n' ∉ ds) :
    matchPieces (s.map piece ++ .char '/' :: ps) ds ↔ FitAll (s :: ss) (segments ds) := by
  have hd : s ≠ ['*', '*'] := fun he => hi (he ▸ List.infix_rfl)
  simp only [matchPieces_segment hs, matchPieces_char, fitAll_one hd]
  constructor
  case mp =>
    rintro ⟨t, _, rfl, ht, hf, r, rfl, hm⟩
    have hn : '\n' ∉ r := by simp_all
    exact ⟨t, segments r, by simp [segments_append, segments_of_unsplit ht], hf, (h r hn).mp hm⟩
  case mpr =>
    rintro ⟨t, ts, he, hf, hm⟩
    have he : segments ds = [t] ++ ts := he
    obtain ⟨t', r, rfl, ht, rfl⟩ := (segments_eq_append (by simp) (hm.ne_nil hr)).mp he
    obtain ⟨rfl, ht⟩ := segments_eq_singleton.mp ht
    have hn : '\n' ∉ r := by simp_all
    exact ⟨t', '/' :: r, rfl, ht, hf, r, rfl, (h r hn).mpr hm⟩

theorem matchPieces_directories_further (hr : ss ≠ [])
    (h : ∀ r, '\n' ∉ r → (matchPieces ps r ↔ FitAll ss (segments r))) (hn : '\n' ∉ ds) :
    matchPieces (.directories :: ps) ds ↔ FitAll (['*', '*'] :: ss) (segments ds) := by
  rw [matchPieces_directories, fitAll_directories hr]
  constructor
  case mp =>
    rintro (hm | ⟨t, r, rfl, _, hm⟩)
    · exact ⟨[], segments ds, rfl, (h ds hn).mp hm⟩
    · have hn : '\n' ∉ r := by simp_all
      exact ⟨segments t, segments r, segments_append, (h r hn).mp hm⟩
  case mpr =>
    rintro ⟨skipped, ts, he, hm⟩
    by_cases hk : skipped = []
    case pos =>
      subst hk
      exact .inl ((h ds hn).mpr (he ▸ hm))
    case neg =>
      obtain ⟨t, r, rfl, rfl, rfl⟩ := (segments_eq_append hk (hm.ne_nil hr)).mp he
      have ⟨ht, hn⟩ : '\n' ∉ t ∧ '\n' ∉ r := by simp_all
      exact .inr ⟨t, r, rfl, ht, (h r hn).mpr hm⟩

theorem matchPieces_pieces (hs : StarsApart cs) (hn : '\n' ∉ ds) :
    matchPieces (pieces cs) ds ↔ FitAll (segments cs) (segments ds) := by
  induction cs using segments_induction generalizing ds
  case last s hl => rw [segments_of_unsplit hl, matchPieces_last hs hl hn]
  case more s cs hl hi =>
    have hi : ∀ r, '\n' ∉ r → (matchPieces (pieces cs) r ↔ FitAll (segments cs) (segments r)) :=
      fun r hr => hi hs.tail hr
    rw [segments_append, segments_of_unsplit hl, List.singleton_append]
    by_cases h : s = ['*', '*']
    case pos =>
      subst h
      exact matchPieces_directories_further segments_ne_nil hi hn
    case neg =>
      have h := hs.head hl h
      have hp : pieces ('/' :: cs) = .char '/' :: pieces cs := rfl
      rw [pieces_append h (by simp), hp]
      exact matchPieces_further hl h segments_ne_nil hi hn

end Glob

-- A pattern, and the expression that it is written as, match a path if the segments of the pattern
-- stand for the segments of the path.
theorem globMatches_iff {pattern path : String}
    (hs : Glob.StarsApart (Glob.dropHere pattern.toList)) (hn : '\n' ∉ path.toList) :
    (globMatches pattern path ↔
      Glob.FitAll (Glob.segments (Glob.dropHere pattern.toList)) (Glob.segments path.toList)) ∧
    ∃ r, Regex.ofText? (globRegex pattern) = some r ∧ (path.toList ∈ r.language ↔
      Glob.FitAll (Glob.segments (Glob.dropHere pattern.toList)) (Glob.segments path.toList)) := by
  have h := Glob.matchPieces_pieces hs hn
  have ⟨r, ht, hr⟩ := ofText?_globRegex pattern
  exact ⟨h, r, ht, (hr path).trans h⟩

-- Characters that have a meaning of their own in expressions, and two stars in two places.
def markedPattern : String :=
  "././**/lib?/(*+).g?/**"

def markedPath : String :=
  "a/b/lib1/(x+).gs/c/d"

theorem globMatches_markedPattern : Glob.StarsApart (Glob.dropHere markedPattern.toList) ∧
    '\n' ∉ markedPath.toList ∧
    globRegex markedPattern = "^(?:.*/)?lib[^/]/\\([^/]*\\+\\)\\.g[^/]/.*$" ∧
    globMatches markedPattern markedPath = true ∧
    Glob.FitAll (Glob.segments (Glob.dropHere markedPattern.toList))
      (Glob.segments markedPath.toList) ∧
    ∃ r, Regex.ofText? (globRegex markedPattern) = some r ∧ markedPath.toList ∈ r.language := by
  have hs : Glob.StarsApart (Glob.dropHere markedPattern.toList) := by
    unfold Glob.StarsApart
    decide
  have hn : '\n' ∉ markedPath.toList := by decide
  have hm : globMatches markedPattern markedPath = true := by decide +kernel
  have ⟨h, r, ht, hr⟩ := globMatches_iff hs hn
  exact ⟨hs, hn, by decide +kernel, hm, h.mp hm, r, ht, hr.mpr (h.mp hm)⟩

end BlockLang
