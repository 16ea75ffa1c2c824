import Mathlib.Computability.Language
import BlockLang.Files.Glob

/-!
File patterns as regular expressions. A pattern is written as an expression that a text has to match
from its start to its end, and which says the same of every text as the pattern does.
-/

namespace BlockLang

open Computability

inductive Regex where
  | char (c : Char)
  -- Any character but one.
  | except (c : Char)
  | empty
  | append (r s : Regex)
  | optional (r : Regex)
  | many (r : Regex)

namespace Regex

-- The texts that an expression matches.
def language : Regex → Language Char
  | char c => {[c]}
  | except c => {cs | ∃ d, d ≠ c ∧ cs = [d]}
  | empty => 1
  | append r s => r.language * s.language
  | optional r => 1 + r.language
  | many r => r.language∗

def appendAll (rs : List Regex) : Regex :=
  rs.foldr append empty

-- The characters that stand for themselves only after a backslash.
def isMark (c : Char) : Bool :=
  "\\.+*?()|[]\x7b\x7d^$#&-~".toList.contains c

def escape (c : Char) : List Char :=
  if isMark c then ['\\', c] else [c]

-- What an expression is written with.
inductive Sign where
  | one (r : Regex)
  | opens
  | closes
  | optional
  | many

-- The sign that a text starts with, and what follows it. A point does not stand for a line feed.
def sign? : List Char → Option (Sign × List Char)
  | '\\' :: c :: cs => if isMark c then some (.one (.char c), cs) else none
  | '[' :: '^' :: c :: ']' :: cs => some (.one (.except c), cs)
  | '(' :: '?' :: ':' :: cs => some (.opens, cs)
  | ')' :: cs => some (.closes, cs)
  | '?' :: cs => some (.optional, cs)
  | '*' :: cs => some (.many, cs)
  | '.' :: cs => some (.one (.except '\n'), cs)
  | c :: cs => if isMark c then none else some (.one (.char c), cs)
  | [] => none

variable {c : Char} {cs rest : List Char} {s : Sign} {ss : List Sign} {r : Regex} {rs : List Regex}
  {groups : List (List Regex)}

theorem mem_char : cs ∈ (char c).language ↔ cs = [c] :=
  Iff.rfl

theorem mem_except : cs ∈ (except c).language ↔ ∃ d, d ≠ c ∧ cs = [d] :=
  Iff.rfl

theorem mem_empty : cs ∈ empty.language ↔ cs = [] :=
  Iff.rfl

theorem mem_append {s : Regex} : cs ∈ (append r s).language ↔
    ∃ ds es, cs = ds ++ es ∧ ds ∈ r.language ∧ es ∈ s.language := by
  rw [language, Language.mem_mul]
  constructor
  case mp =>
    rintro ⟨ds, hd, es, he, rfl⟩
    exact ⟨ds, es, rfl, hd, he⟩
  case mpr =>
    rintro ⟨ds, es, rfl, hd, he⟩
    exact ⟨ds, hd, es, he, rfl⟩

theorem mem_optional : cs ∈ (optional r).language ↔ cs = [] ∨ cs ∈ r.language := by
  rw [language, Language.mem_add, Language.mem_one]

theorem mem_many_except : cs ∈ (many (except c)).language ↔ c ∉ cs := by
  rw [language, Language.mem_kstar]
  constructor
  case mp =>
    rintro ⟨parts, rfl, hp⟩ hc
    have ⟨part, hm, hc⟩ := List.mem_flatten.mp hc
    have ⟨d, hd, he⟩ := mem_except.mp (hp part hm)
    exact hd (List.mem_singleton.mp (he ▸ hc)).symm
  case mpr =>
    intro hc
    refine ⟨cs.map fun d => [d], (List.flatMap_singleton' cs).symm,
      List.forall_mem_map.mpr fun d hd => ?_⟩
    exact mem_except.mpr ⟨d, fun he => hc (he ▸ hd), rfl⟩

theorem length_of_sign? (h : sign? cs = some (s, rest)) : rest.length < cs.length := by
  unfold sign? at h
  split at h
  all_goals grind

-- The signs up to the mark for the end of the text.
def signs? (cs : List Char) : Option (List Sign) :=
  if cs = ['$'] then some []
  else
    match _h : sign? cs with
    | some (s, rest) => (signs? rest).map (s :: ·)
    | none => none
termination_by cs.length
decreasing_by exact length_of_sign? _h

-- Adds a sign to what has been read. What has been read of the innermost open group comes first,
-- and in each group what has been read last.
def Sign.add : List (List Regex) → Sign → Option (List (List Regex))
  | rs :: groups, one r => some ((r :: rs) :: groups)
  | groups, opens => some ([] :: groups)
  | rs :: qs :: groups, closes => some ((appendAll rs.reverse :: qs) :: groups)
  | (r :: rs) :: groups, optional => some ((r.optional :: rs) :: groups)
  | (r :: rs) :: groups, many => some ((r.many :: rs) :: groups)
  | _, _ => none

def ofSigns? (ss : List Sign) : Option Regex :=
  match ss.foldlM Sign.add [[]] with
  | some [rs] => some (appendAll rs.reverse)
  | _ => none

-- The expression that a text stands for, if it has marks for the start and for the end.
def ofText? (text : String) : Option Regex :=
  match text.toList with
  | '^' :: cs => (signs? cs).bind ofSigns?
  | _ => none

theorem signs?_of_sign? (h : sign? cs = some (s, rest)) :
    signs? cs = (signs? rest).map (s :: ·) := by
  have hc : cs ≠ ['$'] := by
    rintro rfl
    simp [sign?, isMark] at h
  rw [signs?, if_neg hc]
  split
  case h_1 hs =>
    cases h.symm.trans hs
    rfl
  case h_2 hs => cases h.symm.trans hs

theorem sign?_escape : sign? (escape c ++ cs) = some (.one (.char c), cs) := by
  by_cases h : isMark c
  case pos =>
    rw [escape, if_pos h]
    exact if_pos h
  case neg =>
    -- None of the characters that have a meaning of their own is what the text starts with.
    rw [escape, if_neg h, List.singleton_append]
    unfold sign?
    split
    case h_8 =>
      rename_i he
      obtain ⟨rfl, rfl⟩ := List.cons.inj he
      exact if_neg h
    case h_9 => contradiction
    all_goals
      rename_i he
      exact absurd ((List.cons.inj he).1 ▸ (by decide : isMark _ = true)) h

end Regex

namespace Glob

open Regex

-- What a piece of a pattern is written as.
def Piece.text : Piece → List Char
  | char c => escape c
  | one => "[^/]".toList
  | run => "[^/]*".toList
  | deep => ".*".toList
  | directories => "(?:.*/)?".toList

def Piece.signs : Piece → List Sign
  | char c => [.one (.char c)]
  | one => [.one (.except '/')]
  | run => [.one (.except '/'), .many]
  | deep => [.one (.except '\n'), .many]
  | directories =>
    [.opens, .one (.except '\n'), .many, .one (.char '/'), .closes, .optional]

def Piece.regex : Piece → Regex
  | char c => .char c
  | one => .except '/'
  | run => .many (.except '/')
  | deep => .many (.except '\n')
  | directories => .optional (.appendAll [.many (.except '\n'), .char '/'])

variable {p : Piece} {ps : List Piece} {c : Char} {cs rest : List Char} {rs : List Regex}

theorem signs?_text : signs? (p.text ++ cs) = (signs? cs).map (p.signs ++ ·) := by
  cases p
  case char c => exact signs?_of_sign? sign?_escape
  case one => exact signs?_of_sign? rfl
  case run =>
    rw [signs?_of_sign? (rfl : sign? (Piece.run.text ++ cs) = _), signs?_of_sign? rfl,
      Option.map_map]
    rfl
  case deep =>
    rw [signs?_of_sign? (rfl : sign? (Piece.deep.text ++ cs) = _), signs?_of_sign? rfl,
      Option.map_map]
    rfl
  case directories =>
    rw [signs?_of_sign? (rfl : sign? (Piece.directories.text ++ cs) = _), signs?_of_sign? rfl,
      signs?_of_sign? rfl, signs?_of_sign? rfl, signs?_of_sign? rfl, signs?_of_sign? rfl,
      Option.map_map, Option.map_map, Option.map_map, Option.map_map, Option.map_map]
    rfl

theorem signs?_texts :
    signs? (ps.flatMap Piece.text ++ ['$']) = some (ps.flatMap Piece.signs) := by
  induction ps
  case nil => simp [signs?]
  case cons p ps hi => simp [List.append_assoc, signs?_text, hi]

theorem foldlM_signs : (ps.flatMap Piece.signs).foldlM Sign.add [rs] =
    some [(ps.map Piece.regex).reverse ++ rs] := by
  induction ps generalizing rs
  case nil => rfl
  case cons p ps hi =>
    have hp : p.signs.foldlM Sign.add [rs] = some [p.regex :: rs] := by cases p <;> rfl
    simp [List.foldlM_append, hp, hi]

theorem ofSigns?_signs :
    ofSigns? (ps.flatMap Piece.signs) = some (appendAll (ps.map Piece.regex)) := by
  simp [ofSigns?, foldlM_signs]

-- The splits of a text in front of a character: the one before the text, and those of the text
-- behind the character unless the first part must not have it.
theorem exists_append_cons {d : Char} : (∃ t, d :: cs = t ++ rest ∧ c ∉ t) ↔
    rest = d :: cs ∨ d ≠ c ∧ ∃ t, cs = t ++ rest ∧ c ∉ t := by
  constructor
  case mp =>
    rintro ⟨t, he, ht⟩
    cases t
    case nil => exact .inl he.symm
    case cons e t =>
      obtain ⟨rfl, rfl⟩ := List.cons.inj he
      have ⟨hc, ht⟩ := not_or.mp (List.mem_cons.not.mp ht)
      exact .inr ⟨Ne.symm hc, t, rfl, ht⟩
  case mpr =>
    rintro (rfl | ⟨hd, t, rfl, ht⟩)
    · exact ⟨[], rfl, List.not_mem_nil⟩
    · exact ⟨d :: t, rfl, by simp [ht, Ne.symm hd]⟩

section Splits

attribute [local simp] matchPieces restsWhile restsAfterSlash

theorem mem_restsWhile : rest ∈ restsWhile (· ≠ c) cs ↔ ∃ t, cs = t ++ rest ∧ c ∉ t := by
  induction cs
  case nil => simp
  case cons d cs hi =>
    rw [exists_append_cons, restsWhile, ← hi]
    simp

theorem mem_restsAfterSlash :
    rest ∈ restsAfterSlash cs ↔ ∃ t, cs = t ++ '/' :: rest ∧ '\n' ∉ t := by
  induction cs
  case nil => simp
  case cons d cs hi =>
    rw [exists_append_cons, restsAfterSlash, ← hi]
    simp [eq_comm]

theorem matchPieces_char :
    matchPieces (.char c :: ps) cs ↔ ∃ rest, cs = c :: rest ∧ matchPieces ps rest := by
  cases cs <;> simp

theorem matchPieces_one :
    matchPieces (.one :: ps) cs ↔ ∃ rest c, cs = c :: rest ∧ c ≠ '/' ∧ matchPieces ps rest := by
  cases cs <;> simp

theorem matchPieces_run : matchPieces (.run :: ps) cs ↔
    ∃ t rest, cs = t ++ rest ∧ '/' ∉ t ∧ matchPieces ps rest := by
  simp only [matchPieces, List.any_eq_true, mem_restsWhile]
  grind

theorem matchPieces_deep : matchPieces (.deep :: ps) cs ↔
    ∃ t rest, cs = t ++ rest ∧ '\n' ∉ t ∧ matchPieces ps rest := by
  simp only [matchPieces, List.any_eq_true, mem_restsWhile]
  grind

theorem matchPieces_directories : matchPieces (.directories :: ps) cs ↔
    matchPieces ps cs ∨ ∃ t rest, cs = t ++ '/' :: rest ∧ '\n' ∉ t ∧ matchPieces ps rest := by
  simp only [matchPieces, Bool.or_eq_true, List.any_eq_true, mem_restsAfterSlash]
  grind

end Splits

theorem mem_directories : cs ∈ Piece.directories.regex.language ↔
    cs = [] ∨ ∃ t, cs = t ++ ['/'] ∧ '\n' ∉ t := by
  simp only [Piece.regex, appendAll, List.foldr_cons, List.foldr_nil, mem_optional, mem_append,
    mem_many_except, mem_char, mem_empty]
  grind

theorem mem_appendAll :
    cs ∈ (appendAll (ps.map Piece.regex)).language ↔ matchPieces ps cs := by
  induction ps generalizing cs
  case nil => simp [appendAll, mem_empty, matchPieces]
  case cons p ps hi =>
    have hs : appendAll ((p :: ps).map Piece.regex) =
        .append p.regex (appendAll (ps.map Piece.regex)) := rfl
    simp only [hs, mem_append, hi]
    cases p
    case char c => simp [Piece.regex, mem_char, matchPieces_char]
    case one => simp [Piece.regex, mem_except, matchPieces_one]
    case run => simp [Piece.regex, mem_many_except, matchPieces_run]
    case deep => simp [Piece.regex, mem_many_except, matchPieces_deep]
    case directories =>
      simp only [mem_directories, matchPieces_directories]
      constructor
      case mp =>
        rintro ⟨_, es, rfl, rfl | ⟨t, rfl, ht⟩, hm⟩
        · exact .inl hm
        · exact .inr ⟨t, es, by simp, ht, hm⟩
      case mpr =>
        rintro (hm | ⟨t, es, rfl, ht, hm⟩)
        · exact ⟨[], cs, rfl, .inl rfl, hm⟩
        · exact ⟨t ++ ['/'], es, by simp, .inr ⟨t, rfl, ht⟩, hm⟩

end Glob

-- A pattern as a regular expression is written.
def globRegex (pattern : String) : String :=
  String.ofList ('^' :: (Glob.pieces (Glob.dropHere pattern.toList)).flatMap Glob.Piece.text ++ ['$'])

-- The pattern and its expression say the same of every text.
theorem ofText?_globRegex (pattern : String) : ∃ r, Regex.ofText? (globRegex pattern) = some r ∧
    ∀ text : String, text.toList ∈ r.language ↔ globMatches pattern text := by
  refine ⟨.appendAll ((Glob.pieces (Glob.dropHere pattern.toList)).map Glob.Piece.regex), ?_,
    fun text => Glob.mem_appendAll⟩
  simp [Regex.ofText?, globRegex, Glob.signs?_texts, Glob.ofSigns?_signs]

end BlockLang
