/-!
White space, as the standard's property of that name has it, and what is cut off at it.
-/

namespace BlockLang.Text

-- The characters that count as white space, in every place that skips or trims it.
def isBlank (c : Char) : Bool :=
  ('\t' ≤ c && c ≤ '\r') || c == ' ' || c == '\u0085' || c == '\u00a0' || c == '\u1680' ||
    ('\u2000' ≤ c && c ≤ '\u200a') || c == '\u2028' || c == '\u2029' || c == '\u202f' ||
    c == '\u205f' || c == '\u3000'

-- Format characters that take no room and that source text may hold anywhere.
def isInvisible (c : Char) : Bool :=
  c == '\ufeff' || c == '\u200b' || c == '\u200c' || c == '\u200d' || c == '\u2060'

def dropEndWhile (p : Char → Bool) (cs : List Char) : List Char :=
  (cs.reverse.dropWhile p).reverse

def trimEnd (s : String) : String :=
  String.ofList (dropEndWhile isBlank s.toList)

def trim (s : String) : String :=
  String.ofList (dropEndWhile isBlank (s.toList.dropWhile isBlank))

-- The parts of a list between the characters that satisfy `p`, empty ones included.
def splitBy (p : Char → Bool) : List Char → List (List Char)
  | [] => [[]]
  | c :: cs =>
    if p c then [] :: splitBy p cs
    else match splitBy p cs with
      | [] => [[c]]
      | part :: parts => (c :: part) :: parts

def splitOnce (c : Char) : List Char → Option (List Char × List Char)
  | [] => none
  | d :: ds => if d = c then some ([], ds) else (splitOnce c ds).map fun (l, r) => (d :: l, r)

theorem splitOnce_eq_some {c : Char} {cs l r : List Char} (h : splitOnce c cs = some (l, r)) :
    cs = l ++ c :: r ∧ c ∉ l := by
  induction cs generalizing l with
  | nil => simp [splitOnce] at h
  | cons d ds ih =>
    by_cases hd : d = c
    · simp only [splitOnce, hd, if_true, Option.some.injEq, Prod.mk.injEq] at h
      obtain ⟨rfl, rfl⟩ := h
      simp [hd]
    · simp only [splitOnce, hd, if_false, Option.map_eq_some_iff] at h
      obtain ⟨⟨l', r'⟩, hs, heq⟩ := h
      cases heq
      obtain ⟨rfl, hn⟩ := ih hs
      exact ⟨rfl, by simp [hn, Ne.symm hd]⟩

end BlockLang.Text
