import Mathlib.Tactic.SplitIfs
import BlockLang.Graph.Document

/-!
Lists of texts that are written as texts, and how they are read again.
-/

namespace BlockLang

namespace Document

-- The value of a digit in base sixteen.
def hexDigit? (c : Char) : Option Nat :=
  "0123456789abcdef".toList.idxOf? c

-- Reads a quoted text up to the closing quote.
def readQuoted : List Char → Option (List Char × List Char)
  | '"' :: cs => some ([], cs)
  | '\\' :: 'u' :: '0' :: '0' :: h :: l :: cs => do
    let c := Char.ofNat (16 * (← hexDigit? h) + (← hexDigit? l))
    let (s, rest) ← readQuoted cs
    return (c :: s, rest)
  | '\\' :: c :: cs => do
    let c ← [('"', '"'), ('\\', '\\'), ('n', '\n'), ('r', '\r'), ('t', '\t'), ('b', '\x08'),
      ('f', '\x0c')].lookup c
    let (s, rest) ← readQuoted cs
    return (c :: s, rest)
  | c :: cs => do
    let (s, rest) ← readQuoted cs
    return (c :: s, rest)
  | [] => none

-- Reads at most so many quoted texts with commas between them, up to the closing bracket.
def readItems : Nat → List Char → Option (List String)
  | n + 1, '"' :: cs =>
    match readQuoted cs with
    | some (s, [']']) => some [String.ofList s]
    | some (s, ',' :: rest) => (readItems n rest).map (String.ofList s :: ·)
    | _ => none
  | _, _ => none

-- Reads a list of texts.
def readTexts (s : String) : Option (List String) :=
  match s.toList with
  | ['[', ']'] => some []
  | '[' :: cs => readItems cs.length cs
  | _ => none

-- Controls are written with two digits in base sixteen.
theorem hexDigit?_digitChar : ∀ n < 0x20, hexDigit? (Nat.digitChar (n / 16)) = some (n / 16) ∧
    hexDigit? (Nat.digitChar (n % 16)) = some (n % 16) := by
  decide

theorem readQuoted_control {c : Char} {cs s rest : List Char} (hc : c.toNat < 0x20)
    (h : readQuoted cs = some (s, rest)) :
    readQuoted ('\\' :: 'u' :: '0' :: '0' :: Nat.digitChar (c.toNat / 16) ::
      Nat.digitChar (c.toNat % 16) :: cs) = some (c :: s, rest) := by
  have ⟨hh, hl⟩ := hexDigit?_digitChar _ hc
  simp [readQuoted, h, hh, hl, Nat.div_add_mod]

theorem readQuoted_escape {c : Char} {cs s rest : List Char} (h : readQuoted cs = some (s, rest)) :
    readQuoted (escape c ++ cs) = some (c :: s, rest) := by
  unfold escape
  split_ifs
  all_goals first
    | exact readQuoted_control ‹c.toNat < 0x20› h
    | simp [readQuoted, List.lookup_cons, *]

theorem readQuoted_flatMap {s rest : List Char} :
    readQuoted (s.flatMap escape ++ '"' :: rest) = some (s, rest) := by
  induction s
  case nil => rfl
  case cons c s hi => rw [List.flatMap_cons, List.append_assoc, readQuoted_escape hi]

-- The characters of the items of a list and its closing bracket.
def itemChars (ts : List String) : List Char :=
  (",".intercalate (writeItems (ts.map text))).toList ++ [']']

theorem itemChars_singleton {t : String} :
    itemChars [t] = '"' :: (t.toList.flatMap escape ++ '"' :: [']']) := by
  simp [itemChars, writeItems, write, quote]

theorem itemChars_cons_cons {t t' : String} {ts : List String} :
    itemChars (t :: t' :: ts) =
      '"' :: (t.toList.flatMap escape ++ '"' :: ',' :: itemChars (t' :: ts)) := by
  simp [itemChars, writeItems, write, quote, String.intercalate_cons_cons]

theorem length_lt_itemChars {ts : List String} : ts.length < (itemChars ts).length := by
  cases ts
  case nil => simp [itemChars, writeItems]
  case cons t ts =>
    induction ts generalizing t
    case nil => simp [itemChars_singleton]
    case cons t' ts hi =>
      have hi := hi t'
      simp only [itemChars_cons_cons, List.length_cons, List.length_append] at hi ⊢
      omega

theorem readItems_itemChars {t : String} {ts : List String} {n : Nat} (h : ts.length < n) :
    readItems n (itemChars (t :: ts)) = some (t :: ts) := by
  induction ts generalizing t n <;> obtain _ | n := n
  case nil.zero | cons.zero => contradiction
  case nil.succ => simp [itemChars_singleton, readItems, readQuoted_flatMap]
  case cons.succ t' ts hi =>
    have h : ts.length < n := by simpa using h
    simp [itemChars_cons_cons, readItems, readQuoted_flatMap, hi h]

end Document

-- A list of texts that is written as a text can be read again.
theorem readTexts_listText {ts : List String} : Document.readTexts (listText ts) = some ts := by
  have hl : (listText ts).toList = '[' :: Document.itemChars ts := by
    simp [listText, Document.write, Document.itemChars]
  unfold Document.readTexts
  rw [hl]
  cases ts
  case nil => rfl
  case cons t ts =>
    have hn : (t :: ts).length < (Document.itemChars (t :: ts)).length :=
      Document.length_lt_itemChars
    split
    case h_1 h => simp [(List.cons.inj h).2] at hn
    case h_2 h =>
      obtain ⟨_, rfl⟩ := List.cons.inj h
      exact Document.readItems_itemChars (by rw [List.length_cons] at hn; omega)
    case h_3 h => exact absurd rfl (h _)

end BlockLang
