import BlockLang.Proofs.Except
import BlockLang.Token.Lexer
import BlockLang.Token.Literal

/-!
Strings. Every text that stays on one line can be written as a string, and the string stands for
this text whatever follows it.
-/

namespace BlockLang

namespace Token

-- A text as it stands between the quotes of a string.
def escape (cs : List Char) : List Char :=
  cs.flatMap fun c => if c = '\\' ∨ c = '"' then ['\\', c] else [c]

def quote (s : String) : String :=
  String.ofList ('"' :: escape s.toList ++ ['"'])

variable {c : Char} {cs rest : List Char} {p : Position} {s : String} {span : Span}

theorem escape_cons_mark (h : c = '\\' ∨ c = '"') : escape (c :: cs) = '\\' :: c :: escape cs := by
  rw [escape, List.flatMap_cons, if_pos h]
  rfl

theorem escape_cons_plain (h : ¬(c = '\\' ∨ c = '"')) : escape (c :: cs) = c :: escape cs := by
  rw [escape, List.flatMap_cons, if_neg h]
  rfl

theorem unescape_escape : unescape (escape cs) = cs := by
  induction cs
  case nil => rfl
  case cons c cs hi =>
    by_cases h : c = '\\' ∨ c = '"'
    case pos => simp [escape_cons_mark h, unescape, h, hi]
    case neg =>
      have hm : c ≠ '\\' := fun hc => h (.inl hc)
      rw [escape_cons_plain h, unescape.eq_3 c _ fun _ _ he => absurd he hm, hi]

-- A quote inside comes after a backslash, which takes it along. The backslashes before the closing
-- quote come in pairs, so it is not taken along.
theorem stringBody_escape (h : '\n' ∉ cs) :
    Scan.stringBody (escape cs ++ '"' :: rest) = (escape cs ++ ['"'], true) := by
  induction cs
  case nil => rfl
  case cons c cs hi =>
    have ⟨hc, hcs⟩ := not_or.mp (List.mem_cons.not.mp h)
    by_cases hm : c = '\\' ∨ c = '"'
    case pos => simp [escape_cons_mark hm, Scan.stringBody, Ne.symm hc, hi hcs]
    case neg =>
      have ⟨hb, hq⟩ := not_or.mp hm
      rw [escape_cons_plain hm, List.cons_append,
        Scan.stringBody.eq_3 c _ fun _ _ he => absurd he hb, if_neg (Ne.symm hc), if_neg hq, hi hcs]
      rfl

theorem head_quote (h : '\n' ∉ cs) :
    Scan.head '"' (escape cs ++ '"' :: rest) = .token .string (escape cs ++ ['"']) := by
  simp [Scan.head, stringBody_escape h, Text.isInvisible, Text.isBlank]

theorem literal_quote : literal ⟨.string, quote s, span⟩ = .ok s := by
  simp [literal, quote, unquote?, unescape_escape]

theorem mem_of_mem_escape (h : c ∈ escape cs) : c = '\\' ∨ c ∈ cs := by
  obtain ⟨d, hd, hc⟩ := List.mem_flatMap.mp h
  have hc : c = '\\' ∨ c = d := by
    split at hc
    case isTrue => simpa using hc
    case isFalse => exact .inr (List.mem_singleton.mp hc)
  exact hc.imp_right fun (he : c = d) => he ▸ hd

theorem toList_quote : (quote s).toList = '"' :: (escape s.toList ++ ['"']) :=
  String.toList_ofList

theorem scan_quote (h : '\n' ∉ s.toList) : scan p ((quote s).toList ++ rest) = (do
    let ts ← scan (p.after (quote s).toList) rest
    return ⟨.string, quote s, p.span (quote s).length⟩ :: ts) := by
  have hs : escape s.toList ++ '"' :: rest = escape s.toList ++ ['"'] ++ rest := by simp
  have hh : Scan.head '"' (escape s.toList ++ ['"'] ++ rest) =
      .token .string (escape s.toList ++ ['"']) := hs ▸ head_quote h
  have hl : (quote s).length = ('"' :: (escape s.toList ++ ['"'])).length := by
    rw [← String.length_toList, toList_quote]
  rw [toList_quote, List.cons_append, scan, hh, hl]
  simp only [List.drop_left]
  rfl

-- Where a text stays on one line, its string is read as one token that stands for the text,
-- whatever follows it. If nothing does, there is nothing that could fail.
theorem ofSource_quote (h : '\n' ∉ s.toList) : ∃ token : Token,
    token.kind = .string ∧ token.text = quote s ∧ token.literal = .ok s ∧
    (∀ t ts, ofSource (quote s ++ t) = .ok ts → ts.head? = some token) ∧
    ofSource (quote s) = .ok [token, ⟨.eof, "", ⟨1, (quote s).length + 1, 1⟩⟩] := by
  refine ⟨⟨.string, quote s, ⟨1, 1, (quote s).length⟩⟩, rfl, rfl, literal_quote, ?_, ?_⟩
  case refine_1 =>
    intro t ts ht
    rw [ofSource, String.toList_append, scan_quote h] at ht
    simp only [bind_eq_ok, pure_eq_ok] at ht
    obtain ⟨rest, -, rfl⟩ := ht
    rfl
  case refine_2 =>
    have hn : '\n' ∉ escape s.toList := fun hm => (mem_of_mem_escape hm).elim (by decide) h
    have hn : '\n' ∉ (quote s).toList := by simp [toList_quote, hn]
    have hs : ofSource (quote s) = scan .start ((quote s).toList ++ []) := by
      rw [List.append_nil, ofSource]
    rw [hs, scan_quote h, scan, Position.after_of_no_newline hn, String.length_toList,
      Nat.add_comm (quote s).length]
    simp only [bind_eq_ok, pure_eq_ok]
    exact ⟨_, rfl, rfl⟩

-- A quote and a backslash at the very end. The text that follows has a string of its own.
def trailingMarks : String :=
  "say \"hi\"\\"

theorem ofSource_quote_trailingMarks : '\n' ∉ trailingMarks.toList ∧
    quote trailingMarks = "\"say \\\"hi\\\"\\\\\"" ∧
    (∃ ts, ofSource (quote trailingMarks ++ "++\"\\\\\"") = .ok ts) ∧
    ∃ token : Token, token.kind = .string ∧ token.text = quote trailingMarks ∧
      token.literal = .ok trailingMarks ∧
      (∀ t ts, ofSource (quote trailingMarks ++ t) = .ok ts → ts.head? = some token) ∧
      ofSource (quote trailingMarks) = .ok [token, ⟨.eof, "", ⟨1, 15, 1⟩⟩] := by
  have h : '\n' ∉ trailingMarks.toList := by decide
  have hs : ((ofSource (quote trailingMarks ++ "++\"\\\\\"")).map List.length) = .ok 4 := by
    decide +kernel
  have ⟨ts, ht, _⟩ := map_eq_ok.mp hs
  exact ⟨h, by decide, ⟨ts, ht⟩, ofSource_quote h⟩

end Token

end BlockLang
