import BlockLang.Proofs.Token.Lexer
import BlockLang.Proofs.Token.Positions

/-!
Tokens cover their source: each of them is what stands at its place, and between them there is
nothing but white space and line comments.
-/

namespace BlockLang

-- The place that some characters lead to. Line feeds separate lines.
def Position.behind (before : List Char) : Position :=
  ⟨before.count '\n' + 1, (before.reverse.takeWhile (· ≠ '\n')).length + 1⟩

theorem Position.after_start (before : List Char) :
    Position.start.after before = .behind before := by
  induction before using List.reverseRecOn
  case nil => rfl
  case append_singleton before c hi =>
    rw [after_append, hi]
    by_cases hc : c = '\n' <;> simp [after, next, behind, hc]

theorem Position.after_behind {before text : List Char} :
    (behind before).after text = behind (before ++ text) := by
  rw [← after_start, ← after_append, after_start]

namespace Scan

variable {c : Char} {cs body : List Char} {kind : TokenKind}

theorem number_cases (c : Char) (cs : List Char) : ∃ kind body, number c cs = token kind body ∧
    (kind = .number ∨ kind = .float) := by
  unfold number number.decimal
  repeat' split
  all_goals simp

theorem word_cases (c : Char) (cs : List Char) : ∃ kind body, word c cs = token kind body ∧
    (kind = .keyword ∨ kind = .ident ∨ kind = .macroVar) := by
  unfold word
  split
  case h_2 => exact ⟨_, _, rfl, by simp⟩
  all_goals exact ⟨_, _, rfl, by split <;> simp⟩

theorem punctuation?_ne_op : Token.punctuation? c ≠ some .op := by
  unfold Token.punctuation?
  split <;> nofun

theorem punctuation?_ne_eof : Token.punctuation? c ≠ some .eof := by
  unfold Token.punctuation?
  split <;> nofun

-- White space is skipped one character at a time, and a comment with the rest of its line.
theorem head_eq_skip (h : head c cs = skip body) :
    ((Text.isBlank c ∨ Text.isInvisible c) ∧ body = []) ∨
      ((c = '#' ∨ (c = '/' ∧ cs.head? = some '/')) ∧ body = cs.takeWhile (· ≠ '\n')) := by
  have ⟨_, _, hn, _⟩ := number_cases c cs
  have ⟨_, _, hw, _⟩ := word_cases c cs
  unfold head at h
  rw [hn, hw] at h
  repeat' split at h
  all_goals grind

theorem head_eq_token (h : head c cs = token kind body) : kind ≠ .eof ∧
    (kind = .op → ∃ op, operator? (c :: cs) = some op ∧ body = op.toList.tail) := by
  have ⟨_, _, hn, hk⟩ := number_cases c cs
  have ⟨_, _, hw, hk'⟩ := word_cases c cs
  unfold head at h
  rw [hn, hw] at h
  repeat' split at h
  all_goals grind [punctuation?_ne_op, punctuation?_ne_eof]

theorem operators_pairwise : Token.operators.Pairwise fun o o' =>
    o'.toList.length ≤ o.toList.length := by
  decide

theorem operators_ne_nil : ∀ op ∈ Token.operators, op.toList ≠ [] := by
  decide

-- An operator starts with the character that it is found at.
theorem toList_of_operator? {op : String} (h : operator? (c :: cs) = some op) :
    op.toList = c :: op.toList.tail := by
  have hp : op.toList <+: c :: cs := by simpa using List.find?_some h
  cases ho : op.toList
  case nil => exact absurd ho (operators_ne_nil op (List.mem_of_find?_eq_some h))
  case cons d ds =>
    rw [ho] at hp
    rw [(List.cons_prefix_cons.mp hp).1, List.tail_cons]

end Scan

namespace Token

-- An operator, and no longer one is what the text starts with.
structure IsLongestOp (op text : List Char) : Prop where
  listed  : String.ofList op ∈ operators
  longest : ∀ o ∈ operators, o.toList <+: text → o.toList.length ≤ op.length

-- How tokens cover what is left of a source, once the characters `before` have been read. The last
-- one is at the end of the source and has no text.
inductive Cover : (before left : List Char) → List Token → Prop
  | nil {before} : Cover before [] [⟨.eof, "", (Position.behind before).span 1⟩]
  | blank {before c left ts} (blank : Text.isBlank c ∨ Text.isInvisible c)
      (rest : Cover (before ++ [c]) left ts) : Cover before (c :: left) ts
  | comment {before text left ts} (mark : ['#'] <+: text ∨ ['/', '/'] <+: text)
      (line : '\n' ∉ text) (ends : ∀ c ∈ left.head?, c = '\n')
      (rest : Cover (before ++ text) left ts) : Cover before (text ++ left) ts
  | word {before text left ts kind} (nonempty : text ≠ []) (inner : kind ≠ .eof)
      (op : kind = .op → IsLongestOp text (text ++ left))
      (rest : Cover (before ++ text) left ts) : Cover before (text ++ left)
        (⟨kind, String.ofList text, (Position.behind before).span (spanLength kind text)⟩ :: ts)

variable {c : Char} {cs body before : List Char} {ts : List Token} {source : String}

-- The operators are tried from the longest one down, so the first one that fits is the longest.
theorem isLongestOp_of_head (h : Scan.head c cs = .token .op body) :
    IsLongestOp (c :: body) (c :: cs) := by
  have ⟨op, ho, hb⟩ := (Scan.head_eq_token h).2 rfl
  have hm : op ∈ operators := List.mem_of_find?_eq_some ho
  have ⟨_, longer, shorter, hs, hl⟩ := List.find?_eq_some_iff_append.mp ho
  have he : op.toList = c :: body := hb ▸ Scan.toList_of_operator? ho
  refine ⟨by rwa [← he, String.ofList_toList], fun o ho hp => ?_⟩
  have ho : o ∈ longer ∨ o ∈ op :: shorter := by rwa [← List.mem_append, ← hs]
  rw [← he]
  cases ho
  case inl ho =>
    have hn : o.toList.isPrefixOf (c :: cs) = false := by simpa using hl o ho
    simp [List.isPrefixOf_iff_prefix.mpr hp] at hn
  case inr ho =>
    have hd : operators.Pairwise _ := Scan.operators_pairwise
    rw [hs] at hd
    have ⟨_, hd, _⟩ := List.pairwise_append.mp hd
    cases List.mem_cons.mp ho
    case inl ho => rw [ho]
    case inr ho => exact (List.pairwise_cons.mp hd).1 o ho

-- A comment goes up to the end of its line.
theorem Cover.lineComment (hc : c = '#' ∨ (c = '/' ∧ cs.head? = some '/'))
    (h : Cover (before ++ c :: cs.takeWhile (· ≠ '\n')) (cs.dropWhile (· ≠ '\n')) ts) :
    Cover before (c :: cs) ts := by
  have hm : ['#'] <+: c :: cs.takeWhile (· ≠ '\n') ∨
      ['/', '/'] <+: c :: cs.takeWhile (· ≠ '\n') := by
    rcases hc with rfl | ⟨rfl, hc⟩
    · exact .inl ⟨_, rfl⟩
    · obtain ⟨rest, rfl⟩ := List.head?_eq_some_iff.mp hc
      exact .inr ⟨rest.takeWhile (· ≠ '\n'), rfl⟩
  have hl : '\n' ∉ c :: cs.takeWhile (· ≠ '\n') := by
    intro hn
    cases List.mem_cons.mp hn
    case inl hn =>
      subst hn
      simp at hc
    case inr hn => simpa using List.mem_takeWhile_imp hn
  have he : ∀ d ∈ (cs.dropWhile (· ≠ '\n')).head?, d = '\n' := by
    intro d hd
    have hn := List.head?_dropWhile_not (· ≠ '\n') cs
    rw [hd] at hn
    simpa using hn
  have h := Cover.comment hm hl he h
  rwa [List.cons_append, List.takeWhile_append_dropWhile] at h

theorem cover_scan {p : Position} (hp : p = .behind before) (h : scan p cs = .ok ts) :
    Cover before cs ts := by
  fun_induction scan p cs generalizing before ts
  case case1 => exact Except.ok.inj h ▸ hp ▸ .nil
  case case2 p c cs body hd hi =>
    have hi := hi (hp ▸ Position.after_behind) h
    rcases Scan.head_eq_skip hd with ⟨hb, rfl⟩ | ⟨hc, rfl⟩
    · exact .blank hb hi
    · refine .lineComment hc ?_
      have hs := List.prefix_append_drop (List.takeWhile_prefix (· ≠ '\n') (l := cs))
      have hd := List.append_cancel_left (hs.symm.trans List.takeWhile_append_dropWhile.symm)
      exact hd ▸ hi
  case case3 p c cs kind body hd text hi =>
    simp only [bind_eq_ok, pure_eq_ok] at h
    obtain ⟨rest, hr, rfl⟩ := h
    have hn : body <+: cs := (hd ▸ Scan.head_prefix : (Scan.token kind body).taken <+: cs)
    have hs : c :: cs = text ++ cs.drop body.length := by
      rw [List.cons_append, ← List.prefix_append_drop hn]
    have ho : kind = .op → IsLongestOp text (text ++ cs.drop body.length) := by
      intro hk
      subst hk
      exact hs ▸ isLongestOp_of_head hd
    rw [hs, hp]
    exact .word (List.cons_ne_nil c body) (Scan.head_eq_token hd).1 ho
      (hi (hp ▸ Position.after_behind) hr)
  case case4 => contradiction

theorem ofSource_covers (h : ofSource source = .ok ts) : Cover [] source.toList ts :=
  cover_scan rfl h

-- Operators that start with shorter ones, both kinds of comments, and a character without width.
def mixedSource : String :=
  "a!=b # c\n\u200b/* d\r\n e */x++=1.5 // f"

theorem ofSource_mixedSource_covers : ∃ ts, ofSource mixedSource = .ok ts ∧
    ts.map (fun t => (t.text, t.span)) = [
      ("a", ⟨1, 1, 1⟩), ("!=", ⟨1, 2, 2⟩), ("b", ⟨1, 4, 1⟩), ("/* d\r\n e */", ⟨2, 2, 4⟩),
      ("x", ⟨3, 6, 1⟩), ("++=", ⟨3, 7, 3⟩), ("1.5", ⟨3, 10, 3⟩), ("", ⟨3, 18, 1⟩)] ∧
    Cover [] mixedSource.toList ts := by
  have h : (ofSource mixedSource).map (fun ts => ts.map fun t => (t.text, t.span)) = .ok [
      ("a", ⟨1, 1, 1⟩), ("!=", ⟨1, 2, 2⟩), ("b", ⟨1, 4, 1⟩), ("/* d\r\n e */", ⟨2, 2, 4⟩),
      ("x", ⟨3, 6, 1⟩), ("++=", ⟨3, 7, 3⟩), ("1.5", ⟨3, 10, 3⟩), ("", ⟨3, 18, 1⟩)] := by
    decide +kernel
  have ⟨ts, hs, ht⟩ := map_eq_ok.mp h
  exact ⟨ts, hs, ht, ofSource_covers hs⟩

end Token

end BlockLang
