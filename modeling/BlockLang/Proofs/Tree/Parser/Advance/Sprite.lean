import BlockLang.Proofs.Tree.Parser.Advance.Decl

/-!
A sprite is read in one pass over its tokens, up to the first end of the source or to a token that
is reported.
-/

namespace BlockLang

open Lexemes

namespace Parser

-- The declarations of a tree are read one after another, each from lexemes of its own, until the
-- end of the source comes next.
inductive Declares (stop : Lexeme) : List Lexeme → List Lexeme → List Decl → Prop where
  | stopped {left : List Lexeme} : (current stop.token left).kind = .eof →
      Declares stop [] left (docComment ((left.head?.getD stop).leading))
  | read {l : Lexeme} {passed used left : List Lexeme} {ds : List Decl}
      {x : After (l :: passed ++ (used ++ left)) Decl} :
      (∀ t ∈ l :: passed, t.token.kind ≠ .eof) →
      declaration stop.token (l :: passed ++ (used ++ left)) = .ok x → x.rest = used ++ left →
      Declares stop used left ds →
      Declares stop (l :: passed ++ used) left (docComment l.leading ++ x.value :: ds)

theorem declares_declarations {stop : Lexeme} {s : List Lexeme} (hs : stop.token.kind = .eof) :
    Yields (fun ds => ∃ used left, s = used ++ left ∧ Declares stop used left ds)
      (Stops stop.token s) (declarations stop s) := by
  fun_induction declarations stop s
  case case1 => exact ⟨[], [], rfl, .stopped hs⟩
  case case2 l ls hl => exact ⟨[], l :: ls, rfl, .stopped hl⟩
  case case3 l ls hl hi =>
    refine advances_declaration.withEq.bind fun ⟨d, r, hr⟩ ⟨hd, hreach⟩ => ?_
    have hreach : Reaches (l :: ls) r := hreach
    have hread : Yields (fun ds => ∃ used left, l :: ls = used ++ left ∧
        Declares stop used left (docComment l.leading ++ d :: ds)) (Stops stop.token (l :: ls))
        (declarations stop r) := by
      refine (hi r hr).mono ?_ fun _ ⟨t, ht, he⟩ => ⟨t, hreach.trans ht, he⟩
      rintro ds ⟨used, left, rfl, hu⟩
      have ⟨passed, hp, hne⟩ := hreach.exists_passed
      cases passed
      case nil => exact absurd (congrArg List.length hp) (Nat.ne_of_gt hr)
      case cons l' passed =>
        obtain ⟨rfl, rfl⟩ := List.cons.inj hp
        exact ⟨l :: passed ++ used, left, by simp, .read hne hd rfl hu⟩
    exact hread.bind fun _ h => h

theorem Declares.passed {stop : Lexeme} {used left : List Lexeme} {ds : List Decl}
    (h : Declares stop used left ds) :
    (∀ l ∈ used, l.token.kind ≠ .eof) ∧ (current stop.token left).kind = .eof := by
  induction h
  case stopped hs => exact ⟨List.forall_mem_nil _, hs⟩
  case read hp _ _ _ hi => exact ⟨List.forall_mem_append.mpr ⟨hp, hi.1⟩, hi.2⟩

-- The lexemes that are read are those up to the first end of the source.
theorem Declares.split {stop : Lexeme} {used left : List Lexeme} {ds : List Decl}
    (h : Declares stop used left ds) :
    (used ++ left).takeWhile (·.token.kind ≠ .eof) = used ∧
      (used ++ left).dropWhile (·.token.kind ≠ .eof) = left := by
  have ⟨hu, hl⟩ := h.passed
  have hu : ∀ l ∈ used, decide (l.token.kind ≠ .eof) := fun l hl => decide_eq_true (hu l hl)
  rw [List.takeWhile_append_of_pos hu, List.dropWhile_append_of_pos hu]
  cases left
  case nil => simp
  case cons l ls =>
    have hl : l.token.kind = .eof := hl
    simp [hl]

end Parser

-- Tokens with an end of the source after them, where the last one is, unless they end with one.
def Token.ended (ts : List Token) : List Token :=
  match ts.getLast? with
  | some t => if t.kind = .eof then ts else ts ++ [⟨.eof, "", t.span⟩]
  | none => [⟨.eof, "", ⟨1, 1, 1⟩⟩]

section Ended

variable {t u : Token} {ts : List Token}

theorem Token.ended_cons_cons : ended (t :: u :: ts) = t :: ended (u :: ts) := by
  simp only [ended, List.getLast?_cons_cons]
  split
  case h_1 => split <;> rfl
  case h_2 h => simp at h

-- The end that is added stands where the last token does.
theorem Token.span_of_mem_ended (ht : t ∈ ended ts) (hts : ts ≠ []) :
    ∃ u ∈ ts, t.span = u.span := by
  unfold ended at ht
  split at ht
  case h_1 v hv =>
    split at ht
    case isTrue => exact ⟨t, ht, rfl⟩
    case isFalse =>
      cases List.mem_append.mp ht
      case inl ht => exact ⟨t, ht, rfl⟩
      case inr ht =>
        rw [List.mem_singleton.mp ht]
        exact ⟨v, List.mem_of_getLast? hv, rfl⟩
  case h_2 hn => exact absurd (List.getLast?_eq_none_iff.mp hn) hts

end Ended

namespace Lexemes

variable {last : Option Lexeme} {leading : Option Token} {t : Token} {ts : List Token}

def tokens (x : Lexemes) : List Token :=
  x.items.map (·.token) ++ [x.stop.token]

-- The lexemes are made of all tokens but comments, in their order, and of an end after them.
theorem tokens_attach : (attach last leading ts).tokens =
    Token.ended ((last.map (·.token)).toList ++ ts.filter (·.kind ≠ .comment)) := by
  fun_induction attach last leading ts
  case case1 hl => simp [tokens, Token.ended, hl]
  case case2 hl => simp [tokens, Token.ended, stopAfter, hl]
  case case3 => rfl
  case case4 hk _ _ hi | case5 hk _ _ hi | case6 hk hi => simpa [hk] using hi
  case case7 last _ t ts hk _ hi =>
    cases last
    case none => simpa [hk] using hi
    case some l =>
      rw [List.filter_cons_of_pos (by simp [hk])]
      exact (congrArg (l.token :: ·) hi).trans Token.ended_cons_cons.symm

theorem kind_stop_attach : (attach last leading ts).stop.token.kind = .eof := by
  fun_induction attach last leading ts
  case case1 hl => exact hl
  case case2 | case3 => rfl
  case case4 hi | case5 hi | case6 hi | case7 hi => exact hi

theorem current_mem_tokens {x : Lexemes} {r : List Lexeme} (h : Reaches x.items r) :
    Parser.current x.stop.token r ∈ x.tokens := by
  have ⟨passed, hi, _⟩ := h.exists_passed
  rw [tokens, hi]
  cases r <;> simp [Parser.current]

end Lexemes

namespace SpriteTree

variable {ts : List Token} {e : SyntaxError}

theorem tokens_ofTokens (ts : List Token) :
    (Lexemes.ofTokens ts).tokens = Token.ended (ts.filter (·.kind ≠ .comment)) :=
  tokens_attach

-- If there are no lexemes, then there is nothing to report.
theorem filter_ne_nil_of_error (h : ofTokens ts = .error e) :
    ts.filter (·.kind ≠ .comment) ≠ [] := by
  intro hf
  have hl := tokens_ofTokens ts
  rw [hf] at hl
  have hi : (Lexemes.ofTokens ts).items = [] := by
    simpa [Lexemes.tokens, Token.ended] using congrArg List.length hl
  rw [ofTokens, hi, Parser.declarations] at h
  contradiction

theorem span_of_error (h : ofTokens ts = .error e)
    (hs : Parser.Stops (Lexemes.ofTokens ts).stop.token (Lexemes.ofTokens ts).items e) :
    ∃ t ∈ ts, t.kind ≠ .comment ∧ e.span = t.span := by
  have ⟨r, hr, he⟩ := hs
  have hm := tokens_ofTokens ts ▸ current_mem_tokens hr
  have ⟨t, ht, hspan⟩ := Token.span_of_mem_ended hm (filter_ne_nil_of_error h)
  have ⟨ht, hk⟩ := List.mem_filter.mp ht
  exact ⟨t, ht, of_decide_eq_true hk, he.trans hspan⟩

-- Whatever the tokens are, all readers go on from lexeme to lexeme, and no further than to the last
-- token. If nothing is reported, then all lexemes before the first end of the source have been
-- read, each by one declaration, and that end comes next.
theorem ofTokens_onePass (ts : List Token) :
    let lexemes := Lexemes.ofTokens ts
    lexemes.tokens = Token.ended (ts.filter (·.kind ≠ .comment)) ∧
      Parser.MovesOn lexemes.stop.token ∧
      Yields
        (Parser.Declares lexemes.stop (lexemes.items.takeWhile (·.token.kind ≠ .eof))
          (lexemes.items.dropWhile (·.token.kind ≠ .eof)))
        (fun e => Parser.Stops lexemes.stop.token lexemes.items e ∧
          ∃ t ∈ ts, t.kind ≠ .comment ∧ e.span = t.span)
        (SpriteTree.ofTokens ts) := by
  refine ⟨tokens_ofTokens ts, Parser.movesOn, ?_⟩
  have hs : (Lexemes.ofTokens ts).stop.token.kind = .eof := kind_stop_attach
  have h := Parser.declares_declarations (s := (Lexemes.ofTokens ts).items) hs
  cases ht : ofTokens ts
  case ok tree =>
    have ⟨used, left, hs, hd⟩ := h.value ht
    have ⟨hu, hl⟩ := hd.split
    rw [hs]
    change Parser.Declares _ _ _ tree
    rwa [hu, hl]
  case error e => exact ⟨h.fault ht, span_of_error ht (h.fault ht)⟩

-- What comes after the end of a source is not read.
example :
    (ofTokens [⟨.keyword, "onflag", ⟨1, 1, 6⟩⟩, ⟨.lbrace, "\x7b", ⟨1, 8, 1⟩⟩,
      ⟨.rbrace, "\x7d", ⟨1, 9, 1⟩⟩, ⟨.eof, "", ⟨1, 10, 1⟩⟩,
      ⟨.rbrace, "\x7d", ⟨1, 11, 1⟩⟩]).toOption.map List.length = some 1 := by
  decide +kernel

end SpriteTree

end BlockLang
