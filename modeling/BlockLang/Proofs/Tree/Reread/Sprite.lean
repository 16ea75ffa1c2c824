import BlockLang.Proofs.Tree.Reread.Decl

/-!
Whole sprites are read again from the tokens that they are written with.
-/

namespace BlockLang

open Token

namespace Lexemes

variable {ts : List Token} {last : Option Token}

-- Without comments, all tokens are lexemes. The last one counts as the stop if it ends the source.
theorem attach_lexemes (h : ∀ t ∈ ts, t.kind ≠ .comment) : ∃ stop, stop.leading = none ∧
    (attach (last.map lexeme) none ts = ⟨(last.toList ++ ts).map lexeme, stop⟩ ∨
      ∃ us, last.toList ++ ts = us ++ [stop.token] ∧ stop.token.kind = .eof ∧
        attach (last.map lexeme) none ts = ⟨us.map lexeme, stop⟩) := by
  induction ts generalizing last
  case nil =>
    cases last
    case none => exact ⟨_, rfl, .inl rfl⟩
    case some t =>
      by_cases ht : t.kind = .eof
      case pos => exact ⟨t.lexeme, rfl, .inr ⟨[], rfl, ht, if_pos ht⟩⟩
      case neg => exact ⟨_, rfl, .inl (if_neg ht)⟩
  case cons t ts hi =>
    obtain ⟨ht, hts⟩ := List.forall_mem_cons.mp h
    have ha : attach (last.map lexeme) none (t :: ts) =
        { attach (some t.lexeme) none ts with
          items := last.toList.map lexeme ++ (attach (some t.lexeme) none ts).items } := by
      cases last <;> simp [attach.eq_def _ _ (t :: ts), ht, lexeme]
    obtain ⟨stop, hs, hi⟩ := @hi (some t) hts
    simp only [Option.map_some, Option.toList_some] at hi
    rcases hi with hi | ⟨us, hu, he, hi⟩
    case inl => exact ⟨stop, hs, .inl (by simp [ha, hi])⟩
    case inr =>
      have hu : last.toList ++ t :: ts = (last.toList ++ us) ++ [stop.token] := by
        rw [List.append_assoc, ← hu]
        rfl
      exact ⟨stop, hs, .inr ⟨last.toList ++ us, hu, he, by simp [ha, hi]⟩⟩

-- Tokens that end a source come after all others, and make no difference but for the stop.
theorem ofTokens_append {us vs : List Token} (hu : ∀ t ∈ us, t.IsShown)
    (hv : ∀ t ∈ vs, t.kind = .eof) : ∃ ws stop, stop.leading = none ∧ (∀ t ∈ ws, t.kind = .eof) ∧
      ofTokens (us ++ vs) = ⟨(us ++ ws).map lexeme, stop⟩ := by
  have hn : ∀ t ∈ us ++ vs, t.kind ≠ .comment :=
    List.forall_mem_append.mpr ⟨fun t ht => (hu t ht).1, fun t ht => by simp [hv t ht]⟩
  have ⟨stop, hs, ha⟩ := @attach_lexemes _ none hn
  rcases ha with ha | ⟨ws, hw, hk, ha⟩
  case inl => exact ⟨vs, stop, hs, hv, ha⟩
  case inr =>
    rcases vs.eq_nil_or_concat with rfl | ⟨vs, t, rfl⟩
    case inl =>
      have hm : stop.token ∈ us := by
        have hm : stop.token ∈ ws ++ [stop.token] := by simp
        simpa [← hw] using hm
      exact absurd hk (hu _ hm).2
    case inr =>
      have hw : (us ++ vs) ++ [t] = ws ++ [stop.token] := by simpa using hw
      obtain ⟨rfl, _⟩ := List.append_inj' hw rfl
      exact ⟨vs, stop, hs, fun t ht => hv t (by simp [ht]), ha⟩

end Lexemes

theorem Decl.head?_tokens {wrap : Bool} {d : Decl} (h : d.CommentFree) :
    ∃ x, (d.tokens wrap).head? = some (keyword x) := by
  cases d
  case function warp => cases warp <;> exact ⟨_, rfl⟩
  case event kind _ => cases kind <;> exact ⟨_, rfl⟩
  case docComment => exact absurd h id
  all_goals exact ⟨_, rfl⟩

namespace Parser

variable {P : String → Prop} {wrap : Bool} {stop l : Lexeme} {s r rest : List Lexeme} {d : Decl}
  {ds : List Decl}

theorem uncommented_map_lexeme {ts : List Token} : Uncommented (ts.map lexeme) :=
  List.forall_mem_map.mpr fun _ _ => ⟨rfl, rfl⟩

theorem declarations_end {ts : List Token} (hs : stop.leading = none)
    (h : ∀ t ∈ ts, t.kind = .eof) : declarations stop (ts.map lexeme) = .ok [] := by
  cases ts
  case nil => simp [declarations, hs, docComment]
  case cons t ts =>
    have ht : t.kind = .eof := h t (List.mem_cons_self ..)
    simp [declarations, lexeme, ht, docComment]

theorem declarations_cons (hl : l.token.kind = .keyword) (hc : l.leading = none)
    (h : Gives (declaration stop.token (l :: s)) d r) (h' : declarations stop r = .ok ds) :
    declarations stop (l :: s) = .ok (d :: ds) := by
  obtain ⟨⟨_, _, _⟩, hx, rfl, rfl⟩ := h
  rw [declarations, if_neg (by simp [hl])]
  exact bind_eq_ok.mpr ⟨_, hx, bind_eq_ok.mpr ⟨ds, h', by simp [hc, docComment]; rfl⟩⟩

theorem declarations_tokens : ∀ {ds : List Decl} {s : List Lexeme}, (∀ d ∈ ds, d.Readable P) →
    (∀ d ∈ ds, d.CommentFree) → Spells s (ds.flatMap (Decl.tokens wrap)) → Uncommented s →
    declarations stop rest = .ok [] →
    ∃ ds', declarations stop (s ++ rest) = .ok ds' ∧ ds'.map Decl.bare = ds.map Decl.bare
  | [], _, _, _, hs, _, hr => by
    obtain rfl := spells_nil.mp hs
    exact ⟨[], hr, rfl⟩
  | d :: ds, _, hd, hc, hs, hu, hr => by
    have ⟨hd, hds⟩ := List.forall_mem_cons.mp hd
    have ⟨hc, hcs⟩ := List.forall_mem_cons.mp hc
    rw [List.flatMap_cons] at hs
    obtain ⟨s, s', rfl, hs, hs'⟩ := spells_append.mp hs
    have ⟨hu, hu'⟩ := List.forall_mem_append.mp hu
    have ⟨ds', hds', he⟩ := declarations_tokens hds hcs hs' hu' hr
    have ⟨x, hx⟩ : ∃ x, (d.tokens wrap).head? = some (keyword x) := Decl.head?_tokens hc
    have hd : (Reads.ofAfter (declaration stop.token)).Restores stop.token (fun _ => True)
        (d.tokens wrap) (·.bare = d.bare) := restores_decl hd hc
    have ⟨d', hd, hg⟩ := hd s (s' ++ rest) hs hu trivial
    obtain ⟨ts, ht⟩ := List.head?_eq_some_iff.mp hx
    obtain ⟨l, s, rfl, hl, _⟩ := spells_cons.mp (ht ▸ hs)
    refine ⟨d' :: ds', ?_, by simp [hd, he]⟩
    rw [List.append_assoc]
    exact declarations_cons (bare_eq_word.mp hl).1 (hu l (List.mem_cons_self ..)).1
      (gives_ofAfter.mp hg) hds'

end Parser

namespace SpriteTree

variable {wrap : Bool} {tree : SpriteTree}

-- The tree of a sprite is read again from the tokens that it is written with, whatever their places
-- are. They may have a token after them that ends the source.
theorem ofTokens_tokens {source ts ending : List Token} (h : ofTokens source = .ok tree)
    (hc : tree.CommentFree) (ht : ts.map Token.bare = tree.tokens wrap ++ ending)
    (he : ∀ t ∈ ending, t.kind = .eof) :
    ∃ tree', ofTokens ts = .ok tree' ∧ tree'.bare = tree.bare := by
  have hr : ∀ d ∈ tree, d.Readable fun _ => True := readable_ofTokens (fun _ _ _ => trivial) h
  have hs : Shown (tree.tokens wrap) := shown_tokens hr
  obtain ⟨us, vs, rfl, hu, hv⟩ := List.map_eq_append_iff.mp ht
  have hus : ∀ t ∈ us, t.bare.IsShown := List.forall_mem_map.mp (hu.symm ▸ hs)
  have hvs : ∀ t ∈ vs, t.bare.kind = .eof := List.forall_mem_map.mp (hv.symm ▸ he)
  have ⟨ws, stop, hl, hws, hx⟩ := Lexemes.ofTokens_append hus hvs
  have hp : Parser.Spells (us.map lexeme) (tree.tokens wrap) := by
    rw [Parser.Spells, List.map_map]
    exact hu
  have ⟨tree', ht, hb⟩ := Parser.declarations_tokens hr hc hp Parser.uncommented_map_lexeme
    (Parser.declarations_end hl hws)
  refine ⟨tree', ?_, hb⟩
  rw [ofTokens, hx, List.map_append]
  exact ht

-- A script that shows a monitor, or else calls a function that has the name of that statement. Then
-- the same with its conditions in parentheses.
def monitors : List Token := [
  keyword "onflag", lbrace,
    keyword "if", ident "x", lbrace, ident "show", ident "x", semicolon, rbrace,
    keyword "elif", ident "y", lbrace, ident "show", lparen, ident "x", rparen, semicolon, rbrace,
    keyword "else", lbrace, ident "y", op "++", semicolon, rbrace,
  rbrace]

def groupedMonitors : List Token := [
  keyword "onflag", lbrace,
    keyword "if", lparen, ident "x", rparen, lbrace, ident "show", ident "x", semicolon, rbrace,
    keyword "elif", lparen, ident "y", rparen, lbrace,
      ident "show", lparen, ident "x", rparen, semicolon,
    rbrace,
    keyword "else", lbrace, ident "y", op "++", semicolon, rbrace,
  rbrace]

theorem ofTokens_tokens_monitors : ∃ tree, ofTokens monitors = .ok tree ∧ tree.CommentFree ∧
    tree.tokens true = groupedMonitors ∧
    ∃ tree', ofTokens (groupedMonitors ++ [word .eof ""]) = .ok tree' ∧ tree'.bare = tree.bare := by
  have h : (ofTokens monitors).toOption.map (fun tree =>
      (decide tree.CommentFree, tree.tokens true)) = some (true, groupedMonitors) := by
    decide +kernel
  cases ht : ofTokens monitors
  case error => simp [ht, Except.toOption] at h
  case ok tree =>
    obtain ⟨hc, hs⟩ : tree.CommentFree ∧ tree.tokens true = groupedMonitors := by
      simpa [ht, Except.toOption] using h
    have hb : (groupedMonitors ++ [word .eof ""]).map Token.bare =
        tree.tokens true ++ [word .eof ""] := by
      rw [hs]
      rfl
    exact ⟨tree, rfl, hc, hs, ofTokens_tokens ht hc hb (by simp [word])⟩

end SpriteTree

end BlockLang
