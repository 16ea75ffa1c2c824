import BlockLang.Proofs.Tree.Parser.Gives.Expr
import BlockLang.Proofs.Tree.Printed

/-!
What each function of the parser for statements gives, in front of given tokens.
-/

namespace BlockLang

open Token

-- The tokens that go on with a branch.
def Token.IsElse (t : Token) : Prop :=
  t.isKeyword "elif" ∨ t.isKeyword "else"

instance {t : Token} : Decidable t.IsElse :=
  inferInstanceAs (Decidable (_ ∨ _))

-- The tokens that a statement may start with, and some others.
structure Token.Begins (t : Token) : Prop where
  rbrace : t.kind ≠ .rbrace
  eof    : t.kind ≠ .eof
  isElse : ¬t.IsElse

theorem Token.begins_of_kind {t : Token} (h : t.kind = .ident ∨ t.kind = .macroVar) : t.Begins := by
  rcases h with h | h <;>
    exact ⟨by simp [h], by simp [h], by simp [IsElse, isKeyword, h]⟩

theorem Token.begins_keyword {x : String} (h : x ≠ "elif" ∧ x ≠ "else") : (keyword x).Begins :=
  ⟨nofun, nofun, by simp [IsElse, isKeyword, keyword, word, h]⟩

theorem Stmt.withComment_none {s : Stmt} : s.withComment none = s := by
  unfold withComment
  split <;> rfl

namespace Parser

open Reads

variable {stop t : Token} {l : Lexeme} {s q r : List Lexeme} {m : Name} {st : Stmt}
  {ss body : List Stmt} {e : Expr}

section Named

theorem gives_assign (hl : l.token.bare = op "=") (h : Gives (assignStmt stop m s) st r) :
    Gives (namedStmt stop m (l :: s)) st r := by
  simp only [namedStmt, isOp_of_bare hl]
  exact h.map (fun _ hv => hv) fun _ => rfl

theorem gives_compound {o : AssignOp} (hl : l.token.bare = o.token)
    (h : Gives ((Stmt.compound m o <$> lastExpression stop) s) st r) :
    Gives (namedStmt stop m (l :: s)) st r := by
  have ho : AssignOp.ofToken? o.token = some o ∧ ¬o.token.isOp "=" := by cases o <;> decide
  simp only [namedStmt, isOp_of_bare hl, assignOp_of_bare hl, ho]
  exact h.map (fun _ hv => hv) fun _ => rfl

theorem gives_increment (hl : l.token.bare = op "++") (hs : (current stop s).kind = .semicolon)
    (h : Gives (((fun _ => Stmt.increment m) <$> endStatement stop) s) st r) :
    Gives (namedStmt stop m (l :: s)) st r := by
  simp only [namedStmt, isOp_of_bare hl, assignOp_of_bare hl, startsWith, hs]
  exact h.map (fun _ hv => hv) fun _ => rfl

theorem gives_listReplace (hl : l.token.bare = lbracket) (h : Gives (replaceStmt stop m s) st r) :
    Gives (namedStmt stop m (l :: s)) st r := by
  simp only [namedStmt, isOp_of_bare hl, assignOp_of_bare hl, (bare_eq_word.mp hl).1]
  exact h.map (fun _ hv => hv) fun _ => rfl

theorem gives_monitor {make : Name → Stmt}
    (hm : (m.text, make) ∈ [("show", Stmt.showMonitor), ("hide", Stmt.hideMonitor)])
    (hl : l.token.kind = .ident) (hs : (current stop s).kind = .semicolon)
    (h : Gives (((fun _ => make ⟨l.token.text, l.token.span⟩) <$> endStatement stop) s) st r) :
    Gives (namedStmt stop m (l :: s)) st r := by
  simp only [List.mem_cons, Prod.mk.injEq, List.not_mem_nil, or_false] at hm
  rcases hm with ⟨hm, rfl⟩ | ⟨hm, rfl⟩ <;>
    simp only [namedStmt, isOp, AssignOp.ofToken?, startsWith, hm, hl, hs] <;>
    exact h.map (fun _ hv => hv) fun _ => rfl

-- The first token is neither of an assignment nor a name.
theorem gives_call (hl : l.token.bare = t) (ht : t.kind = .lparen ∨ t.kind = .semicolon)
    (h : Gives (callStmt stop m (l :: s)) st r) : Gives (namedStmt stop m (l :: s)) st r := by
  have hk : l.token.kind = t.kind := hl ▸ rfl
  rcases ht with ht | ht <;> simpa [namedStmt, isOp, AssignOp.ofToken?, hk, ht] using h

theorem gives_named (hl : l.token.kind = .ident)
    (h : Gives (namedStmt stop ⟨l.token.text, l.token.span⟩ s) st r) :
    Gives (statement stop (l :: s)) st r := by
  rw [statement.eq_def]
  simp only [hl]
  exact h.map (fun _ hv => hv) fun _ => rfl

theorem gives_macroStmt (hl : l.token.kind = .macroVar) (hs : (current stop s).kind = .lparen)
    (h : Gives (macroStmt stop l.token.macroName s) st r) :
    Gives (statement stop (l :: s)) st r := by
  rw [statement.eq_def]
  simp only [hl, startsWith, hs, decide_true, if_true]
  exact h.map (fun _ hv => hv) fun _ => rfl

theorem gives_simple {read : Reads Stmt} (hl : l.token.kind = .keyword)
    (hr : (l.token.text, read) ∈ [("local", localStmt stop), ("add", addStmt stop),
      ("delete", deleteStmt stop), ("insert", insertStmt stop)])
    (h : Gives (read s) st r) : Gives (statement stop (l :: s)) st r := by
  simp only [List.mem_cons, Prod.mk.injEq, List.not_mem_nil, or_false] at hr
  rw [statement.eq_def]
  rcases hr with ⟨ht, rfl⟩ | ⟨ht, rfl⟩ | ⟨ht, rfl⟩ | ⟨ht, rfl⟩ <;> simp only [hl, ht] <;>
    exact h.map (fun _ hv => hv) fun _ => rfl

end Named

section Blocks

-- A condition with the statements under it.
def guarded (stop : Token) : Reads (Expr × List Stmt) := do
  let e ← anyExpression stop
  let body ← .ofAfter (block stop)
  return (e, body)

-- A condition, and all that comes after it in its branch.
def chain (stop : Token) : Reads (List (Expr × List Stmt) × Option (List Stmt)) := do
  let b ← guarded stop
  let x ← branches stop
  return (b :: x.1, x.2)

theorem gives_block (hl : l.token.kind = .lbrace) (h : Gives (statements stop s) ss r) :
    Gives (block stop (l :: s)) ss r := by
  rw [block]
  apply (gives_expectKind hl).bind
  intro _
  exact h.last (fun _ hv => hv) fun _ => rfl

theorem gives_statements_end (hl : l.token.kind = .rbrace) :
    Gives (statements stop (l :: s)) [] s := by
  rw [statements, if_pos hl]
  exact .ok rfl rfl

theorem gives_statements (hl : l.token.bare = t) (ht : t.Begins) (hc : l.leading = none)
    (h : Gives (statement stop (l :: s)) st q) (h' : Gives (statements stop q) ss r) :
    Gives (statements stop (l :: s)) (st :: ss) r := by
  have hk : l.token.kind = t.kind := hl ▸ rfl
  rw [statements, if_neg (hk ▸ ht.rbrace), if_neg (hk ▸ ht.eof)]
  apply h.bind
  intro _
  simp only [hc, Stmt.withComment_none]
  exact h'.last (fun _ hv => congrArg (st :: ·) hv) fun _ => rfl

theorem gives_guarded : Gives (guarded stop s) (e, body) r ↔
    ∃ q, Gives (expression stop 1 s) e q ∧ Gives (block stop q) body r := by
  simp [guarded, anyExpression, gives_andThen, gives_ofAfter, gives_pure]

theorem of_chain {x : List (Expr × List Stmt) × Option (List Stmt)} (h : Gives (chain stop s) x r) :
    ∃ e body q q' more, x = ((e, body) :: more, x.2) ∧ Gives (expression stop 1 s) e q ∧
      Gives (block stop q) body q' ∧ Gives (branches stop q') (more, x.2) r := by
  have ⟨⟨e, body⟩, q', hg, h⟩ := gives_andThen.mp h
  have ⟨⟨more, o⟩, _, hm, h⟩ := gives_andThen.mp h
  have ⟨q, he, hb⟩ := gives_guarded.mp hg
  obtain ⟨rfl, rfl⟩ := gives_pure.mp h
  exact ⟨e, body, q, q', more, rfl, he, hb, hm⟩

theorem gives_loop {make : Span → Expr → List Stmt → Stmt} {x : Expr × List Stmt}
    (hl : l.token.kind = .keyword)
    (hm : (l.token.text, make) ∈ [("until", Stmt.loopUntil), ("repeat", Stmt.loopTimes)])
    (h : Gives (guarded stop s) x r) :
    Gives (statement stop (l :: s)) (make l.token.span x.1 x.2) r := by
  have ⟨_, he, hb⟩ := gives_guarded.mp h
  simp only [List.mem_cons, Prod.mk.injEq, List.not_mem_nil, or_false] at hm
  rw [statement.eq_def]
  rcases hm with ⟨ht, rfl⟩ | ⟨ht, rfl⟩
  all_goals
    simp only [hl, ht]
    apply he.bind
    intro _
    exact hb.last (fun _ hv => congrArg _ hv) fun _ => rfl

theorem gives_forever (hl : l.token.bare = keyword "forever") (h : Gives (block stop s) body r) :
    Gives (statement stop (l :: s)) (.forever l.token.span body) r := by
  have ⟨hk, ht⟩ := bare_eq_word.mp hl
  rw [statement.eq_def]
  simp only [hk, ht]
  exact h.last (fun _ hv => congrArg _ hv) fun _ => rfl

theorem gives_if {x : List (Expr × List Stmt) × Option (List Stmt)}
    (hl : l.token.bare = keyword "if") (h : Gives (chain stop s) x r) :
    Gives (statement stop (l :: s)) (.branch l.token.span x.1 x.2) r := by
  have ⟨hk, ht⟩ := bare_eq_word.mp hl
  have ⟨e, body, _, _, more, hx, he, hb, hm⟩ := of_chain h
  rw [hx, statement.eq_def]
  simp only [hk, ht]
  apply he.bind
  intro _
  apply hb.bind
  intro _
  refine hm.last (fun _ hv => ?_) fun _ => rfl
  exact congrArg (fun x => Stmt.branch l.token.span ((e, body) :: x.1) x.2) hv

theorem gives_elif {x : List (Expr × List Stmt) × Option (List Stmt)}
    (hl : l.token.bare = keyword "elif") (h : Gives (chain stop s) x r) :
    Gives (branches stop (l :: s)) x r := by
  have ⟨hk, ht⟩ := bare_eq_word.mp hl
  have ⟨e, body, _, _, more, hx, he, hb, hm⟩ := of_chain h
  rw [hx, branches]
  simp only [isKeyword, hk, ht]
  apply he.bind
  intro _
  apply hb.bind
  intro _
  refine hm.last (fun _ hv => ?_) fun _ => rfl
  exact congrArg (fun x => ((e, body) :: x.1, x.2)) hv

theorem gives_else (hl : l.token.bare = keyword "else") (h : Gives (block stop s) body r) :
    Gives (branches stop (l :: s)) ([], some body) r := by
  have ⟨hk, ht⟩ := bare_eq_word.mp hl
  rw [branches]
  simp only [isKeyword, hk, ht]
  exact h.last (fun _ hv => congrArg (fun body => ([], some body)) hv) fun _ => rfl

theorem gives_branches_end (h : ¬(current stop s).IsElse) :
    Gives (branches stop s) ([], none) s := by
  rw [branches.eq_def]
  split
  case h_1 => exact .ok rfl rfl
  case h_2 =>
    obtain ⟨hi, he⟩ := not_or.mp h
    rw [current_cons] at hi he
    rw [if_neg hi, if_neg he]
    exact .ok rfl rfl

end Blocks

end Parser

end BlockLang
