import BlockLang.Proofs.Tree.Parser.Gives.Stmt
import BlockLang.Proofs.Tree.Reread.Expr

/-!
Statements are read again from the tokens that they are written with.
-/

namespace BlockLang

open Token

section Heads

variable {P : String → Prop} {wrap : Bool}

theorem Stmt.head?_tokens {s : Stmt} (h : s.Readable P) :
    ∃ t, (s.tokens wrap).head? = some t ∧ t.Begins := by
  cases s
  case branch bs o =>
    cases bs
    case nil => cases o <;> exact absurd rfl h.1
    case cons => exact ⟨keyword "if", by cases o <;> rfl, begins_keyword (by decide)⟩
  case macroCall => exact ⟨_, rfl, begins_of_kind (.inr rfl)⟩
  case loopUntil | loopTimes | forever | declareLocal | listAdd | listDelete | listDeleteAll
      | listInsert => exact ⟨_, rfl, begins_keyword (by decide)⟩
  all_goals exact ⟨_, rfl, begins_of_kind (.inl rfl)⟩

theorem Stmt.head?_bodyTokens {ss : List Stmt} (h : Stmt.ReadableBody P ss) :
    ∃ t, (Stmt.bodyTokens wrap ss).head? = some t ∧ ¬t.IsElse := by
  cases ss
  case nil => exact ⟨rbrace, rfl, by decide⟩
  case cons s ss =>
    have ⟨t, ht, hb⟩ : ∃ t, (s.tokens wrap).head? = some t ∧ t.Begins := Stmt.head?_tokens h.1
    exact ⟨t, by simp [bodyTokens, ht], hb.isElse⟩

end Heads

theorem Stmt.bare_branch {span : Span} {bs : List (Expr × List Stmt)} {o : Option (List Stmt)} :
    (Stmt.branch span bs o).bare =
      .branch .none (Stmt.bareBranches bs) (o.map (List.map bare)) := by
  cases o <;> simp [bare]

-- Branches, and what comes under `else`, without their places.
def Stmt.bareChain (x : List (Expr × List Stmt) × Option (List Stmt)) :
    List (Expr × List Stmt) × Option (List Stmt) :=
  (Stmt.bareBranches x.1, x.2.map (List.map Stmt.bare))

namespace Parser

open Reads

variable {P : String → Prop} {wrap : Bool} {stop t : Token} {C : Token → Prop} {ts us : List Token}
  {n m : Name} {e i : Expr} {es : List Expr} {α : Type} {Q : α → Prop}

attribute [local simp] Stmt.bare

theorem restores_endStatement : (endStatement stop).Restores stop C [semicolon] (· = none) :=
  .one fun l _ hl ht => ⟨l.trailing, ht,
    (gives_expectKind (bare_eq_word.mp hl).1).map (fun _ hv => congrArg Lexeme.trailing hv)
      fun _ => rfl⟩

theorem restores_anyExpression (he : e.Readable P) :
    (anyExpression stop).Restores stop (¬·.Continues) (e.operand wrap) (·.bare = e.bare) := by
  intro s rest hs _ hr
  have he : Rereads wrap stop e := reread_bareTokens he
  rw [Expr.operand_eq_tokens] at hs
  obtain ⟨e', he, hs⟩ := he.expression (by decide) hs (.of_not_continues hr)
  exact ⟨e', he, .ofAfter hs⟩

theorem restores_expressions (he : Expr.ReadableAll P es) (hn : es ≠ []) :
    (Reads.ofAfter (expressions stop)).Restores stop (fun t => ¬t.Continues ∧ t.kind ≠ .comma)
      (Expr.operands wrap es) (·.map Expr.bare = es.map Expr.bare) := by
  intro s rest hs _ ⟨hr, hc⟩
  have ⟨es', he, hs⟩ := reread_items (by decide) he s rest hn hs (.of_not_continues hr) hc
  exact ⟨es', he, .ofAfter hs⟩

theorem restores_lastExpression (he : e.Readable P) :
    (lastExpression stop).Restores stop C (e.operand wrap ++ [semicolon]) (·.bare = e.bare) :=
  (restores_anyExpression he).before rfl (by decide) fun _ he =>
    restores_endStatement.last fun _ _ => he

theorem restores_indexEnd {next : Expr → Reads α} (hi : i.Readable P)
    (h : ∀ i', i'.bare = i.bare → (next i').Restores stop C ts Q) :
    (indexEnd stop >>= next).Restores stop C (i.operand wrap ++ rbracket :: ts) Q := by
  have hi : (indexEnd stop).Restores stop (fun _ => True) (i.operand wrap ++ [rbracket])
      (·.bare = i.bare) :=
    (restores_anyExpression hi).before rfl (by decide) fun _ hi =>
      restores_skipKind.last fun _ _ => hi
  rw [List.append_cons]
  exact hi.bind h

-- Expressions are read only if another token does not come at once.
theorem restores_operands {next : List Expr → Reads α} (he : Expr.ReadableAll P es)
    (ht : ¬t.Continues ∧ t.kind ≠ .comma)
    (h : ∀ es', es'.map Expr.bare = es.map Expr.bare → (next es').Restores stop C (t :: ts) Q) :
    (Reads.upcoming >>= fun s => if startsWith stop t.kind s then pure [] >>= next
      else Reads.ofAfter (expressions stop) >>= next).Restores stop C
      (Expr.operands wrap es ++ t :: ts) Q := by
  cases es
  case nil =>
    refine .upcoming rfl fun s hs => .ite_pos ((startsWith_iff hs).mpr rfl) ?_
    exact Restores.bind (.pure rfl) fun es' he => h es' (he ▸ rfl)
  case cons =>
    refine .upcoming Expr.head?_operands fun s hs => .ite_neg (fun hk => ?_) ?_
    · have hk : lparen.kind = t.kind := (startsWith_iff hs).mp hk
      exact ht.1 (.inr (.inr (.inl hk.symm)))
    · exact (restores_expressions he (List.cons_ne_nil _ _)).before rfl ht h

section Forms

theorem restores_declareLocal (he : e.Readable P) : (localStmt stop).Restores stop C
    (n.token :: op "=" :: (e.operand wrap ++ [semicolon]))
    (·.bare = (Stmt.declareLocal n e).bare) :=
  restores_name.bind fun _ hn => restores_skipOp.bind fun _ _ =>
    (restores_lastExpression he).last fun _ he => by simp [hn, he]

theorem restores_listAdd (he : e.Readable P) : (addStmt stop).Restores stop C
    (e.operand wrap ++ [keyword "to", n.token, semicolon]) (·.bare = (Stmt.listAdd n e).bare) :=
  (restores_anyExpression he).before rfl (by decide) fun _ he =>
    restores_skipKeyword.bind fun _ _ => restores_name.bind fun _ hn =>
      restores_endStatement.last fun _ _ => by simp [hn, he]

theorem restores_listDelete (hi : i.Readable P) : (deleteStmt stop).Restores stop C
    (n.token :: lbracket :: (i.operand wrap ++ [rbracket, semicolon]))
    (·.bare = (Stmt.listDelete n i).bare) :=
  restores_name.bind fun _ hn => .upcoming rfl fun _ hs => .ite_pos ((startsWith_iff hs).mpr rfl) <|
    restores_skipKind.bind fun _ _ => restores_indexEnd hi fun _ hi =>
      restores_endStatement.last fun _ _ => by simp [hn, hi]

theorem restores_listDeleteAll : (deleteStmt stop).Restores stop C [n.token, semicolon]
    (·.bare = (Stmt.listDeleteAll n).bare) :=
  restores_name.bind fun _ hn => .upcoming rfl fun _ hs =>
    .ite_neg (fun hk => nomatch (startsWith_iff hs).mp hk) <|
      restores_endStatement.last fun _ _ => by simp [hn]

theorem restores_listInsert (hi : i.Readable P) (he : e.Readable P) :
    (insertStmt stop).Restores stop C (e.operand wrap ++
      keyword "at" :: n.token :: lbracket :: (i.operand wrap ++ [rbracket, semicolon]))
      (·.bare = (Stmt.listInsert n i e).bare) :=
  (restores_anyExpression he).before rfl (by decide) fun _ he =>
    restores_skipKeyword.bind fun _ _ => restores_name.bind fun _ hn =>
      restores_skipKind.bind fun _ _ => restores_indexEnd hi fun _ hi =>
        restores_endStatement.last fun _ _ => by simp [hn, hi, he]

theorem restores_assign (he : e.Readable P) (hm : m.bare = n.bare) :
    (assignStmt stop m).Restores stop C (e.operand wrap ++ [semicolon])
      (·.bare = (Stmt.assign n e).bare) :=
  .upcoming rfl fun _ hs => .ite_neg (fun hk => nomatch (startsWith_iff hs).mp hk) <|
    (restores_lastExpression he).last fun _ he => by simp [hm, he]

theorem restores_listSet (he : Expr.ReadableAll P es) (hm : m.bare = n.bare) :
    (assignStmt stop m).Restores stop C
      (lbracket :: (Expr.operands wrap es ++ [rbracket, semicolon]))
      (·.bare = (Stmt.listSet n es).bare) := by
  have hi : (listItems stop).Restores stop (fun _ => True)
      (lbracket :: (Expr.operands wrap es ++ [rbracket])) (·.map Expr.bare = es.map Expr.bare) :=
    restores_skipKind.bind fun _ _ => restores_operands he (by decide) fun _ he =>
      restores_skipKind.last fun _ _ => he
  refine .upcoming rfl fun _ hs => .ite_pos ((startsWith_iff hs).mpr rfl) ?_
  rw [List.append_cons, ← List.cons_append]
  exact hi.bind fun _ he => restores_endStatement.last fun _ _ => by simp [hm, he]

theorem restores_replaceOp {o : Option AssignOp} :
    (replaceOp stop).Restores stop C [o.elim (op "=") AssignOp.token] (· = o) := by
  refine .one fun l s hl _ => ⟨o, rfl, ?_⟩
  simp only [replaceOp, isOp_of_bare hl, assignOp_of_bare hl]
  cases o
  case none => exact .ok rfl rfl
  case some o => cases o <;> exact .ok rfl rfl

theorem restores_listReplace {o : Option AssignOp} (hi : i.Readable P) (he : e.Readable P)
    (hm : m.bare = n.bare) : (replaceStmt stop m).Restores stop C (i.operand wrap ++
      rbracket :: (o.elim (op "=") AssignOp.token :: (e.operand wrap ++ [semicolon])))
      (·.bare = (Stmt.listReplace n i o e).bare) :=
  restores_indexEnd hi fun _ hi => restores_replaceOp.bind fun _ ho =>
    (restores_lastExpression he).last fun _ he => by simp [hm, hi, ho, he]

theorem restores_call (he : Expr.ReadableAll P es) (hm : m.bare = n.bare) :
    (callStmt stop m).Restores stop C (Expr.operands wrap es ++ [semicolon])
      (·.bare = (Stmt.call n es none).bare) :=
  restores_operands he (by decide) fun _ he => restores_endStatement.last fun _ hc => by
    simp [hm, he, hc]

theorem restores_arguments (he : Expr.ReadableAll P es) :
    (Reads.ofAfter (arguments stop)).Restores stop C
      (lparen :: (Expr.operands wrap es ++ [rparen])) (·.map Expr.bare = es.map Expr.bare) := by
  intro s rest hs _ _
  simp only [spells_cons, spells_append, spells_nil] at hs
  obtain ⟨p, _, rfl, hp, s, _, rfl, hs, b, _, rfl, hb, rfl⟩ := hs
  have hi : ItemsReread wrap stop 10 es := reread_items (by decide) he
  obtain ⟨es', he, ha⟩ := hi.arguments rest (bare_eq_word.mp hp).1 hs hb
  have ha : Gives (arguments stop (p :: (s ++ [b]) ++ rest)) es' rest := by
    rwa [List.cons_append, List.append_assoc]
  exact ⟨es', he, .ofAfter ha⟩

theorem restores_macroCall (he : Expr.ReadableAll P es) (hm : m.bare = n.bare) :
    (macroStmt stop m).Restores stop C
      (lparen :: (Expr.operands wrap es ++ [rparen, semicolon]))
      (·.bare = (Stmt.macroCall n es).bare) := by
  rw [List.append_cons, ← List.cons_append]
  exact (restores_arguments he).bind fun _ he => restores_endStatement.last fun _ _ => by
    simp [hm, he]

end Forms

section Named

variable {l : Lexeme} {s r : List Lexeme} {st : Stmt}

theorem restores_named {Q : Stmt → Prop}
    (h : ∀ m : Name, m.bare = n.bare → (namedStmt stop m).Restores stop C ts Q) :
    (Reads.ofAfter (statement stop)).Restores stop C (n.token :: ts) Q :=
  .cons (fun l hl => h ⟨l.token.text, l.token.span⟩ (name_bare hl)) fun _ _ _ _ hl _ hg =>
    .ofAfter (gives_named (bare_eq_word.mp hl).1 hg)

theorem restores_monitor {x : String} {make : Name → Stmt}
    (hx : (x, make) ∈ [("show", Stmt.showMonitor), ("hide", Stmt.hideMonitor)])
    (hb : ∀ m, m.bare = n.bare → (make m).bare = (make n).bare) :
    (Reads.ofAfter (statement stop)).Restores stop C [ident x, n.token, semicolon]
      (·.bare = (make n).bare) :=
  restores_named (n := ⟨x, .none⟩) fun m hm =>
    have hm : m.text = x := congrArg Name.text hm
    .cons (fun _ hl => restores_endStatement.last fun _ _ => hb _ (name_bare hl))
      fun _ _ _ _ hl hs hg => gives_monitor (hm ▸ hx) (bare_eq_word.mp hl).1
        (bare_eq_word.mp (hs _ rfl)).1 hg

theorem restores_simple {x : String} {read : Reads Stmt} {Q : Stmt → Prop}
    (h : read.Restores stop C ts Q) (hr : (x, read) ∈ [("local", localStmt stop),
      ("add", addStmt stop), ("delete", deleteStmt stop), ("insert", insertStmt stop)]) :
    (Reads.ofAfter (statement stop)).Restores stop C (keyword x :: ts) Q :=
  .cons (fun _ _ => h) fun _ _ _ _ hl _ hg =>
    have ⟨hk, ht⟩ := bare_eq_word.mp hl
    .ofAfter (gives_simple hk (ht ▸ hr) hg)

end Named

section Blocks

variable {l : Lexeme} {s q r : List Lexeme} {st : Stmt} {ss body : List Stmt}
  {bs more : List (Expr × List Stmt)} {o : Option (List Stmt)}

theorem restores_block {Q : List Stmt → Prop}
    (h : (Reads.ofAfter (statements stop)).Restores stop (fun _ => True) ts Q) :
    (Reads.ofAfter (block stop)).Restores stop C (lbrace :: ts) Q :=
  h.always.after (fun _ _ h => h) fun _ _ _ _ hl hg =>
    .ofAfter (gives_block (bare_eq_word.mp hl).1 (gives_ofAfter.mp hg))

theorem restores_guarded (he : e.Readable P)
    (hb : (Reads.ofAfter (statements stop)).Restores stop (fun _ => True) ts
      (·.map Stmt.bare = body.map Stmt.bare)) :
    (guarded stop).Restores stop C (e.operand wrap ++ lbrace :: ts)
      (fun x => x.1.bare = e.bare ∧ x.2.map Stmt.bare = body.map Stmt.bare) :=
  (restores_anyExpression he).before rfl (by decide) fun _ he =>
    (restores_block hb).last fun _ hb => ⟨he, hb⟩

theorem restores_loop {k : String} {make : Span → Expr → List Stmt → Stmt} {span : Span}
    (hg : (guarded stop).Restores stop C ts
      (fun x => x.1.bare = e.bare ∧ x.2.map Stmt.bare = body.map Stmt.bare))
    (hm : (k, make) ∈ [("until", Stmt.loopUntil), ("repeat", Stmt.loopTimes)]) :
    (Reads.ofAfter (statement stop)).Restores stop C (keyword k :: ts)
      (·.bare = (make span e body).bare) := by
  refine hg.after (f := fun l x => make l.token.span x.1 x.2) (fun _ _ hx => ?_)
    fun _ _ _ _ hl hg => .ofAfter (gives_loop (bare_eq_word.mp hl).1 ?_ hg)
  case refine_1 =>
    simp only [List.mem_cons, Prod.mk.injEq, List.not_mem_nil, or_false] at hm
    rcases hm with ⟨_, rfl⟩ | ⟨_, rfl⟩ <;> simp [hx]
  case refine_2 => exact (bare_eq_word.mp hl).2 ▸ hm

theorem restores_chain
    (hg : (guarded stop).Restores stop (fun _ => True) ts
      (fun x => x.1.bare = e.bare ∧ x.2.map Stmt.bare = body.map Stmt.bare))
    (hm : Restores stop C us (Stmt.bareChain · = Stmt.bareChain (more, o)) (branches stop)) :
    (chain stop).Restores stop C (ts ++ us)
      (Stmt.bareChain · = Stmt.bareChain ((e, body) :: more, o)) :=
  hg.bind fun _ hg => hm.last fun _ hm => by
    simp_all [Stmt.bareChain, Stmt.bareBranches]

theorem restores_else (hb : (Reads.ofAfter (statements stop)).Restores stop (fun _ => True) ts
      (·.map Stmt.bare = body.map Stmt.bare)) :
    Restores stop C (keyword "else" :: lbrace :: ts)
      (Stmt.bareChain · = Stmt.bareChain ([], some body)) (branches stop) :=
  (restores_block hb).after (fun _ _ hb => by simp [Stmt.bareChain, hb]) fun _ _ _ _ hl hg =>
    gives_else hl (gives_ofAfter.mp hg)

theorem restores_branches_end : Restores stop (¬·.IsElse) []
    (Stmt.bareChain · = Stmt.bareChain ([], none)) (branches stop) := by
  intro s rest hs _ hc
  obtain rfl := spells_nil.mp hs
  exact ⟨([], none), rfl, gives_branches_end hc⟩

theorem restores_if (h : (chain stop).Restores stop C ts
      (Stmt.bareChain · = Stmt.bareChain (bs, o))) {span : Span} :
    (Reads.ofAfter (statement stop)).Restores stop C (keyword "if" :: ts)
      (·.bare = (Stmt.branch span bs o).bare) := by
  refine h.after (f := fun l x => .branch l.token.span x.1 x.2) (fun _ x hx => ?_)
    fun _ _ _ _ hl hg => .ofAfter (gives_if hl hg)
  simp_all [Stmt.bareChain, Stmt.bare_branch, -Stmt.bare]

end Blocks

-- By induction on the statement. What follows it must not be `elif` or `else`, which would become
-- part of a branch. No statement begins with them, and no body ends with them.
mutual

theorem restores_statement : ∀ {s : Stmt}, s.Readable P → s.CommentFree →
    (Reads.ofAfter (statement stop)).Restores stop (¬·.IsElse) (s.tokens wrap) (·.bare = s.bare)
  | .call n args _, ha, rfl => by
    have ⟨t, ht, hk⟩ : ∃ t, (Expr.operands wrap args ++ [semicolon]).head? = some t ∧
        (t.kind = .lparen ∨ t.kind = .semicolon) := by
      cases args
      case nil => exact ⟨semicolon, rfl, .inr rfl⟩
      case cons => exact ⟨lparen, Expr.head?_operands, .inl rfl⟩
    exact restores_named fun m hm => (restores_call ha hm).of_head ht fun _ _ _ _ hl _ hg =>
      gives_call hl hk hg
  | .macroCall n args, ⟨hn, ha⟩, _ =>
    .cons (fun _ hl => restores_macroCall ha (macroName_bare hl hn)) fun _ _ _ _ hl hs hg =>
      .ofAfter (gives_macroStmt (bare_eq_word.mp hl).1 (bare_eq_word.mp (hs _ rfl)).1 hg)
  | .branch _ [] none, h, _ | .branch _ [] (some _), h, _ => absurd rfl h.1
  | .branch _ ((e, body) :: more) none, ⟨_, ⟨he, hb⟩, hm⟩, ⟨hc, hcm⟩ => by
    have hm := restores_branches hm hcm restores_branches_end
    rw [List.append_nil] at hm
    exact restores_if (restores_chain (restores_guarded he (restores_statements hb hc)) hm)
  | .branch _ ((e, body) :: more) (some otherwise), ⟨_, ⟨⟨he, hb⟩, hm⟩, ho⟩, ⟨⟨hc, hcm⟩, hco⟩ => by
    have hm := restores_branches hm hcm (restores_else (restores_statements ho hco))
    rw [Stmt.tokens, Stmt.branchTokens, List.cons_append, List.append_assoc]
    exact restores_if (restores_chain (restores_guarded he (restores_statements hb hc)) hm)
  | .loopUntil _ e body, ⟨he, hb⟩, hc =>
    restores_loop (restores_guarded he (restores_statements hb hc)) (by simp)
  | .loopTimes _ e body, ⟨he, hb⟩, hc =>
    restores_loop (restores_guarded he (restores_statements hb hc)) (by simp)
  | .forever _ body, hb, hc =>
    have hb : Stmt.ReadableBody P body := hb
    (restores_block (restores_statements hb hc)).after
      (fun _ _ hx => by simp [hx]) fun _ _ _ _ hl hg =>
        .ofAfter (gives_forever hl (gives_ofAfter.mp hg))
  | .declareLocal n e, ⟨_, he⟩, _ => restores_simple (restores_declareLocal he) (by simp)
  | .assign n e, ⟨_, he⟩, _ => restores_named fun m hm =>
    .cons (fun _ _ => restores_assign he hm) fun _ _ _ _ hl _ hg => gives_assign hl hg
  | .compound n o e, ⟨_, he⟩, _ => restores_named fun m hm =>
    .cons (fun _ _ => (restores_lastExpression he).last fun _ he => by simp [hm, he])
      fun _ _ _ _ hl _ hg => gives_compound hl hg
  | .increment n, _, _ => restores_named fun m hm =>
    .cons (fun _ _ => restores_endStatement.last fun _ _ => by simp [hm])
      fun _ _ _ _ hl hs hg => gives_increment hl (bare_eq_word.mp (hs _ rfl)).1 hg
  | .listSet n es, ⟨_, he⟩, _ => restores_named fun m hm =>
    .cons (fun _ _ => restores_listSet he hm) fun _ _ _ _ hl _ hg => gives_assign hl hg
  | .listAdd n e, ⟨_, he⟩, _ => restores_simple (restores_listAdd he) (by simp)
  | .listDelete n i, ⟨_, hi⟩, _ => restores_simple (restores_listDelete hi) (by simp)
  | .listDeleteAll n, _, _ => restores_simple restores_listDeleteAll (by simp)
  | .listInsert n i e, ⟨_, hi, he⟩, _ => restores_simple (restores_listInsert hi he) (by simp)
  | .listReplace n i o e, ⟨_, hi, he⟩, _ => restores_named fun m hm =>
    .cons (fun _ _ => restores_listReplace hi he hm) fun _ _ _ _ hl _ hg => gives_listReplace hl hg
  | .showMonitor n, _, _ => restores_monitor (by simp) fun _ hm => congrArg Stmt.showMonitor hm
  | .hideMonitor n, _, _ => restores_monitor (by simp) fun _ hm => congrArg Stmt.hideMonitor hm

theorem restores_statements : ∀ {ss : List Stmt}, Stmt.ReadableBody P ss →
    Stmt.BodyCommentFree ss → (Reads.ofAfter (statements stop)).Restores stop (fun _ => True)
      (Stmt.bodyTokens wrap ss) (·.map Stmt.bare = ss.map Stmt.bare)
  | [], _, _ => .one fun _ _ hl _ =>
    ⟨[], rfl, .ofAfter (gives_statements_end (bare_eq_word.mp hl).1)⟩
  | s :: ss, ⟨hs, hss⟩, ⟨hc, hcs⟩ => by
    have ⟨t, ht, hb⟩ : ∃ t, (s.tokens wrap).head? = some t ∧ t.Begins := Stmt.head?_tokens hs
    have ⟨u, hu, hn⟩ : ∃ t, (Stmt.bodyTokens wrap ss).head? = some t ∧ ¬t.IsElse :=
      Stmt.head?_bodyTokens hss
    refine Restores.of_head (t := t) ((restores_statement hs hc).before hu hn fun st hs =>
      (restores_statements hss hcs).last (f := (st :: ·)) fun _ hss => by simp [hs, hss])
      (by simp [Stmt.bodyTokens, ht]) fun l q x r hl hn hg => ?_
    have ⟨st, _, hs, hg⟩ := gives_andThen.mp hg
    have ⟨sts, _, hss, hg⟩ := gives_andThen.mp hg
    obtain ⟨rfl, rfl⟩ := gives_pure.mp hg
    exact .ofAfter (gives_statements hl hb hn (gives_ofAfter.mp hs) (gives_ofAfter.mp hss))

theorem restores_branches : ∀ {bs : List (Expr × List Stmt)} {o : Option (List Stmt)}
    {us : List Token}, Stmt.ReadableBranches P bs → Stmt.BranchesCommentFree bs →
    Restores stop (¬·.IsElse) us (Stmt.bareChain · = Stmt.bareChain ([], o)) (branches stop) →
    Restores stop (¬·.IsElse) (Stmt.branchTokens wrap "elif" bs ++ us)
      (Stmt.bareChain · = Stmt.bareChain (bs, o)) (branches stop)
  | [], _, _, _, _, h => h
  | (e, body) :: bs, o, us, ⟨⟨he, hb⟩, hbs⟩, ⟨hc, hcs⟩, h => by
    have hg : (guarded stop).Restores stop (fun _ => True)
        (e.operand wrap ++ lbrace :: Stmt.bodyTokens wrap body) _ :=
      restores_guarded he (restores_statements hb hc)
    have hm := restores_branches hbs hcs h
    rw [Stmt.branchTokens, List.cons_append, List.append_assoc]
    exact (restores_chain hg hm).after (fun _ _ hx => hx) fun _ _ _ _ hl hg => gives_elif hl hg

end

end Parser

end BlockLang
