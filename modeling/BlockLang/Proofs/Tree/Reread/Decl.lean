import BlockLang.Tree.Parser.Decl
import BlockLang.Proofs.Tree.Parser.Decl
import BlockLang.Proofs.Tree.Reread.Stmt
import BlockLang.Proofs.Tree.Shown

/-!
Sprites are read again from the tokens that they are written with.
-/

namespace BlockLang

open Token

namespace Parser

open Reads

variable {P : String → Prop} {wrap : Bool} {stop t : Token} {C : Token → Prop} {ts us : List Token}
  {n : Name} {e : Expr} {ss : List Stmt} {params : List Name} {what : String} {α β : Type}

section Commas

variable {l : Lexeme} {s q r : List Lexeme} {read : Reads α} {a : α} {as : List α}

theorem gives_afterCommas (hl : l.token.kind = .comma) (h : Gives (read s) a q)
    (h' : Gives (afterCommas read q) as r) : Gives (afterCommas read (l :: s)) (a :: as) r := by
  rw [afterCommas, if_pos hl]
  obtain ⟨⟨_, _, _⟩, hx, rfl, rfl⟩ := h
  obtain ⟨y, hy, rfl, rfl⟩ := h'
  exact ⟨_, bind_eq_ok.mpr ⟨_, hx, bind_eq_ok.mpr ⟨y, hy, rfl⟩⟩, rfl, rfl⟩

theorem gives_afterCommas_end (h : (current stop s).kind ≠ .comma) :
    Gives (afterCommas read s) [] s := by
  rw [afterCommas.eq_def]
  split
  case h_1 => exact .ok rfl rfl
  case h_2 =>
    rw [current_cons] at h
    rw [if_neg h]
    exact .ok rfl rfl

theorem restores_afterCommas {bare : α → β} {word : α → Token} : ∀ {as : List α},
    (∀ a ∈ as, read.Restores stop (fun _ => True) [word a] (bare · = bare a)) →
    Restores stop (·.kind ≠ .comma) ((as.map word).flatMap fun t => [comma, t])
      (·.map bare = as.map bare) (afterCommas read)
  | [], _ => by
    intro s rest hs _ hc
    obtain rfl := spells_nil.mp hs
    exact ⟨[], rfl, gives_afterCommas_end hc⟩
  | a :: as, h => by
    have ⟨ha, has⟩ := List.forall_mem_cons.mp h
    have h : (do let b ← read; let bs ← afterCommas read; return b :: bs : Reads (List α)).Restores
        stop (·.kind ≠ .comma) (word a :: (as.map word).flatMap fun t => [comma, t])
        (·.map bare = (a :: as).map bare) :=
      ha.bind fun b hb => (restores_afterCommas has).last (f := (b :: ·)) fun _ hbs => by
        simp [hb, hbs]
    refine h.after (fun _ _ hx => hx) fun l s x r hl hg => ?_
    have ⟨b, _, hb, hg⟩ := gives_andThen.mp hg
    have ⟨bs, _, hbs, hg⟩ := gives_andThen.mp hg
    obtain ⟨rfl, rfl⟩ := gives_pure.mp hg
    exact gives_afterCommas (bare_eq_word.mp hl).1 hb hbs

end Commas

section Forms

variable {Q : Decl → Prop} {span : Span}

theorem restores_names {ns : List Name} (hn : ns ≠ []) : (names stop).Restores stop
    (·.kind ≠ .comma) (series (ns.map Name.token)) (·.map Name.bare = ns.map Name.bare) := by
  cases ns
  case nil => exact absurd rfl hn
  case cons =>
    exact restores_name.bind fun n hn => (restores_afterCommas fun _ _ => restores_name).last
      (f := (n :: ·)) fun _ hns => by simp [hn, hns]

theorem restores_namesDecl {ns : List Name} (hn : ns ≠ []) : (namesDecl stop what).Restores stop C
    (series (ns.map Name.token) ++ [semicolon]) (·.map Name.bare = ns.map Name.bare) :=
  (restores_names hn).before rfl (by decide) fun _ hn => restores_skipKind.last fun _ _ => hn

theorem restores_costumes {paths : List Token} (hn : paths ≠ [])
    (hp : ∀ t ∈ paths, t.kind = .string) : (costumesDecl stop).Restores stop C
      (series (paths.map Token.bare) ++ [semicolon]) (·.bare = (Decl.costumes paths).bare) := by
  cases paths
  case nil => exact absurd rfl hn
  case cons =>
    have ⟨hp, hps⟩ := List.forall_mem_cons.mp hp
    exact (restores_string hp).bind fun _ hp =>
      (restores_afterCommas fun t ht => restores_string (hps t ht)).before rfl (by decide)
        fun _ hps => restores_skipKind.last fun _ _ => by simp [Decl.bare, hp, hps]

theorem restores_dataList (ht : t.kind = .string) : (dataListDecl stop).Restores stop C
    [n.token, t.bare, semicolon] (·.bare = (Decl.dataList n t).bare) :=
  restores_name.bind fun _ hn => (restores_string ht).bind fun _ ht =>
    restores_skipKind.last fun _ _ => by simp [Decl.bare, hn, ht]

theorem restores_imageList {format : Option Name} (ht : t.kind = .string) :
    (imageListDecl stop).Restores stop C
      (n.token :: t.bare :: (format.toList.map Name.token ++ [semicolon]))
      (·.bare = (Decl.imageList n t format).bare) := by
  refine restores_name.bind fun _ hn => (restores_string ht).bind fun _ ht => ?_
  cases format
  case none =>
    exact .upcoming rfl fun _ hs => .ite_neg (fun hk => nomatch (startsWith_iff hs).mp hk) <|
      Restores.bind (.pure rfl) fun _ hf => restores_skipKind.last fun _ _ => by
        simp [Decl.bare, hn, ht, ← hf]
  case some f =>
    have hf : (some <$> name stop "image format").Restores stop (fun _ => True) [f.token]
        (·.map Name.bare = some f.bare) := restores_name.last fun _ hf => congrArg some hf
    exact .upcoming rfl fun _ hs => .ite_pos ((startsWith_iff hs).mpr rfl) <|
      hf.bind fun _ hf => restores_skipKind.last fun _ _ => by simp [Decl.bare, hn, ht, hf]

-- Names come first, unless a token comes at once that ends them.
theorem restores_parameters {next : List Name → Reads α} {Q : α → Prop} {stops : List Lexeme → Bool}
    (ht : t.kind ≠ .comma) (hs : ∀ s, (current stop s).bare = t → stops s)
    (hn : ∀ s (n : Name), (current stop s).bare = n.token → ¬stops s)
    (h : ∀ ps, ps.map Name.bare = params.map Name.bare →
      (next ps).Restores stop C (t :: ts) Q) :
    (Reads.upcoming >>= fun s => parameters stop (stops s) >>= next).Restores stop C
      (series (params.map Name.token) ++ t :: ts) Q := by
  cases params
  case nil =>
    refine .upcoming rfl fun s ht => ?_
    simp only [parameters, hs s ht, if_true]
    exact Restores.bind (.pure rfl) fun _ hp => h _ (hp ▸ rfl)
  case cons n ns =>
    refine .upcoming rfl fun s ht' => ?_
    simp only [parameters, hn s n ht']
    have hm : (names stop).Restores stop (·.kind ≠ .comma) (series ((n :: ns).map Name.token)) _ :=
      restores_names nofun
    exact hm.before (t := t) rfl ht h

theorem restores_body (hr : Stmt.ReadableBody P ss) (hc : Stmt.BodyCommentFree ss) :
    (body stop).Restores stop C (lbrace :: Stmt.bodyTokens wrap ss)
      (·.map Stmt.bare = ss.map Stmt.bare) :=
  restores_block (restores_statements hr hc)

-- A token that ends the parameters of a macro.
theorem endsParameters_of_bare {s : List Lexeme} (h : (current stop s).bare = t) :
    (startsWith stop .lbrace s || (current stop s).isOp "->") =
      (decide (t.kind = .lbrace) || t.isOp "->") :=
  h ▸ rfl

theorem restores_function {warp : Bool} (hr : Stmt.ReadableBody P ss)
    (hc : Stmt.BodyCommentFree ss) : (functionDecl stop warp).Restores stop C
      (n.token :: (series (params.map Name.token) ++ lbrace :: Stmt.bodyTokens wrap ss))
      (·.bare = (Decl.function n params ss warp).bare) :=
  restores_name.bind fun _ hn => restores_parameters nofun (fun _ hs => (startsWith_iff hs).mpr rfl)
    (fun _ _ hs hk => nomatch (startsWith_iff hs).mp hk) fun _ hp =>
      (restores_body hr hc).last fun _ hb => by simp [Decl.bare, hn, hp, hb]

theorem restores_macroParameters {next : List Name → Reads α} {Q : α → Prop}
    (ht : t.kind = .lbrace ∨ t.isOp "->")
    (h : ∀ ps, ps.map Name.bare = params.map Name.bare →
      (next ps).Restores stop C (t :: ts) Q) :
    (Reads.upcoming >>= fun s => parameters stop
      (startsWith stop .lbrace s || (current stop s).isOp "->") >>= next).Restores stop C
      (series (params.map Name.token) ++ t :: ts) Q := by
  refine restores_parameters (fun hk => ?_) (fun s hs => ?_) (fun s n hs => ?_) h
  · simp [isOp, hk] at ht
  · rw [endsParameters_of_bare hs]
    simpa using ht
  · rw [endsParameters_of_bare hs]
    exact Bool.false_ne_true

theorem restores_exprMacro (he : e.Readable P) : (macroDecl stop).Restores stop C
    (n.token :: (series (params.map Name.token) ++ op "->" :: (e.operand wrap ++ [semicolon])))
    (·.bare = (Decl.exprMacro n params e).bare) :=
  restores_name.bind fun _ hn => restores_macroParameters (.inr rfl) fun _ hp =>
    .upcoming rfl fun _ hs => .ite_pos (isOp_of_bare hs) <| restores_skipOp.bind fun _ _ =>
      (restores_anyExpression he).before rfl (by decide) fun _ he =>
        restores_skipKind.last fun _ _ => by simp [Decl.bare, hn, hp, he]

theorem restores_blockMacro (hr : Stmt.ReadableBody P ss) (hc : Stmt.BodyCommentFree ss) :
    (macroDecl stop).Restores stop C
      (n.token :: (series (params.map Name.token) ++ lbrace :: Stmt.bodyTokens wrap ss))
      (·.bare = (Decl.blockMacro n params ss).bare) :=
  restores_name.bind fun _ hn => restores_macroParameters (.inl rfl) fun _ hp =>
    .upcoming rfl fun _ hs => .ite_neg (fun hk => nomatch (isOp_of_bare hs).symm.trans hk) <|
      .ite_pos ((startsWith_iff hs).mpr rfl) <| (restores_body hr hc).last fun _ hb => by
        simp [Decl.bare, hn, hp, hb]

theorem restores_script {event event' : Event} (he : event'.bare = event.bare)
    (hr : Stmt.ReadableBody P ss) (hc : Stmt.BodyCommentFree ss) {span span' : Span} :
    (script stop span' event').Restores stop C (lbrace :: Stmt.bodyTokens wrap ss)
      (·.bare = (Decl.event span event ss).bare) :=
  (restores_body hr hc).last fun _ hb => by simp [Decl.bare, he, hb]

theorem restores_stringEvent {event : Token → Event} (ht : t.kind = .string)
    (he : ∀ u, u.bare = t.bare → (event u).bare = (event t).bare)
    (hr : Stmt.ReadableBody P ss) (hc : Stmt.BodyCommentFree ss) {span span' : Span} :
    (stringEvent stop span' what event).Restores stop C
      (t.bare :: lbrace :: Stmt.bodyTokens wrap ss)
      (·.bare = (Decl.event span (event t) ss).bare) :=
  (restores_string ht).bind fun _ ht => restores_script (he _ ht) hr hc

theorem restores_thresholdEvent {event : Expr → Event} (h : e.Readable P)
    (he : ∀ e', e'.bare = e.bare → (event e').bare = (event e).bare)
    (hr : Stmt.ReadableBody P ss) (hc : Stmt.BodyCommentFree ss) {span span' : Span} :
    (thresholdEvent stop span' event).Restores stop C
      (e.operand wrap ++ lbrace :: Stmt.bodyTokens wrap ss)
      (·.bare = (Decl.event span (event e) ss).bare) :=
  (restores_anyExpression h).before rfl (by decide) fun _ h => restores_script (he _ h) hr hc

theorem gives_declaration {l : Lexeme} {s r : List Lexeme} {read : Reads Decl} {d : Decl}
    (hl : l.token.kind = .keyword) (hr : afterKeyword stop l.token = some read)
    (h : Gives (read s) d r) : Gives (declaration stop (l :: s)) d r := by
  simp only [declaration, hl, if_true, hr]
  exact h.map (fun _ hv => hv) fun _ => rfl

theorem restores_declaration {x : String} {read : Span → Reads Decl} {Q : Decl → Prop}
    (hr : ∀ span, afterKeyword stop ⟨.keyword, x, span⟩ = some (read span))
    (h : ∀ span, (read span).Restores stop C ts Q) :
    (Reads.ofAfter (declaration stop)).Restores stop C (keyword x :: ts) Q :=
  .cons (fun l _ => h l.token.span) fun l s d r hl _ hg => by
    have ⟨hk, ht⟩ := bare_eq_word.mp hl
    have hl : l.token = ⟨.keyword, x, l.token.span⟩ := by simp [← hk, ← ht]
    exact .ofAfter (gives_declaration hk (hl ▸ hr l.token.span) hg)

theorem restores_decl {d : Decl} (hr : d.Readable P) (hc : d.CommentFree) :
    (Reads.ofAfter (declaration stop)).Restores stop C (d.tokens wrap) (·.bare = d.bare) := by
  cases d
  case costumes => exact restores_declaration (fun _ => rfl) fun _ => restores_costumes hr.1 hr.2
  case vars =>
    exact restores_declaration (fun _ => rfl) fun _ => (restores_namesDecl hr).last fun _ hn =>
      congrArg Decl.vars hn
  case lists =>
    exact restores_declaration (fun _ => rfl) fun _ => (restores_namesDecl hr).last fun _ hn =>
      congrArg Decl.lists hn
  case dataList => exact restores_declaration (fun _ => rfl) fun _ => restores_dataList hr
  case imageList => exact restores_declaration (fun _ => rfl) fun _ => restores_imageList hr
  case function warp =>
    cases warp
    case true => exact restores_declaration (fun _ => rfl) fun _ => restores_function hr.2 hc
    case false =>
      exact restores_declaration (fun _ => rfl) fun _ => restores_skipKeyword.bind fun _ _ =>
        restores_function hr.2 hc
  case exprMacro => exact restores_declaration (fun _ => rfl) fun _ => restores_exprMacro hr
  case blockMacro => exact restores_declaration (fun _ => rfl) fun _ => restores_blockMacro hr hc
  case event kind ss =>
    obtain ⟨hk, hr⟩ := hr
    cases kind
    case flag => exact restores_declaration (fun _ => rfl) fun _ => restores_script rfl hr hc
    case click => exact restores_declaration (fun _ => rfl) fun _ => restores_script rfl hr hc
    case clone => exact restores_declaration (fun _ => rfl) fun _ => restores_script rfl hr hc
    case message =>
      exact restores_declaration (fun _ => rfl) fun _ =>
        restores_stringEvent hk (fun _ ht => by simp [Event.bare, ht]) hr hc
    case key =>
      exact restores_declaration (fun _ => rfl) fun _ =>
        restores_stringEvent hk (fun _ ht => by simp [Event.bare, ht]) hr hc
    case backdrop =>
      exact restores_declaration (fun _ => rfl) fun _ =>
        restores_stringEvent hk (fun _ ht => by simp [Event.bare, ht]) hr hc
    case loudness =>
      exact restores_declaration (fun _ => rfl) fun _ =>
        restores_thresholdEvent hk (fun _ he => by simp [Event.bare, he]) hr hc
    case timer =>
      exact restores_declaration (fun _ => rfl) fun _ =>
        restores_thresholdEvent hk (fun _ he => by simp [Event.bare, he]) hr hc
  case docComment => exact absurd hc id

end Forms

end Parser

end BlockLang
