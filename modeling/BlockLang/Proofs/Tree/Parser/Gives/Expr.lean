import BlockLang.Proofs.Tree.Parser.Gives.Basic

/-!
What each function of the parser for expressions gives, so that nothing else has to look into it.
-/

namespace BlockLang

namespace Parser

variable {stop : Token} {s q r : List Lexeme} {l d b m : Lexeme} {least : Nat}
  {e left right target i : Expr} {es : List Expr}

theorem gives_expression (hu : Gives (unary stop s) left q)
    (ho : Gives (operators stop least left q) e r) : Gives (expression stop least s) e r := by
  rw [expression]
  apply hu.bind
  intro _
  exact ho.same (fun _ => rfl) fun _ => rfl

theorem gives_operators {op : BinaryOp} (hl : BinaryOp.ofToken? l.token = some op)
    (hp : least ≤ op.precedence) (hr : Gives (expression stop (op.precedence + 1) s) right q)
    (ho : Gives (operators stop least (.binary op l.token.span left right) q) e r) :
    Gives (operators stop least left (l :: s)) e r := by
  rw [operators]
  simp only [hl, if_neg (Nat.not_lt.mpr hp)]
  apply hr.bind
  intro _
  exact ho.same (fun _ => rfl) fun _ => rfl

theorem gives_operators_end
    (h : ∀ op, BinaryOp.ofToken? (current stop s) = some op → op.precedence < least) :
    Gives (operators stop least left s) left s := by
  rw [operators.eq_def]
  split
  case h_1 => exact .ok rfl rfl
  case h_2 =>
    split
    case h_1 op hl =>
      rw [if_pos (h op hl)]
      exact .ok rfl rfl
    case h_2 => exact .ok rfl rfl

theorem gives_unary {op : UnaryOp} (hl : UnaryOp.ofToken? l.token = some op)
    (h : Gives (unary stop s) e r) : Gives (unary stop (l :: s)) (.unary op l.token.span e) r := by
  rw [unary]
  simp only [hl]
  exact h.last (fun _ hv => congrArg _ hv) fun _ => rfl

theorem gives_postfixed (hp : Gives (primary stop s) target q)
    (hi : Gives (indices stop target q) e r) : Gives (postfixed stop s) e r := by
  rw [postfixed]
  apply hp.bind
  intro _
  exact hi.same (fun _ => rfl) fun _ => rfl

theorem gives_indices (hl : l.token.kind = .lbracket) (he : Gives (expression stop 1 s) i (b :: q))
    (hb : b.token.kind = .rbracket)
    (hi : Gives (indices stop (.index l.token.span target i) q) e r) :
    Gives (indices stop target (l :: s)) e r := by
  rw [indices, if_pos hl]
  apply he.bind
  intro _
  apply (gives_expectKind hb).bind
  intro _
  exact hi.same (fun _ => rfl) fun _ => rfl

theorem gives_indices_end (h : (current stop s).kind ≠ .lbracket) :
    Gives (indices stop target s) target s := by
  rw [indices.eq_def]
  split
  case h_1 => exact .ok rfl rfl
  case h_2 =>
    rw [current_cons] at h
    rw [if_neg h]
    exact .ok rfl rfl

theorem gives_literal (hl : l.token.kind = .number ∨ l.token.kind = .float ∨
    (l.token.kind = .keyword ∧ (l.token.text = "true" ∨ l.token.text = "false")) ∨
    (l.token.kind = .string ∧ (current stop s).kind ≠ .dot)) :
    Gives (primary stop (l :: s)) (.literal l.token) s := by
  rw [primary.eq_def]
  dsimp only
  rcases hl with hk | hk | ⟨hk, ht⟩ | ⟨hk, hs⟩
  · simp only [hk]
    exact .ok rfl rfl
  · simp only [hk]
    exact .ok rfl rfl
  · simp only [hk, ht, Bool.or_eq_true, decide_eq_true_eq, if_true]
    exact .ok rfl rfl
  · simp only [hk]
    split
    case h_1 =>
      rw [current_cons] at hs
      rw [if_neg hs]
      exact .ok rfl rfl
    case h_2 => exact .ok rfl rfl

theorem gives_argument (hl : l.token.kind = .argument) :
    Gives (primary stop (l :: s)) (.argument l.token) s := by
  rw [primary.eq_def]
  simp only [hl]
  exact .ok rfl rfl

theorem gives_sensingOf (hl : l.token.kind = .string) (hd : d.token.kind = .dot)
    (hm : m.token.kind = .ident) :
    Gives (primary stop (l :: d :: m :: s))
      (.sensingOf l.token ⟨m.token.text, m.token.span⟩) s := by
  rw [primary.eq_def]
  simp only [hl, hd, if_true]
  exact (gives_name hm).last (fun _ hv => congrArg _ hv) fun _ => rfl

theorem gives_macroVar (hl : l.token.kind = .macroVar) (hs : (current stop s).kind ≠ .lparen) :
    Gives (primary stop (l :: s)) (.macroVar l.token.macroName) s := by
  rw [primary.eq_def]
  simp only [hl, startsWith, hs, decide_false, Bool.false_eq_true, if_false]
  exact .ok rfl rfl

theorem gives_macroCall (hl : l.token.kind = .macroVar) (hs : (current stop s).kind = .lparen)
    (ha : Gives (arguments stop s) es r) :
    Gives (primary stop (l :: s)) (.macroCall l.token.macroName es) r := by
  rw [primary.eq_def]
  simp only [hl, startsWith, hs, decide_true, if_true]
  exact ha.last (fun _ hv => congrArg _ hv) fun _ => rfl

theorem gives_var (hl : l.token.kind = .ident) (hs : (current stop s).kind ≠ .lparen)
    (hd : (current stop s).kind ≠ .dot) :
    Gives (primary stop (l :: s)) (.var ⟨l.token.text, l.token.span⟩) s := by
  rw [primary.eq_def]
  simp only [hl, startsWith, hs, decide_false, Bool.false_eq_true, if_false]
  split
  case h_1 =>
    rw [current_cons] at hd
    rw [if_neg hd]
    exact .ok rfl rfl
  case h_2 => exact .ok rfl rfl

theorem gives_reporter (hl : l.token.kind = .ident) (hs : (current stop s).kind = .lparen)
    (ha : Gives (arguments stop s) es r) :
    Gives (primary stop (l :: s)) (.reporter ⟨l.token.text, l.token.span⟩ es) r := by
  rw [primary.eq_def]
  simp only [hl, startsWith, hs, decide_true, if_true]
  exact ha.last (fun _ hv => congrArg _ hv) fun _ => rfl

theorem gives_query (hl : l.token.kind = .ident) (hd : d.token.kind = .dot)
    (h : Gives (listQuery stop ⟨l.token.text, l.token.span⟩ s) e r) :
    Gives (primary stop (l :: d :: s)) e r := by
  rw [primary.eq_def]
  simp only [hl, startsWith, current, hd, if_true]
  exact h.same (fun _ => rfl) fun _ => rfl

theorem gives_group (hl : l.token.kind = .lparen) (he : Gives (expression stop 1 s) e (b :: q))
    (hb : b.token.kind = .rparen) : Gives (primary stop (l :: s)) e q := by
  rw [primary.eq_def]
  simp only [hl]
  apply he.bind
  intro _
  exact (gives_expectKind hb).last (fun _ _ => rfl) fun _ => rfl

theorem gives_listLength {list : Name} (hm : m.token.kind = .ident) (ht : m.token.text = "length")
    (hs : (current stop s).kind ≠ .lparen) :
    Gives (listQuery stop list (m :: s)) (.listLength list) s := by
  have hn : Gives (noArguments stop s) () s := by
    unfold noArguments
    split
    case h_1 => exact .ok rfl rfl
    case h_2 =>
      rw [current_cons] at hs
      rw [if_neg hs]
      exact .ok rfl rfl
  rw [listQuery]
  apply (gives_expectKind hm).bind
  intro _
  simp only [ht]
  exact hn.last (fun _ _ => rfl) fun _ => rfl

theorem gives_methodArgument (hd : d.token.kind = .lparen)
    (he : Gives (expression stop 1 s) e (b :: q)) (hb : b.token.kind = .rparen) :
    Gives (methodArgument stop (d :: s)) e q := by
  rw [methodArgument]
  apply (gives_expectKind hd).bind
  intro _
  apply he.bind
  intro _
  exact (gives_expectKind hb).last (fun _ _ => rfl) fun _ => rfl

theorem gives_method {make : Name → Expr → Expr} {list : Name} (hm : m.token.kind = .ident)
    (ht : (m.token.text, make) ∈ [("index", Expr.listIndex), ("contains", Expr.listContains)])
    (h : Gives (methodArgument stop s) e r) :
    Gives (listQuery stop list (m :: s)) (make list e) r := by
  rw [listQuery]
  apply (gives_expectKind hm).bind
  intro _
  simp only [List.mem_cons, Prod.mk.injEq, List.not_mem_nil, or_false] at ht
  rcases ht with ⟨ht, rfl⟩ | ⟨ht, rfl⟩ <;> simp only [ht] <;>
    exact h.last (fun _ hv => congrArg _ hv) fun _ => rfl

theorem gives_expressions (he : Gives (expression stop 1 s) e q)
    (hm : Gives (moreExpressions stop q) es r) : Gives (expressions stop s) (e :: es) r := by
  rw [expressions]
  apply he.bind
  intro _
  exact hm.last (fun _ hv => congrArg _ hv) fun _ => rfl

theorem gives_moreExpressions (hl : l.token.kind = .comma) (h : Gives (expressions stop s) es r) :
    Gives (moreExpressions stop (l :: s)) es r := by
  rw [moreExpressions, if_pos hl]
  exact h.same (fun _ => rfl) fun _ => rfl

theorem gives_moreExpressions_end (h : (current stop s).kind ≠ .comma) :
    Gives (moreExpressions stop s) [] s := by
  rw [moreExpressions.eq_def]
  split
  case h_1 => exact .ok rfl rfl
  case h_2 =>
    rw [current_cons] at h
    rw [if_neg h]
    exact .ok rfl rfl

theorem gives_noArguments (hl : l.token.kind = .lparen) (hb : b.token.kind = .rparen) :
    Gives (arguments stop (l :: b :: s)) [] s := by
  rw [arguments]
  apply (gives_expectKind hl).bind
  intro _
  simp only [startsWith, current, hb, decide_true, if_true]
  exact (gives_expectKind hb).last (fun _ _ => rfl) fun _ => rfl

-- What an operand starts with is no operator.
theorem unaryOp_of_primary (h : Gives (primary stop (l :: s)) e r) :
    UnaryOp.ofToken? l.token = none := by
  have ⟨_, h, _⟩ := h
  rw [primary.eq_def] at h
  cases hk : l.token.kind
  case keyword =>
    simp only [hk] at h
    split at h
    case isTrue ht =>
      have ht : l.token.text ≠ "not" := by
        rintro he
        simp [he] at ht
      simp [UnaryOp.ofToken?, Token.isOp, Token.isKeyword, hk, ht]
    case isFalse => contradiction
  case op => simp [hk, fail] at h
  all_goals simp [UnaryOp.ofToken?, Token.isOp, Token.isKeyword, hk]

theorem gives_primary_of_postfixed (h : Gives (postfixed stop s) e r) :
    ∃ x q, Gives (primary stop s) x q := by
  obtain ⟨_, h, _⟩ := h
  rw [postfixed] at h
  obtain ⟨y, h, _⟩ := bind_eq_ok.mp h
  exact ⟨y.value, y.rest, y, h, rfl, rfl⟩

theorem gives_unary_of_postfixed (h : Gives (postfixed stop s) e r) : Gives (unary stop s) e r := by
  obtain ⟨_, _, hp⟩ := gives_primary_of_postfixed h
  cases s
  case nil =>
    obtain ⟨_, hp, _⟩ := hp
    rw [primary] at hp
    contradiction
  case cons =>
    rw [unary]
    simp only [unaryOp_of_primary hp]
    exact h

-- The kinds of tokens that a parser looks for where an expression may start.
theorem kind_of_expression (h : Gives (expression stop least s) e r) :
    (current stop s).kind ∉ [.rparen, .lbracket, .rbracket, .semicolon] := by
  obtain ⟨_, h, _⟩ := h
  rw [expression] at h
  obtain ⟨x, h, _⟩ := bind_eq_ok.mp h
  clear * - h
  cases s
  case nil =>
    rw [unary] at h
    contradiction
  case cons l s =>
    rw [unary] at h
    intro hk
    simp only [current_cons, List.mem_cons, List.not_mem_nil, or_false] at hk
    have ho : UnaryOp.ofToken? l.token = none := by
      rcases hk with hk | hk | hk | hk <;>
        simp [UnaryOp.ofToken?, Token.isOp, Token.isKeyword, hk]
    simp only [ho] at h
    rw [postfixed] at h
    obtain ⟨_, h, _⟩ := bind_eq_ok.mp h
    rw [primary.eq_def] at h
    rcases hk with hk | hk | hk | hk <;> simp [hk, fail] at h

theorem kind_of_expressions (h : Gives (expressions stop s) es r) :
    (current stop s).kind ∉ [.rparen, .lbracket, .rbracket, .semicolon] := by
  obtain ⟨_, h, _⟩ := h
  rw [expressions] at h
  obtain ⟨y, h, _⟩ := bind_eq_ok.mp h
  exact kind_of_expression (e := y.value) (r := y.rest) ⟨y, h, rfl, rfl⟩

theorem gives_arguments (hl : l.token.kind = .lparen) (h : Gives (expressions stop s) es (b :: q))
    (hb : b.token.kind = .rparen) : Gives (arguments stop (l :: s)) es q := by
  have hs : startsWith stop .rparen s = false := by
    have hk := kind_of_expressions h
    simp_all [startsWith]
  rw [arguments]
  apply (gives_expectKind hl).bind
  intro _
  simp only [hs, Bool.false_eq_true, if_false]
  apply h.bind
  intro _
  exact (gives_expectKind hb).last (fun _ _ => rfl) fun _ => rfl

end Parser

end BlockLang
