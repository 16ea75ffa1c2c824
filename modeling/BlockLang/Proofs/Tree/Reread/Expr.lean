import BlockLang.Proofs.Tree.Parser.Expr
import BlockLang.Proofs.Tree.Parser.Gives.Expr
import BlockLang.Proofs.Tree.Reread.Restores

/-!
Expressions are read again from the tokens that they are written with.
-/

namespace BlockLang

open Token

theorem Expr.one_le_level {e : Expr} : 1 ≤ e.level := by
  unfold level
  split
  case h_1 => exact Nat.le_add_left ..
  all_goals decide

namespace Parser

-- What comes after an operand does not make a call or a query of it.
structure Apart (stop : Token) (rest : List Lexeme) : Prop where
  lparen : (current stop rest).kind ≠ .lparen
  dot    : (current stop rest).kind ≠ .dot

-- What comes after an expression does not go on with it.
structure Ends (stop : Token) (rest : List Lexeme) : Prop extends Apart stop rest where
  lbracket : (current stop rest).kind ≠ .lbracket
  operator : BinaryOp.ofToken? (current stop rest) = none

section Words

variable {t : Token} {n : Name} {stop : Token} {rest : List Lexeme} {l : Lexeme}

theorem ofToken?_unary {op : UnaryOp} (h : t.bare = op.token) : UnaryOp.ofToken? t = some op := by
  have ht : UnaryOp.ofToken? t = UnaryOp.ofToken? t.bare := rfl
  rw [ht, h]
  cases op <;> rfl

theorem ofToken?_binary {op : BinaryOp} (h : t.bare = op.token) :
    BinaryOp.ofToken? t = some op := by
  have ht : BinaryOp.ofToken? t = BinaryOp.ofToken? t.bare := rfl
  rw [ht, h]
  cases op <;> rfl

theorem kind_binary {op : BinaryOp} (h : t.bare = op.token) : t.kind = .op ∨ t.kind = .keyword := by
  have ht : t.kind = t.bare.kind := rfl
  rw [ht, h]
  cases op <;> simp [BinaryOp.token, Token.op, Token.keyword, word]

theorem macroName_bare (h : t.bare = n.macroToken) (hn : n.IsMacro) :
    t.macroName.bare = n.bare := by
  have ht : t.text = n.text ++ "!" := congrArg Token.text h
  have hd : Text.dropEndWhile (· = '!') t.text.toList = n.text.toList := by
    have hm : n.text.toList.reverse.dropWhile (· = '!') = n.text.toList.reverse := by
      have hn : n.text.toList.reverse.head? ≠ some '!' := by simpa [Name.IsMacro] using hn
      cases hc : n.text.toList.reverse
      case nil => rfl
      case cons c cs =>
        have hn : c ≠ '!' := by simpa [hc] using hn
        simp [hn]
    simp [Text.dropEndWhile, ht, hm]
  simp only [Name.bare, Token.macroName, hd, String.ofList_toList]

theorem Apart.of_binary {op : BinaryOp} (h : l.token.bare = op.token) :
    Apart stop (l :: rest) := by
  rcases kind_binary h with hk | hk <;> exact ⟨by simp [hk], by simp [hk]⟩

theorem Apart.of_kind (h : l.token.kind = .lbracket) : Apart stop (l :: rest) :=
  ⟨by simp [h], by simp [h]⟩

theorem Ends.of_not_continues (h : ¬(current stop rest).Continues) : Ends stop rest := by
  simp only [Continues, not_or, Bool.not_eq_true, Option.isSome_eq_false_iff,
    Option.isNone_iff_eq_none] at h
  exact ⟨⟨h.2.2.1, h.2.2.2⟩, h.2.1, h.1⟩

theorem Ends.of_bare {t : Token} (h : l.token.bare = t) (ht : ¬t.Continues) :
    Ends stop (l :: rest) :=
  .of_not_continues fun hl => ht (h ▸ hl)

end Words

-- What is read from lexemes in front of others, if its operators bind at least as tightly as
-- `level`. Reading does not stop after them: what comes next is tried as an index, and then as an
-- operator.
structure Reread (stop : Token) (level : Nat) (s rest : List Lexeme) (e : Expr) : Prop where
  indices   : 8 ≤ level → ∀ {x r}, Gives (indices stop e rest) x r →
    Gives (postfixed stop (s ++ rest)) x r
  unary     : 7 ≤ level → (current stop rest).kind ≠ .lbracket →
    Gives (unary stop (s ++ rest)) e rest
  operators : (current stop rest).kind ≠ .lbracket →
    (∀ op, BinaryOp.ofToken? (current stop rest) = some op → op.precedence ≤ level) →
    ∀ {least x r}, least ≤ level → Gives (operators stop least e rest) x r →
      Gives (expression stop least (s ++ rest)) x r

namespace Reread

variable {stop : Token} {level level' least : Nat} {s rest : List Lexeme} {e : Expr}

theorem mono (h : Reread stop level s rest e) (hl : level' ≤ level) :
    Reread stop level' s rest e where
  indices h8         := h.indices (Nat.le_trans h8 hl)
  unary h7           := h.unary (Nat.le_trans h7 hl)
  operators hb hp _ _ _ hm :=
    h.operators hb (fun op ho => Nat.le_trans (hp op ho) hl) (Nat.le_trans hm hl)

theorem of_unary (hl : level ≤ 7)
    (h : (current stop rest).kind ≠ .lbracket → Gives (Parser.unary stop (s ++ rest)) e rest) :
    Reread stop level s rest e where
  indices h8          := absurd (Nat.le_trans h8 hl) (by decide)
  unary _             := h
  operators hb _ _ _ _ _ ho := gives_expression (h hb) ho

theorem of_indices {t : List Lexeme} (h : ∀ {x r}, Gives (Parser.indices stop e rest) x r →
    Gives (postfixed stop t) x r) (ht : s ++ rest = t) : Reread stop level s rest e := by
  subst ht
  have hu (hb : (current stop rest).kind ≠ .lbracket) :
      Gives (Parser.unary stop (s ++ rest)) e rest :=
    gives_unary_of_postfixed (h (gives_indices_end hb))
  exact {
    indices   := fun _ => h
    unary     := fun _ => hu
    operators := fun hb _ _ _ _ _ ho => gives_expression (hu hb) ho
  }

-- Operators group to the left: what follows a right operand does not become part of it.
theorem of_binary {op : BinaryOp} {o : Lexeme} {left right : Expr} {s' : List Lexeme}
    (ho : o.token.bare = op.token) (hl : Reread stop op.precedence s (o :: (s' ++ rest)) left)
    (hr : Reread stop (op.precedence + 1) s' rest right) :
    Reread stop op.precedence (s ++ o :: s') rest (.binary op o.token.span left right) where
  indices h8 := absurd (Nat.le_trans h8 op.precedence_le) (by decide)
  unary h7 := absurd (Nat.le_trans h7 op.precedence_le) (by decide)
  operators hb hp least x r hm hx := by
    have hk : o.token.kind ≠ .lbracket := by rcases kind_binary ho with hk | hk <;> simp [hk]
    have ho := ofToken?_binary ho
    have hs : ∀ op', BinaryOp.ofToken? o.token = some op' → op'.precedence ≤ op.precedence := by
      intro op' ho'
      exact Option.some.inj (ho.symm.trans ho') ▸ Nat.le_refl _
    have hright : Gives (expression stop (op.precedence + 1) (s' ++ rest)) right rest := by
      apply hr.operators hb (fun op' ho' => Nat.le_succ_of_le (hp op' ho')) (Nat.le_refl _)
      exact gives_operators_end fun op' ho' => Nat.lt_succ_of_le (hp op' ho')
    rw [List.append_assoc]
    exact hl.operators hk hs hm (gives_operators ho hm hright hx)

theorem of_primary {t : List Lexeme} (h : Gives (primary stop t) e rest) (ht : s ++ rest = t) :
    Reread stop level s rest e :=
  .of_indices (gives_postfixed h) ht

-- An expression as a whole.
theorem expression (h : Reread stop level s rest e) (hl : 1 ≤ level)
    (hb : (current stop rest).kind ≠ .lbracket)
    (ho : BinaryOp.ofToken? (current stop rest) = none) :
    Gives (expression stop 1 (s ++ rest)) e rest := by
  apply h.operators hb (by simp [ho]) hl
  exact gives_operators_end (by simp [ho])

end Reread

section Exprs

variable {P : String → Prop} {wrap : Bool} {stop : Token}

theorem Reread.ends {s rest : List Lexeme} {e : Expr} {level : Nat}
    (h : Reread stop level s rest e) (hl : 1 ≤ level) (hr : Ends stop rest) :
    Gives (Parser.expression stop 1 (s ++ rest)) e rest :=
  h.expression hl hr.lbracket hr.operator

-- What is read from an expression without parentheses around it.
def Rereads (wrap : Bool) (stop : Token) (e : Expr) : Prop :=
  ∀ s rest, Spells s (e.bareTokens wrap) → Apart stop rest →
    ∃ e', e'.bare = e.bare ∧ Reread stop e.level s rest e'

-- What is read from expressions with commas between them.
def ItemsReread (wrap : Bool) (stop : Token) (least : Nat) (es : List Expr) : Prop :=
  ∀ s rest, es ≠ [] → Spells s (Expr.items wrap least es) → Ends stop rest →
    (current stop rest).kind ≠ .comma →
    ∃ es', es'.map Expr.bare = es.map Expr.bare ∧ Gives (expressions stop (s ++ rest)) es' rest

-- With or without parentheses around them, the same tokens are read.
theorem Rereads.tokens {e : Expr} {s rest : List Lexeme} (h : Rereads wrap stop e) (least : Nat)
    (hs : Spells s (e.tokens wrap least)) (hr : Apart stop rest) :
    ∃ e', e'.bare = e.bare ∧ Reread stop least s rest e' := by
  unfold Expr.tokens grouped at hs
  split at hs
  case isTrue =>
    simp only [spells_cons, spells_append, spells_nil] at hs
    obtain ⟨l, _, rfl, hl, s, _, rfl, hs, b, _, rfl, hb, rfl⟩ := hs
    have hr : Ends stop (b :: rest) := .of_bare hb (by decide)
    have ⟨e', he, hs⟩ := h _ _ hs hr.toApart
    have hg := gives_group (bare_eq_word.mp hl).1 (hs.ends e.one_le_level hr) (bare_eq_word.mp hb).1
    exact ⟨e', he, .of_primary hg (by simp)⟩
  case isFalse hw =>
    have ⟨e', he, hs⟩ := h _ _ hs hr
    exact ⟨e', he, hs.mono (by simp_all)⟩

theorem Rereads.expression {e : Expr} {s rest : List Lexeme} (h : Rereads wrap stop e)
    {least : Nat} (hl : 1 ≤ least) (hs : Spells s (e.tokens wrap least)) (hr : Ends stop rest) :
    ∃ e', e'.bare = e.bare ∧ Gives (Parser.expression stop 1 (s ++ rest)) e' rest := by
  have ⟨e', he, hs⟩ := h.tokens least hs hr.toApart
  exact ⟨e', he, hs.ends hl hr⟩

-- An expression in front of a token that ends it.
theorem Rereads.before {e : Expr} {s : List Lexeme} {b : Lexeme} {t : Token}
    (h : Rereads wrap stop e) {least : Nat} (hl : 1 ≤ least) (hs : Spells s (e.tokens wrap least))
    (rest : List Lexeme) (hb : b.token.bare = t) (ht : ¬t.Continues) :
    ∃ e', e'.bare = e.bare ∧ Gives (Parser.expression stop 1 (s ++ b :: rest)) e' (b :: rest) :=
  h.expression hl hs (.of_bare hb ht)

-- A list is asked for something with one argument.
theorem Rereads.method {e : Expr} {n : Name} {x : String} {make : Name → Expr → Expr}
    {level : Nat} {s rest : List Lexeme} (h : Rereads wrap stop e)
    (hx : (x, make) ∈ [("index", Expr.listIndex), ("contains", Expr.listContains)])
    (hs : Spells s (n.token :: dot :: ident x :: lparen :: (e.tokens wrap 1 ++ [rparen]))) :
    ∃ e', e'.bare = (make n e).bare ∧ Reread stop level s rest e' := by
  simp only [spells_cons, spells_append, spells_nil] at hs
  obtain ⟨l, _, rfl, hl, d, _, rfl, hd, m, _, rfl, hm, p, _, rfl, hp, s, _, rfl, hs, b, _, rfl, hb,
    rfl⟩ := hs
  have ⟨hm, ht⟩ := bare_eq_word.mp hm
  have ⟨e', he, hs⟩ := h.before (Nat.le_refl 1) hs rest hb (by decide)
  have ha := gives_methodArgument (bare_eq_word.mp hp).1 hs (bare_eq_word.mp hb).1
  have hq := gives_query (bare_eq_word.mp hl).1 (bare_eq_word.mp hd).1
    (gives_method hm (ht ▸ hx) ha)
  refine ⟨make ⟨l.token.text, l.token.span⟩ e', ?_, .of_primary hq (by simp)⟩
  simp only [List.mem_cons, Prod.mk.injEq, List.not_mem_nil, or_false] at hx
  rcases hx with ⟨_, rfl⟩ | ⟨_, rfl⟩ <;> simp [Expr.bare, he, name_bare hl]

theorem ItemsReread.arguments {es : List Expr} {least : Nat} (h : ItemsReread wrap stop least es)
    {p b : Lexeme} {s : List Lexeme} (rest : List Lexeme) (hp : p.token.kind = .lparen)
    (hs : Spells s (Expr.items wrap least es)) (hb : b.token.bare = rparen) :
    ∃ es', es'.map Expr.bare = es.map Expr.bare ∧
      Gives (arguments stop (p :: (s ++ b :: rest))) es' rest := by
  cases es
  case nil =>
    obtain rfl := spells_nil.mp hs
    exact ⟨[], rfl, gives_noArguments hp (bare_eq_word.mp hb).1⟩
  case cons =>
    have hr : Ends stop (b :: rest) := .of_bare hb (by decide)
    have hb := (bare_eq_word.mp hb).1
    have ⟨es', he, hs⟩ := h s _ nofun hs hr (by simp [hb])
    exact ⟨es', he, gives_arguments hp hs hb⟩

-- By induction on the expression. A left operand is read at the level of its operator and a right
-- one above it, with or without parentheses.
mutual

theorem reread_bareTokens : ∀ {e : Expr}, e.Readable P → Rereads wrap stop e
  | .literal t, he, s, rest, hs, hr => by
    obtain ⟨l, rfl, hl⟩ := spells_singleton.mp hs
    have ⟨hk, ht⟩ := bare_eq_bare.mp hl
    refine ⟨.literal l.token, congrArg Expr.literal hl, .of_primary (gives_literal ?_) rfl⟩
    rw [hk, ht]
    exact he.imp_right (Or.imp_right fun h => h.symm.imp_right fun h => ⟨h, hr.dot⟩)
  | .argument t, he, s, rest, hs, hr => by
    obtain ⟨l, rfl, hl⟩ := spells_singleton.mp hs
    have ⟨hk, _⟩ := bare_eq_bare.mp hl
    exact ⟨.argument l.token, congrArg Expr.argument hl,
      .of_primary (gives_argument (hk.trans he)) rfl⟩
  | .var n, he, s, rest, hs, hr => by
    obtain ⟨l, rfl, hl⟩ := spells_singleton.mp hs
    have hp := gives_var (bare_eq_word.mp hl).1 hr.lparen hr.dot
    exact ⟨.var _, congrArg Expr.var (name_bare hl), .of_primary hp rfl⟩
  | .macroVar n, he, s, rest, hs, hr => by
    obtain ⟨l, rfl, hl⟩ := spells_singleton.mp hs
    have hp := gives_macroVar (bare_eq_word.mp hl).1 hr.lparen
    exact ⟨.macroVar _, congrArg Expr.macroVar (macroName_bare hl he), .of_primary hp rfl⟩
  | .macroCall n args, ⟨hn, ha⟩, s, rest, hs, hr => by
    simp only [Expr.bareTokens, spells_cons, spells_append, spells_nil] at hs
    obtain ⟨l, _, rfl, hl, p, _, rfl, hp, s, _, rfl, hs, b, _, rfl, hb, rfl⟩ := hs
    have hp := (bare_eq_word.mp hp).1
    have ⟨es, he, ha⟩ := (reread_items (Nat.le_refl 1) ha).arguments rest hp hs hb
    have hc : Gives (primary stop (l :: p :: (s ++ b :: rest))) _ rest :=
      gives_macroCall (bare_eq_word.mp hl).1 hp ha
    refine ⟨.macroCall l.token.macroName es, ?_, .of_primary hc (by simp)⟩
    simp [Expr.bare, he, macroName_bare hl hn]
  | .reporter n args, ha, s, rest, hs, hr => by
    simp only [Expr.bareTokens, spells_cons, spells_append, spells_nil] at hs
    obtain ⟨l, _, rfl, hl, p, _, rfl, hp, s, _, rfl, hs, b, _, rfl, hb, rfl⟩ := hs
    have hp := (bare_eq_word.mp hp).1
    have ⟨es, he, ha⟩ := (reread_items (Nat.le_refl 1) ha).arguments rest hp hs hb
    have hc : Gives (primary stop (l :: p :: (s ++ b :: rest))) _ rest :=
      gives_reporter (bare_eq_word.mp hl).1 hp ha
    refine ⟨.reporter ⟨l.token.text, l.token.span⟩ es, ?_, .of_primary hc (by simp)⟩
    simp [Expr.bare, he, name_bare hl]
  | .unary op _ e, he, s, rest, hs, hr => by
    have he : e.Readable P := he
    have he : Rereads wrap stop e := reread_bareTokens he
    simp only [Expr.bareTokens, spells_cons] at hs
    obtain ⟨l, s, rfl, hl, hs⟩ := hs
    have ⟨e', he, hs⟩ := he.tokens 7 hs hr
    refine ⟨.unary op l.token.span e', by simp [Expr.bare, he], .of_unary (Nat.le_refl 7) ?_⟩
    exact fun hb => gives_unary (ofToken?_unary hl) (hs.unary (Nat.le_refl 7) hb)
  | .binary op _ left right, ⟨hl, hr⟩, s, rest, hs, hr' => by
    have hl : Rereads wrap stop left := reread_bareTokens hl
    have hr : Rereads wrap stop right := reread_bareTokens hr
    simp only [Expr.bareTokens, BinaryOp.level_eq_precedence, spells_append, spells_cons] at hs
    obtain ⟨s, _, rfl, hs, o, s', rfl, ho, hs'⟩ := hs
    have ho' : Apart stop (o :: (s' ++ rest)) := .of_binary ho
    have ⟨left', hl, hs⟩ := hl.tokens op.precedence hs ho'
    have ⟨right', hr, hs'⟩ := hr.tokens (op.precedence + 1) hs' hr'
    refine ⟨.binary op o.token.span left' right', by simp [Expr.bare, hl, hr], ?_⟩
    exact (Reread.of_binary ho hs hs').mono (Nat.le_of_eq BinaryOp.level_eq_precedence)
  | .index _ e i, ⟨he, hi⟩, s, rest, hs, hr => by
    have he : Rereads wrap stop e := reread_bareTokens he
    have hi : Rereads wrap stop i := reread_bareTokens hi
    simp only [Expr.bareTokens, spells_append, spells_cons, spells_nil] at hs
    obtain ⟨s, _, rfl, hs, l, _, rfl, hl, s', _, rfl, hs', b, _, rfl, hb, rfl⟩ := hs
    have hl := (bare_eq_word.mp hl).1
    have ha : Apart stop (l :: (s' ++ b :: rest)) := .of_kind hl
    have ⟨e', he, hs⟩ := he.tokens 8 hs ha
    have ⟨i', hi, hs'⟩ := hi.before (Nat.le_refl 1) hs' rest hb (by decide)
    refine ⟨.index l.token.span e' i', by simp [Expr.bare, he, hi],
      .of_indices (t := s ++ l :: (s' ++ b :: rest)) (fun hx => ?_) (by simp)⟩
    exact hs.indices (Nat.le_refl 8) (gives_indices hl hs' (bare_eq_word.mp hb).1 hx)
  | .listLength n, he, s, rest, hs, hr => by
    simp only [Expr.bareTokens, spells_cons, spells_nil] at hs
    obtain ⟨l, _, rfl, hl, d, _, rfl, hd, m, _, rfl, hm, rfl⟩ := hs
    have ⟨hm, ht⟩ := bare_eq_word.mp hm
    have hq := gives_query (bare_eq_word.mp hl).1 (bare_eq_word.mp hd).1
      (gives_listLength hm ht hr.lparen)
    exact ⟨.listLength _, congrArg Expr.listLength (name_bare hl), .of_primary hq rfl⟩
  | .listIndex n e, ⟨_, he⟩, s, rest, hs, hr => by
    have he : Rereads wrap stop e := reread_bareTokens he
    exact he.method (by simp) hs
  | .listContains n e, ⟨_, he⟩, s, rest, hs, hr => by
    have he : Rereads wrap stop e := reread_bareTokens he
    exact he.method (by simp) hs
  | .sensingOf t n, he, s, rest, hs, hr => by
    simp only [Expr.bareTokens, spells_cons, spells_nil] at hs
    obtain ⟨l, _, rfl, hl, d, _, rfl, hd, m, _, rfl, hm, rfl⟩ := hs
    have ⟨hk, _⟩ := bare_eq_bare.mp hl
    refine ⟨.sensingOf l.token ⟨m.token.text, m.token.span⟩, ?_, .of_primary ?_ rfl⟩
    · simp [Expr.bare, hl, name_bare hm]
    · exact gives_sensingOf (hk.trans he) (bare_eq_word.mp hd).1 (bare_eq_word.mp hm).1

theorem reread_items {least : Nat} (hm : 1 ≤ least) : ∀ {es : List Expr}, Expr.ReadableAll P es →
    ItemsReread wrap stop least es
  | [], _, _, _, h, _, _, _ => absurd rfl h
  | [e], ⟨he, _⟩, s, rest, _, hs, hr, hc => by
    have he : Rereads wrap stop e := reread_bareTokens he
    rw [Expr.items_singleton] at hs
    have ⟨e', he, hs⟩ := he.expression hm hs hr
    exact ⟨[e'], congrArg (· :: []) he, gives_expressions hs (gives_moreExpressions_end hc)⟩
  | e :: e₁ :: es, ⟨he, hes⟩, s, rest, _, hs, hr, hc => by
    have he : Rereads wrap stop e := reread_bareTokens he
    rw [Expr.items_cons] at hs
    simp only [spells_append, spells_cons] at hs
    obtain ⟨s, _, rfl, hs, c, s', rfl, hl, hs'⟩ := hs
    have ⟨e', he, hs⟩ := he.before hm hs (s' ++ rest) hl (by decide)
    have ⟨es', hes, hs'⟩ := reread_items hm hes s' rest nofun hs' hr hc
    refine ⟨e' :: es', by simp [he, hes], ?_⟩
    rw [List.append_assoc]
    exact gives_expressions hs (gives_moreExpressions (bare_eq_word.mp hl).1 hs')

end

-- An expression that has been read is read again from the tokens that it is written with, and no
-- other tokens are. Parentheses stand only where the table of operators asks for them.
theorem expression_tokens {stop' : Token} {least : Nat} {source s rest : List Lexeme}
    {x : After source Expr} (h : expression stop' least source = .ok x)
    (hs : Spells s (x.value.tokens false 1)) (hr : ¬(current stop rest).Continues) :
    ∃ y, expression stop 1 (s ++ rest) = .ok y ∧ y.value.bare = x.value.bare ∧ y.rest = rest := by
  have ⟨he, _⟩ := readable_expression (P := fun _ => True) (fun _ _ _ => trivial) h
  have he : Rereads false stop x.value := reread_bareTokens he
  have ⟨e, he, y, hy, hv, hrest⟩ := he.expression (Nat.le_refl 1) hs (.of_not_continues hr)
  exact ⟨y, hy, (congrArg Expr.bare hv).trans he, hrest⟩

-- `a - (b - c) * not d`, and then the same with more parentheses.
def differences : List Token :=
  [ident "a", op "-", lparen, ident "b", op "-", ident "c", rparen, op "*", keyword "not",
    ident "d"]

def groupedDifferences : List Token :=
  [ident "a", op "-", lparen, lparen, ident "b", op "-", ident "c", rparen, op "*", lparen,
    keyword "not", lparen, ident "d", rparen, rparen, rparen]

theorem expression_tokens_differences :
    ∃ x, expression semicolon 1 (groupedDifferences.map Token.lexeme) = .ok x ∧
      Spells (differences.map Token.lexeme) (x.value.tokens false 1) ∧
      ∃ y, expression semicolon 1 (differences.map Token.lexeme ++ [semicolon.lexeme]) = .ok y ∧
        y.value.bare = x.value.bare ∧ y.rest = [semicolon.lexeme] := by
  have h : (expression semicolon 1 (groupedDifferences.map Token.lexeme)).toOption.map
      (fun x => x.value.tokens false 1) = some differences := by decide +kernel
  cases hx : expression semicolon 1 (groupedDifferences.map Token.lexeme)
  case error => simp [hx, Except.toOption] at h
  case ok x =>
    have h : x.value.tokens false 1 = differences := by simpa [hx, Except.toOption] using h
    have hs : Spells (differences.map Token.lexeme) (x.value.tokens false 1) := h.symm
    exact ⟨x, rfl, hs, expression_tokens hx hs (by decide)⟩

end Exprs

end Parser

end BlockLang
