import BlockLang.Proofs.Tree.Printed
import BlockLang.Proofs.Tree.Readable

/-!
Among the tokens that a tree is written with there are no comments, and none of them ends a source.
-/

namespace BlockLang

open Token

-- The token stands for a part of a tree.
def Token.IsShown (t : Token) : Prop :=
  t.kind ≠ .comment ∧ t.kind ≠ .eof

instance {t : Token} : Decidable t.IsShown :=
  inferInstanceAs (Decidable (_ ∧ _))

-- All of the tokens are parts of a tree.
def Token.Shown (ts : List Token) : Prop :=
  ∀ t ∈ ts, t.IsShown

variable {P : String → Prop} {wrap : Bool} {t : Token} {ts us : List Token} {n : Name}

namespace Token

@[simp]
theorem shown_nil : Shown [] :=
  nofun

@[simp]
theorem shown_cons : Shown (t :: ts) ↔ t.IsShown ∧ Shown ts :=
  List.forall_mem_cons

@[simp]
theorem shown_append : Shown (ts ++ us) ↔ Shown ts ∧ Shown us :=
  List.forall_mem_append

@[simp]
theorem shown_grouped {group : Bool} : Shown (grouped group ts) ↔ Shown ts := by
  cases group <;> simp +decide [grouped]

theorem Shown.tail (h : Shown ts) : Shown ts.tail :=
  fun t ht => h t (List.mem_of_mem_tail ht)

theorem Shown.series (h : Shown ts) : Shown (series ts) := by
  have hc : comma.IsShown := ⟨nofun, nofun⟩
  refine shown_append.mpr ⟨fun t ht => h t (List.mem_of_mem_take ht), fun t ht => ?_⟩
  have ⟨u, hu, ht⟩ := List.mem_flatMap.mp ht
  have hu : Shown [comma, u] := by simp [hc, h.tail u hu]
  exact hu t ht

theorem shown_map {α : Type} {as : List α} {f : α → Token} (h : ∀ a ∈ as, (f a).IsShown) :
    Shown (as.map f) :=
  List.forall_mem_map.mpr h

theorem isShown_bare : t.bare.IsShown ↔ t.IsShown :=
  Iff.rfl

theorem isShown_of_string (h : t.kind = .string) : t.IsShown := by
  simp [IsShown, h]

end Token

@[simp]
theorem Name.isShown_token : n.token.IsShown :=
  ⟨nofun, nofun⟩

@[simp]
theorem Name.isShown_macroToken : n.macroToken.IsShown :=
  ⟨nofun, nofun⟩

@[simp]
theorem UnaryOp.isShown_token {o : UnaryOp} : o.token.IsShown := by
  cases o <;> exact ⟨nofun, nofun⟩

@[simp]
theorem BinaryOp.isShown_token {o : BinaryOp} : o.token.IsShown := by
  cases o <;> exact ⟨nofun, nofun⟩

@[simp]
theorem AssignOp.isShown_token {o : AssignOp} : o.token.IsShown := by
  cases o <;> exact ⟨nofun, nofun⟩

theorem Token.IsLiteral.isShown (h : t.IsLiteral) : t.IsShown := by
  rcases h with h | h | h | ⟨h, _⟩ <;> simp [IsShown, h]

mutual

theorem Expr.shown_bareTokens : ∀ {e : Expr}, e.Readable P → Shown (e.bareTokens wrap)
  | .literal _, h => shown_cons.mpr ⟨h.isShown, shown_nil⟩
  | .argument t, h => by
    have h : t.kind = .argument := h
    simp [bareTokens, IsShown, Token.bare, h]
  | .var _, _ | .macroVar _, _ => by simp [bareTokens]
  | .macroCall _ args, ⟨_, ha⟩ => by
    have ha : Shown (Expr.commaTokens wrap 1 args).tail := (Expr.shown_commaTokens ha).tail
    simp +decide [bareTokens, ha]
  | .reporter _ args, ha => by
    have ha : Expr.ReadableAll P args := ha
    have ha : Shown (Expr.commaTokens wrap 1 args).tail := (Expr.shown_commaTokens ha).tail
    simp +decide [bareTokens, ha]
  | .unary _ _ e, he => by
    have he : e.Readable P := he
    simp [bareTokens, Expr.shown_bareTokens he]
  | .binary _ _ _ _, ⟨hl, hr⟩ => by
    simp [bareTokens, Expr.shown_bareTokens hl, Expr.shown_bareTokens hr]
  | .index _ _ _, ⟨he, hi⟩ => by
    simp +decide [bareTokens, Expr.shown_bareTokens he, Expr.shown_bareTokens hi]
  | .listLength _, _ => by simp +decide [bareTokens]
  | .listIndex _ _, ⟨_, he⟩ | .listContains _ _, ⟨_, he⟩ => by
    simp +decide [bareTokens, Expr.shown_bareTokens he]
  | .sensingOf _ _, h => by
    simp +decide [bareTokens, isShown_bare, isShown_of_string h]

theorem Expr.shown_commaTokens : ∀ {least : Nat} {es : List Expr}, Expr.ReadableAll P es →
    Shown (Expr.commaTokens wrap least es)
  | _, [], _ => shown_nil
  | _, _ :: _, ⟨he, hes⟩ => by
    simp +decide [Expr.commaTokens, Expr.shown_bareTokens he, Expr.shown_commaTokens hes]

end

theorem Expr.shown_operand {e : Expr} (h : e.Readable P) : Shown (e.operand wrap) :=
  shown_grouped.mpr (Expr.shown_bareTokens h)

theorem Expr.shown_operands {es : List Expr} (h : Expr.ReadableAll P es) :
    Shown (Expr.operands wrap es) :=
  (Expr.shown_commaTokens h).tail

mutual

theorem Stmt.shown_tokens : ∀ {s : Stmt}, s.Readable P → Shown (s.tokens wrap)
  | .call _ args _, ha => by
    have ha : Expr.ReadableAll P args := ha
    simp +decide [Stmt.tokens, Expr.shown_operands ha]
  | .macroCall _ _, ⟨_, ha⟩ => by simp +decide [Stmt.tokens, Expr.shown_operands ha]
  | .branch _ _ none, ⟨_, hb⟩ => Stmt.shown_branchTokens hb
  | .branch _ _ (some _), ⟨_, hb, ho⟩ => by
    simp +decide [Stmt.tokens, Stmt.shown_branchTokens hb, Stmt.shown_bodyTokens ho]
  | .loopUntil _ _ _, ⟨he, hb⟩ | .loopTimes _ _ _, ⟨he, hb⟩ => by
    simp +decide [Stmt.tokens, Expr.shown_operand he, Stmt.shown_bodyTokens hb]
  | .forever _ body, hb => by
    have hb : Stmt.ReadableBody P body := hb
    simp +decide [Stmt.tokens, Stmt.shown_bodyTokens hb]
  | .declareLocal _ _, ⟨_, he⟩ | .assign _ _, ⟨_, he⟩ | .compound _ _ _, ⟨_, he⟩
  | .listAdd _ _, ⟨_, he⟩ | .listDelete _ _, ⟨_, he⟩ => by
    simp +decide [Stmt.tokens, Expr.shown_operand he]
  | .increment _, _ | .listDeleteAll _, _ | .showMonitor _, _ | .hideMonitor _, _ => by
    simp +decide [Stmt.tokens]
  | .listSet _ _, ⟨_, he⟩ => by simp +decide [Stmt.tokens, Expr.shown_operands he]
  | .listInsert _ _ _, ⟨_, hi, he⟩ => by
    simp +decide [Stmt.tokens, Expr.shown_operand hi, Expr.shown_operand he]
  | .listReplace _ _ o _, ⟨_, hi, he⟩ => by
    cases o <;> simp +decide [Stmt.tokens, Expr.shown_operand hi, Expr.shown_operand he]

theorem Stmt.shown_bodyTokens : ∀ {ss : List Stmt}, Stmt.ReadableBody P ss →
    Shown (Stmt.bodyTokens wrap ss)
  | [], _ => by simp +decide [Stmt.bodyTokens]
  | _ :: _, ⟨hs, hss⟩ => shown_append.mpr ⟨Stmt.shown_tokens hs, Stmt.shown_bodyTokens hss⟩

theorem Stmt.shown_branchTokens : ∀ {start : String} {bs : List (Expr × List Stmt)},
    Stmt.ReadableBranches P bs → Shown (Stmt.branchTokens wrap start bs)
  | _, [], _ => shown_nil
  | start, _ :: _, ⟨⟨he, hb⟩, hbs⟩ => by
    have hk : (keyword start).IsShown := ⟨nofun, nofun⟩
    simp +decide [Stmt.branchTokens, hk, Expr.shown_operand he, Stmt.shown_bodyTokens hb,
      Stmt.shown_branchTokens hbs]

end

theorem Event.shown_tokens {e : Event} (h : e.Readable P) : Shown (e.tokens wrap) := by
  cases e
  case message | key | backdrop =>
    simp +decide [tokens, isShown_bare, isShown_of_string h]
  case loudness e | timer e =>
    have h : e.Readable P := h
    simp +decide [tokens, Expr.shown_operand h]
  all_goals simp +decide [tokens]

theorem Decl.shown_tokens {d : Decl} (h : d.Readable P) : Shown (d.tokens wrap) := by
  have hn {ns : List Name} : Shown (series (ns.map Name.token)) :=
    (shown_map fun _ _ => Name.isShown_token).series
  cases d
  case costumes paths =>
    have hp := (shown_map fun t ht => isShown_bare.mpr (isShown_of_string (h.2 t ht))).series
    simp +decide [tokens, hp]
  case dataList =>
    simp +decide [tokens, isShown_bare, isShown_of_string h]
  case imageList n path format =>
    cases format <;> simp +decide [tokens, isShown_bare, isShown_of_string h]
  case function n params body warp =>
    cases warp <;> simp +decide [tokens, hn, Stmt.shown_bodyTokens h.2]
  case exprMacro n params e =>
    have h : e.Readable P := h
    simp +decide [tokens, hn, Expr.shown_operand h]
  case blockMacro n params body =>
    have h : Stmt.ReadableBody P body := h
    simp +decide [tokens, hn, Stmt.shown_bodyTokens h]
  case event =>
    simp +decide [tokens, Event.shown_tokens h.1, Stmt.shown_bodyTokens h.2]
  case docComment => exact shown_nil
  all_goals simp +decide [tokens, hn]

theorem SpriteTree.shown_tokens {tree : SpriteTree} (h : ∀ d ∈ tree, d.Readable P) :
    Shown (tree.tokens wrap) := by
  intro t ht
  have ⟨d, hd, ht⟩ := List.mem_flatMap.mp ht
  exact Decl.shown_tokens (h d hd) t ht

end BlockLang
