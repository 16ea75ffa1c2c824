import BlockLang.Fault
import BlockLang.Proofs.Token.Positions
import BlockLang.Proofs.Tree.Readable

/-!
Trees that are made of some tokens: all that they hold are these tokens and their places.
-/

namespace BlockLang

-- The token that a name has been read from.
def Name.identifier (n : Name) : Token :=
  ⟨.ident, n.text, n.span⟩

-- What a tree can be made of.
structure Material where
  token : Token → Prop
  comment : Token → Prop

-- A place starts where a token does. The place of a macro is shorter than its token, which has a
-- mark at its end.
def Material.Starts (m : Material) (s : Span) : Prop :=
  ∃ t, m.token t ∧ t.span.position = s.position

theorem Material.starts_span {m : Material} {t : Token} (h : m.token t) : m.Starts t.span :=
  ⟨t, h, rfl⟩

theorem Material.starts_identifier {m : Material} {n : Name} (h : m.token n.identifier) :
    m.Starts n.span :=
  starts_span h

-- The names among the tokens satisfy `P`.
def Material.Names (m : Material) (P : String → Prop) : Prop :=
  ∀ n : Name, m.token n.identifier → P n.text

-- Any tokens, as long as their names satisfy `P`.
def Material.named (P : String → Prop) : Material where
  token t := t.kind = .ident → P t.text
  comment _ := True

theorem Material.names_named {P : String → Prop} : (named P).Names P :=
  fun _ h => h rfl

-- The kinds of macro that a tree may call.
abbrev CallKinds := MacroKind → Prop

def CallKinds.any : CallKinds := fun _ => True

def CallKinds.none : CallKinds := fun _ => False

-- Block macros are expanded first, which leaves calls of the other kind.
def CallKinds.inExprs : CallKinds := (· = .expression)

variable (m : Material) (calls : CallKinds)

-- The name of a macro or of one of its parameters.
def Name.MarkedIn (n : Name) : Prop :=
  n.IsMacro ∧ m.Starts n.span

mutual

def Expr.MadeOf : Expr → Prop
  | .literal t => t.IsLiteral ∧ m.token t
  | .argument t => t.kind = .argument ∧ m.token t
  | .var n | .listLength n => m.token n.identifier
  | .macroVar n => n.MarkedIn m
  | .macroCall n args => calls .expression ∧ n.MarkedIn m ∧ Expr.MadeOfAll args
  | .reporter n args => m.token n.identifier ∧ Expr.MadeOfAll args
  | .unary _ s e => m.Starts s ∧ e.MadeOf
  | .listIndex n e | .listContains n e => m.token n.identifier ∧ e.MadeOf
  | .binary _ s l r | .index s l r => m.Starts s ∧ l.MadeOf ∧ r.MadeOf
  | .sensingOf t n => t.kind = .string ∧ m.token t ∧ m.token n.identifier

def Expr.MadeOfAll : List Expr → Prop
  | [] => True
  | e :: es => e.MadeOf ∧ Expr.MadeOfAll es

end

mutual

def Stmt.MadeOf : Stmt → Prop
  | .call n args comment =>
    m.token n.identifier ∧ Expr.MadeOfAll m calls args ∧ ∀ c ∈ comment, m.comment c
  | .macroCall n args => calls .block ∧ n.MarkedIn m ∧ Expr.MadeOfAll m calls args
  | .branch s branches none => m.Starts s ∧ branches ≠ [] ∧ Stmt.MadeOfBranches branches
  | .branch s branches (some body) =>
    m.Starts s ∧ branches ≠ [] ∧ Stmt.MadeOfBranches branches ∧ Stmt.MadeOfBody body
  | .loopUntil s e body | .loopTimes s e body =>
    m.Starts s ∧ e.MadeOf m calls ∧ Stmt.MadeOfBody body
  | .forever s body => m.Starts s ∧ Stmt.MadeOfBody body
  | .declareLocal n e | .assign n e | .compound n _ e | .listAdd n e | .listDelete n e =>
    m.token n.identifier ∧ e.MadeOf m calls
  | .increment n | .listDeleteAll n | .showMonitor n | .hideMonitor n => m.token n.identifier
  | .listSet n items => m.token n.identifier ∧ Expr.MadeOfAll m calls items
  | .listInsert n i e | .listReplace n i _ e =>
    m.token n.identifier ∧ i.MadeOf m calls ∧ e.MadeOf m calls

def Stmt.MadeOfBody : List Stmt → Prop
  | [] => True
  | s :: ss => s.MadeOf ∧ Stmt.MadeOfBody ss

def Stmt.MadeOfBranches : List (Expr × List Stmt) → Prop
  | [] => True
  | (e, body) :: rest => (e.MadeOf m calls ∧ Stmt.MadeOfBody body) ∧ Stmt.MadeOfBranches rest

end

def Event.MadeOf : Event → Prop
  | .message t | .key t | .backdrop t => t.kind = .string ∧ m.token t
  | .loudness e | .timer e => e.MadeOf m calls
  | .flag | .click | .clone => True

def Decl.MadeOf : Decl → Prop
  | .costumes paths => paths ≠ [] ∧ ∀ t ∈ paths, t.kind = .string ∧ m.token t
  | .vars ns | .lists ns => ns ≠ [] ∧ ∀ n ∈ ns, m.token n.identifier
  | .dataList n path => m.token n.identifier ∧ path.kind = .string ∧ m.token path
  | .imageList n path format =>
    m.token n.identifier ∧ (path.kind = .string ∧ m.token path) ∧
      ∀ f ∈ format, m.token f.identifier
  | .function n params body _ =>
    m.token n.identifier ∧ (∀ p ∈ params, m.token p.identifier) ∧ Stmt.MadeOfBody m calls body
  | .exprMacro n params e =>
    m.token n.identifier ∧ (∀ p ∈ params, m.token p.identifier) ∧ e.MadeOf m calls
  | .blockMacro n params body =>
    m.token n.identifier ∧ (∀ p ∈ params, m.token p.identifier) ∧ Stmt.MadeOfBody m calls body
  | .event s kind body => m.Starts s ∧ kind.MadeOf m calls ∧ Stmt.MadeOfBody m calls body
  | .docComment c => m.comment c

variable {m calls}

section Readable

variable {P : String → Prop}

mutual

theorem Expr.MadeOf.readable (hP : m.Names P) : ∀ {e : Expr}, e.MadeOf m calls → e.Readable P
  | .literal _, ⟨h, _⟩ | .argument _, ⟨h, _⟩ | .macroVar _, ⟨h, _⟩ | .sensingOf _ _, ⟨h, _⟩ => h
  | .var n, h | .listLength n, h => hP n h
  | .macroCall _ _, ⟨_, ⟨hn, _⟩, h⟩ => ⟨hn, h.readable hP⟩
  | .reporter _ _, ⟨_, h⟩ => Expr.MadeOfAll.readable hP h
  | .unary _ _ e, ⟨_, h⟩ => Expr.MadeOf.readable hP (e := e) h
  | .listIndex n _, ⟨hn, h⟩ | .listContains n _, ⟨hn, h⟩ => ⟨hP n hn, h.readable hP⟩
  | .binary _ _ _ _, ⟨_, hl, hr⟩ | .index _ _ _, ⟨_, hl, hr⟩ => ⟨hl.readable hP, hr.readable hP⟩

theorem Expr.MadeOfAll.readable (hP : m.Names P) : ∀ {es : List Expr}, Expr.MadeOfAll m calls es →
    Expr.ReadableAll P es
  | [], _ => trivial
  | _ :: _, ⟨he, hes⟩ => ⟨he.readable hP, hes.readable hP⟩

end

mutual

theorem Stmt.MadeOf.readable (hP : m.Names P) : ∀ {s : Stmt}, s.MadeOf m calls → s.Readable P
  | .call _ _ _, ⟨_, h, _⟩ => h.readable hP
  | .macroCall _ _, ⟨_, ⟨hn, _⟩, h⟩ => ⟨hn, h.readable hP⟩
  | .branch _ _ none, ⟨_, hn, hb⟩ => ⟨hn, hb.readable hP⟩
  | .branch _ _ (some _), ⟨_, hn, hb, ho⟩ => ⟨hn, hb.readable hP, ho.readable hP⟩
  | .loopUntil _ _ _, ⟨_, he, hb⟩ | .loopTimes _ _ _, ⟨_, he, hb⟩ =>
    ⟨he.readable hP, hb.readable hP⟩
  | .forever _ _, ⟨_, h⟩ => Stmt.MadeOfBody.readable hP h
  | .declareLocal n _, ⟨hn, he⟩ | .assign n _, ⟨hn, he⟩ | .compound n _ _, ⟨hn, he⟩
  | .listAdd n _, ⟨hn, he⟩ | .listDelete n _, ⟨hn, he⟩ => ⟨hP n hn, he.readable hP⟩
  | .increment n, h | .listDeleteAll n, h | .showMonitor n, h | .hideMonitor n, h => hP n h
  | .listSet n _, ⟨hn, he⟩ => ⟨hP n hn, he.readable hP⟩
  | .listInsert n _ _, ⟨hn, hi, he⟩ | .listReplace n _ _ _, ⟨hn, hi, he⟩ =>
    ⟨hP n hn, hi.readable hP, he.readable hP⟩

theorem Stmt.MadeOfBody.readable (hP : m.Names P) : ∀ {ss : List Stmt},
    Stmt.MadeOfBody m calls ss → Stmt.ReadableBody P ss
  | [], _ => trivial
  | _ :: _, ⟨hs, hss⟩ => ⟨hs.readable hP, hss.readable hP⟩

theorem Stmt.MadeOfBranches.readable (hP : m.Names P) : ∀ {bs : List (Expr × List Stmt)},
    Stmt.MadeOfBranches m calls bs → Stmt.ReadableBranches P bs
  | [], _ => trivial
  | (_, _) :: _, ⟨⟨he, hb⟩, hbs⟩ => ⟨⟨he.readable hP, hb.readable hP⟩, hbs.readable hP⟩

end

theorem Event.MadeOf.readable (hP : m.Names P) {e : Event} (h : e.MadeOf m calls) :
    e.Readable P := by
  cases e
  case message | key | backdrop => exact h.1
  case loudness | timer => exact Expr.MadeOf.readable hP h
  all_goals trivial

theorem Decl.MadeOf.readable (hP : m.Names P) {d : Decl} (h : d.MadeOf m calls) : d.Readable P := by
  cases d
  case costumes => exact ⟨h.1, fun t ht => (h.2 t ht).1⟩
  case vars | lists => exact h.1
  case dataList => exact h.2.1
  case imageList => exact h.2.1.1
  case function n _ _ _ => exact ⟨hP n h.1, h.2.2.readable hP⟩
  case exprMacro => exact h.2.2.readable hP
  case blockMacro => exact h.2.2.readable hP
  case event => exact ⟨h.2.1.readable hP, h.2.2.readable hP⟩
  case docComment => trivial

end Readable

end BlockLang
