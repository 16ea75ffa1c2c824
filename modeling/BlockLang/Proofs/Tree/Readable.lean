import BlockLang.Proofs.Tree.Names
import BlockLang.Tree.Parser.Expr

/-!
Trees of the tokens that a parser takes for them, with names of a kind.
-/

namespace BlockLang

-- The tokens that are literals on their own.
def Token.IsLiteral (t : Token) : Prop :=
  t.kind = .number ∨ t.kind = .float ∨ t.kind = .string ∨
    (t.kind = .keyword ∧ (t.text = "true" ∨ t.text = "false"))

-- The name of a macro has no mark at its end. The mark is what makes its token one of a macro.
def Name.IsMacro (n : Name) : Prop :=
  n.text.toList.getLast? ≠ some '!'

variable (P : String → Prop)

mutual

-- The tokens in an expression are of the kinds that a parser takes for it, and the variables and
-- lists that it names satisfy `P`.
def Expr.Readable : Expr → Prop
  | .literal t => t.IsLiteral
  | .argument t => t.kind = .argument
  | .var n | .listLength n => P n.text
  | .macroVar n => n.IsMacro
  | .macroCall n args => n.IsMacro ∧ Expr.ReadableAll args
  | .reporter _ args => Expr.ReadableAll args
  | .unary _ _ e => e.Readable
  | .listIndex n e | .listContains n e => P n.text ∧ e.Readable
  | .binary _ _ l r | .index _ l r => l.Readable ∧ r.Readable
  | .sensingOf t _ => t.kind = .string

def Expr.ReadableAll : List Expr → Prop
  | [] => True
  | e :: es => e.Readable ∧ Expr.ReadableAll es

end

mutual

-- The conditions of a branch come one by one, at least one of them.
def Stmt.Readable : Stmt → Prop
  | .call _ args _ => Expr.ReadableAll P args
  | .macroCall n args => n.IsMacro ∧ Expr.ReadableAll P args
  | .branch _ branches none => branches ≠ [] ∧ Stmt.ReadableBranches branches
  | .branch _ branches (some body) =>
    branches ≠ [] ∧ Stmt.ReadableBranches branches ∧ Stmt.ReadableBody body
  | .loopUntil _ e body | .loopTimes _ e body => e.Readable P ∧ Stmt.ReadableBody body
  | .forever _ body => Stmt.ReadableBody body
  | .declareLocal n e | .assign n e | .compound n _ e | .listAdd n e | .listDelete n e =>
    P n.text ∧ e.Readable P
  | .increment n | .listDeleteAll n | .showMonitor n | .hideMonitor n => P n.text
  | .listSet n items => P n.text ∧ Expr.ReadableAll P items
  | .listInsert n i e | .listReplace n i _ e => P n.text ∧ i.Readable P ∧ e.Readable P

def Stmt.ReadableBody : List Stmt → Prop
  | [] => True
  | s :: ss => s.Readable ∧ Stmt.ReadableBody ss

def Stmt.ReadableBranches : List (Expr × List Stmt) → Prop
  | [] => True
  | (e, body) :: rest => (e.Readable P ∧ Stmt.ReadableBody body) ∧ Stmt.ReadableBranches rest

end

def Event.Readable : Event → Prop
  | .message t | .key t | .backdrop t => t.kind = .string
  | .loudness e | .timer e => e.Readable P
  | .flag | .click | .clone => True

def Decl.Readable : Decl → Prop
  | .costumes paths => paths ≠ [] ∧ ∀ t ∈ paths, t.kind = .string
  | .vars ns | .lists ns => ns ≠ []
  | .dataList _ path | .imageList _ path _ => path.kind = .string
  | .function n _ body _ => P n.text ∧ Stmt.ReadableBody P body
  | .exprMacro _ _ e => e.Readable P
  | .blockMacro _ _ body => Stmt.ReadableBody P body
  | .event _ kind body => kind.Readable P ∧ Stmt.ReadableBody P body
  | .docComment _ => True

variable {P}

section Names

open List (forall_mem_cons forall_mem_append forall_mem_singleton)

mutual

theorem Expr.Readable.names : ∀ {e : Expr}, e.Readable P → ∀ n ∈ e.names, P n
  | .literal _, _ | .argument _, _ | .macroVar _, _ | .sensingOf _ _, _ => nofun
  | .var _, h | .listLength _, h => forall_mem_singleton.mpr h
  | .macroCall _ _, ⟨_, h⟩ => h.names
  | .reporter _ _, h => Expr.ReadableAll.names h
  | .unary _ _ e, h => Expr.Readable.names (e := e) h
  | .listIndex _ _, ⟨hn, h⟩ | .listContains _ _, ⟨hn, h⟩ => forall_mem_cons.mpr ⟨hn, h.names⟩
  | .binary _ _ _ _, ⟨hl, hr⟩ | .index _ _ _, ⟨hl, hr⟩ =>
    forall_mem_append.mpr ⟨hl.names, hr.names⟩

theorem Expr.ReadableAll.names : ∀ {es : List Expr}, Expr.ReadableAll P es →
    ∀ n ∈ Expr.namesAll es, P n
  | [], _ => nofun
  | _ :: _, ⟨he, hes⟩ => forall_mem_append.mpr ⟨he.names, hes.names⟩

end

mutual

theorem Stmt.Readable.names : ∀ {s : Stmt}, s.Readable P → ∀ n ∈ s.names, P n
  | .call _ _ _, h => Expr.ReadableAll.names h
  | .macroCall _ _, ⟨_, h⟩ => h.names
  | .branch _ _ none, ⟨_, hb⟩ => hb.names
  | .branch _ _ (some _), ⟨_, hb, ho⟩ => forall_mem_append.mpr ⟨hb.names, ho.names⟩
  | .loopUntil _ _ _, ⟨he, hb⟩ | .loopTimes _ _ _, ⟨he, hb⟩ =>
    forall_mem_append.mpr ⟨he.names, hb.names⟩
  | .forever _ _, h => Stmt.ReadableBody.names h
  | .declareLocal _ _, ⟨hn, he⟩ | .assign _ _, ⟨hn, he⟩ | .compound _ _ _, ⟨hn, he⟩
  | .listAdd _ _, ⟨hn, he⟩ | .listDelete _ _, ⟨hn, he⟩ => forall_mem_cons.mpr ⟨hn, he.names⟩
  | .increment _, h | .listDeleteAll _, h | .showMonitor _, h | .hideMonitor _, h =>
    forall_mem_singleton.mpr h
  | .listSet _ _, ⟨hn, he⟩ => forall_mem_cons.mpr ⟨hn, he.names⟩
  | .listInsert _ _ _, ⟨hn, hi, he⟩ | .listReplace _ _ _ _, ⟨hn, hi, he⟩ =>
    forall_mem_cons.mpr ⟨hn, forall_mem_append.mpr ⟨hi.names, he.names⟩⟩

theorem Stmt.ReadableBody.names : ∀ {ss : List Stmt}, Stmt.ReadableBody P ss →
    ∀ n ∈ Stmt.namesAll ss, P n
  | [], _ => nofun
  | _ :: _, ⟨hs, hss⟩ => forall_mem_append.mpr ⟨hs.names, hss.names⟩

theorem Stmt.ReadableBranches.names : ∀ {bs : List (Expr × List Stmt)},
    Stmt.ReadableBranches P bs → ∀ n ∈ Stmt.namesOfBranches bs, P n
  | [], _ => nofun
  | (_, _) :: _, ⟨⟨he, hb⟩, hbs⟩ =>
    forall_mem_append.mpr ⟨forall_mem_append.mpr ⟨he.names, hb.names⟩, hbs.names⟩

end

theorem Event.Readable.names {e : Event} (h : e.Readable P) : ∀ n ∈ e.names, P n := by
  cases e
  case loudness | timer => exact Expr.Readable.names h
  all_goals exact nofun

theorem Decl.Readable.names {d : Decl} (h : d.Readable P) : ∀ n ∈ d.names, P n := by
  cases d
  case function => exact forall_mem_cons.mpr ⟨h.1, h.2.names⟩
  case exprMacro => exact Expr.Readable.names h
  case blockMacro => exact Stmt.ReadableBody.names h
  case event => exact forall_mem_append.mpr ⟨h.1.names, h.2.names⟩
  all_goals exact nofun

end Names

end BlockLang
