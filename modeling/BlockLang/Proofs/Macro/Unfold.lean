import BlockLang.Proofs.Macro.Expand
import BlockLang.Proofs.Steps
import BlockLang.Proofs.Tree.Exprs

/-!
What macros mean: a call stands for the body of the macro, with the arguments as they are in place
of the parameters. Calls are unfolded from the outside in, until there are none left.
-/

namespace BlockLang

mutual

-- The macros that an expression calls, also in the arguments of other calls.
def Expr.calls : Expr → List String
  | .macroCall n args => n.text :: Expr.callsAll args
  | .reporter _ args => Expr.callsAll args
  | .unary _ _ e | .listIndex _ e | .listContains _ e => e.calls
  | .binary _ _ l r | .index _ l r => l.calls ++ r.calls
  | .literal _ | .argument _ | .var _ | .macroVar _ | .listLength _ | .sensingOf _ _ => []

def Expr.callsAll : List Expr → List String
  | [] => []
  | e :: es => e.calls ++ Expr.callsAll es

end

mutual

-- The block macros that a statement calls.
def Stmt.calls : Stmt → List String
  | .macroCall n _ => [n.text]
  | .branch _ branches none => Stmt.callsOfBranches branches
  | .branch _ branches (some body) => Stmt.callsOfBranches branches ++ Stmt.callsAll body
  | .loopUntil _ _ body | .loopTimes _ _ body | .forever _ body => Stmt.callsAll body
  | _ => []

def Stmt.callsAll : List Stmt → List String
  | [] => []
  | s :: ss => s.calls ++ Stmt.callsAll ss

def Stmt.callsOfBranches : List (Expr × List Stmt) → List String
  | [] => []
  | (_, body) :: rest => Stmt.callsAll body ++ Stmt.callsOfBranches rest

end

mutual

-- An expression with others in place of macro parameters, all at once.
def Expr.bind (σ : Name → Expr) : Expr → Expr
  | .macroVar n => σ n
  | .macroCall n args => .macroCall n (Expr.bindAll σ args)
  | .reporter n args => .reporter n (Expr.bindAll σ args)
  | .unary op s e => .unary op s (e.bind σ)
  | .binary op s l r => .binary op s (l.bind σ) (r.bind σ)
  | .index s e i => .index s (e.bind σ) (i.bind σ)
  | .listIndex l e => .listIndex l (e.bind σ)
  | .listContains l e => .listContains l (e.bind σ)
  | .literal t => .literal t
  | .argument t => .argument t
  | .var n => .var n
  | .listLength l => .listLength l
  | .sensingOf t n => .sensingOf t n

def Expr.bindAll (σ : Name → Expr) : List Expr → List Expr
  | [] => []
  | e :: es => e.bind σ :: Expr.bindAll σ es

end

namespace Macro

variable {β : Type}

-- The arguments in place of the parameters. What is no parameter stays.
def given (params : List String) (args : List Expr) (name : Name) : Expr :=
  ((params.zip args).lookup name.text).getD (.macroVar name)

-- The macro of some name, if it has that many parameters.
def called (macros : Std.TreeMap String (Macro β)) (name : Name) (count : Nat) :
    Option (Macro β) :=
  macros[name.text]?.filter (·.params.length = count)

end Macro

mutual

-- An expression with its outermost calls unfolded. The arguments are left as they are.
def Expr.unfold (macros : Std.TreeMap String ExprMacro) : Expr → Expr
  | .macroCall n args =>
    match Macro.called macros n args.length with
    | some m => m.body.bind (Macro.given m.params args)
    | none => .macroCall n args
  | .reporter n args => .reporter n (Expr.unfoldAll macros args)
  | .unary op s e => .unary op s (e.unfold macros)
  | .binary op s l r => .binary op s (l.unfold macros) (r.unfold macros)
  | .index s e i => .index s (e.unfold macros) (i.unfold macros)
  | .listIndex l e => .listIndex l (e.unfold macros)
  | .listContains l e => .listContains l (e.unfold macros)
  | .literal t => .literal t
  | .argument t => .argument t
  | .var n => .var n
  | .macroVar n => .macroVar n
  | .listLength l => .listLength l
  | .sensingOf t n => .sensingOf t n

def Expr.unfoldAll (macros : Std.TreeMap String ExprMacro) : List Expr → List Expr
  | [] => []
  | e :: es => e.unfold macros :: Expr.unfoldAll macros es

end

mutual

-- What a statement comes to if the calls in it are unfolded.
def Stmt.unfold (macros : Std.TreeMap String BlockMacro) : Stmt → List Stmt
  | .macroCall n args =>
    match Macro.called macros n args.length with
    | some m => Stmt.mapBody (Expr.bind (Macro.given m.params args)) m.body
    | none => [.macroCall n args]
  | .branch s branches none => [.branch s (Stmt.unfoldBranches macros branches) none]
  | .branch s branches (some body) =>
    [.branch s (Stmt.unfoldBranches macros branches) (some (Stmt.unfoldBody macros body))]
  | .loopUntil s e body => [.loopUntil s e (Stmt.unfoldBody macros body)]
  | .loopTimes s e body => [.loopTimes s e (Stmt.unfoldBody macros body)]
  | .forever s body => [.forever s (Stmt.unfoldBody macros body)]
  | s => [s]

def Stmt.unfoldBody (macros : Std.TreeMap String BlockMacro) : List Stmt → List Stmt
  | [] => []
  | s :: ss => s.unfold macros ++ Stmt.unfoldBody macros ss

def Stmt.unfoldBranches (macros : Std.TreeMap String BlockMacro) :
    List (Expr × List Stmt) → List (Expr × List Stmt)
  | [] => []
  | (e, body) :: rest => (e, Stmt.unfoldBody macros body) :: Stmt.unfoldBranches macros rest

end

def Event.exprs : Event → List Expr
  | .loudness e | .timer e => [e]
  | .flag | .click | .clone | .message _ | .key _ | .backdrop _ => []

def Event.mapExprs (f : Expr → Expr) : Event → Event
  | .loudness e => .loudness (f e)
  | .timer e => .timer (f e)
  | event => event

namespace Decl

-- Only what runs counts: the bodies of functions and events, and the thresholds of events.
def exprs : Decl → List Expr
  | .function _ _ body _ => Stmt.exprsAll body
  | .event _ e body => e.exprs ++ Stmt.exprsAll body
  | _ => []

def unfoldBlocks (macros : Std.TreeMap String BlockMacro) : Decl → Decl
  | .function n params body warp => .function n params (Stmt.unfoldBody macros body) warp
  | .event s e body => .event s e (Stmt.unfoldBody macros body)
  | d => d

def unfoldExprs (macros : Std.TreeMap String ExprMacro) : Decl → Decl
  | .function n params body warp =>
    .function n params (Stmt.mapBody (Expr.unfold macros) body) warp
  | .event s e body =>
    .event s (e.mapExprs (Expr.unfold macros)) (Stmt.mapBody (Expr.unfold macros) body)
  | d => d

end Decl

namespace SpriteTree

def HasNoBlockCalls (tree : SpriteTree) : Prop :=
  ∀ d ∈ tree, Stmt.callsAll d.body = []

def HasNoExprCalls (tree : SpriteTree) : Prop :=
  ∀ d ∈ tree, ∀ e ∈ d.exprs, e.calls = []

-- What a sprite means: first all calls of block macros are unfolded, and then all calls of
-- expression macros.
def Means (s : Symbols) (tree tree' : SpriteTree) : Prop :=
  ∃ spliced, Ends (List.map (Decl.unfoldBlocks s.blockMacros)) HasNoBlockCalls tree spliced ∧
    Ends (List.map (Decl.unfoldExprs s.exprMacros)) HasNoExprCalls spliced tree'

end SpriteTree

section Laws

variable {σ τ : Name → Expr} {macros : Std.TreeMap String ExprMacro}
  {blockMacros : Std.TreeMap String BlockMacro}

@[simp]
theorem Expr.bindAll_eq {es : List Expr} : bindAll σ es = es.map (bind σ) := by
  induction es <;> simp_all [bindAll]

@[simp]
theorem Expr.unfoldAll_eq {es : List Expr} : unfoldAll macros es = es.map (unfold macros) := by
  induction es <;> simp_all [unfoldAll]

theorem Expr.callsAll_eq_nil {es : List Expr} : callsAll es = [] ↔ ∀ e ∈ es, e.calls = [] := by
  induction es <;> simp_all [callsAll]

theorem Stmt.callsAll_append {ss ss' : List Stmt} :
    callsAll (ss ++ ss') = callsAll ss ++ callsAll ss' := by
  induction ss <;> simp_all [callsAll]

theorem Stmt.unfoldBody_append {ss ss' : List Stmt} : unfoldBody blockMacros (ss ++ ss') =
    unfoldBody blockMacros ss ++ unfoldBody blockMacros ss' := by
  induction ss <;> simp_all [unfoldBody]

mutual

theorem Stmt.calls_mapExprs {f : Expr → Expr} : ∀ s : Stmt, (s.mapExprs f).calls = s.calls
  | .branch _ branches none => by rw [mapExprs, calls, calls, calls_mapBranches branches]
  | .branch _ branches (some body) => by
    rw [mapExprs, calls, calls, calls_mapBranches branches, calls_mapBody body]
  | .loopUntil _ _ body | .loopTimes _ _ body | .forever _ body => by
    rw [mapExprs, calls, calls, calls_mapBody body]
  | .call .. | .macroCall .. | .declareLocal .. | .assign .. | .compound .. | .increment ..
  | .listSet .. | .listAdd .. | .listDelete .. | .listDeleteAll .. | .listInsert ..
  | .listReplace .. | .showMonitor .. | .hideMonitor .. => by simp [mapExprs, calls]

theorem Stmt.calls_mapBody {f : Expr → Expr} :
    ∀ ss : List Stmt, callsAll (mapBody f ss) = callsAll ss
  | [] => rfl
  | s :: ss => by rw [mapBody, callsAll, callsAll, calls_mapExprs s, calls_mapBody ss]

theorem Stmt.calls_mapBranches {f : Expr → Expr} : ∀ branches : List (Expr × List Stmt),
    callsOfBranches (mapBranches f branches) = callsOfBranches branches
  | [] => rfl
  | (_, body) :: rest => by
    rw [mapBranches, callsOfBranches, callsOfBranches, calls_mapBody body, calls_mapBranches rest]

end

mutual

-- Without calls there is nothing to unfold.
theorem Expr.unfold_eq_self : ∀ {e : Expr}, e.calls = [] → e.unfold macros = e
  | .literal _, _ | .argument _, _ | .var _, _ | .macroVar _, _ | .listLength _, _
  | .sensingOf _ _, _ => rfl
  | .macroCall _ _, h => by simp [calls] at h
  | .reporter _ args, h => by rw [unfold, unfoldAll_eq_self h]
  | .unary _ _ e, h | .listIndex _ e, h | .listContains _ e, h => by
    rw [unfold, unfold_eq_self (e := e) h]
  | .binary _ _ e₁ e₂, h | .index _ e₁ e₂, h => by
    have ⟨h₁, h₂⟩ := List.append_eq_nil_iff.mp h
    rw [unfold, unfold_eq_self h₁, unfold_eq_self h₂]

theorem Expr.unfoldAll_eq_self : ∀ {es : List Expr}, callsAll es = [] → unfoldAll macros es = es
  | [], _ => rfl
  | e :: es, h => by
    have ⟨h₁, h₂⟩ := List.append_eq_nil_iff.mp h
    rw [unfoldAll, unfold_eq_self h₁, unfoldAll_eq_self h₂]

end

mutual

theorem Stmt.unfold_eq_self : ∀ {s : Stmt}, s.calls = [] → s.unfold blockMacros = [s]
  | .macroCall _ _, h => by simp [calls] at h
  | .branch _ branches none, h => by rw [unfold, unfoldBranches_eq_self h]
  | .branch _ branches (some body), h => by
    have ⟨h₁, h₂⟩ := List.append_eq_nil_iff.mp h
    rw [unfold, unfoldBranches_eq_self h₁, unfoldBody_eq_self h₂]
  | .loopUntil _ _ body, h | .loopTimes _ _ body, h | .forever _ body, h => by
    rw [unfold, unfoldBody_eq_self h]
  | .call .., _ | .declareLocal .., _ | .assign .., _ | .compound .., _ | .increment .., _
  | .listSet .., _ | .listAdd .., _ | .listDelete .., _ | .listDeleteAll .., _
  | .listInsert .., _ | .listReplace .., _ | .showMonitor .., _ | .hideMonitor .., _ => by
    simp [unfold]

theorem Stmt.unfoldBody_eq_self : ∀ {ss : List Stmt}, callsAll ss = [] →
    unfoldBody blockMacros ss = ss
  | [], _ => rfl
  | s :: ss, h => by
    have ⟨h₁, h₂⟩ := List.append_eq_nil_iff.mp h
    rw [unfoldBody, unfold_eq_self h₁, unfoldBody_eq_self h₂, List.singleton_append]

theorem Stmt.unfoldBranches_eq_self : ∀ {branches : List (Expr × List Stmt)},
    callsOfBranches branches = [] → unfoldBranches blockMacros branches = branches
  | [], _ => rfl
  | (_, body) :: rest, h => by
    have ⟨h₁, h₂⟩ := List.append_eq_nil_iff.mp h
    rw [unfoldBranches, unfoldBody_eq_self h₁, unfoldBranches_eq_self h₂]

end

theorem Event.mapExprs_eq_self {f : Expr → Expr} {event : Event}
    (h : ∀ e ∈ event.exprs, f e = e) : event.mapExprs f = event := by
  cases event
  case loudness e | timer e => rw [mapExprs, h e (List.mem_singleton_self e)]
  all_goals rfl

theorem Decl.unfoldBlocks_eq_self {d : Decl} (h : Stmt.callsAll d.body = []) :
    d.unfoldBlocks blockMacros = d := by
  cases d
  case function n params body warp =>
    have h : Stmt.callsAll body = [] := h
    rw [unfoldBlocks, Stmt.unfoldBody_eq_self h]
  case event span event body =>
    have h : Stmt.callsAll body = [] := h
    rw [unfoldBlocks, Stmt.unfoldBody_eq_self h]
  all_goals rfl

theorem Decl.unfoldExprs_eq_self {d : Decl} (h : ∀ e ∈ d.exprs, e.calls = []) :
    d.unfoldExprs macros = d := by
  have h : ∀ e ∈ d.exprs, e.unfold macros = e := fun e he => Expr.unfold_eq_self (h e he)
  cases d
  case function => rw [unfoldExprs, Stmt.mapBody_eq_self h]
  case event =>
    have ⟨h₁, h₂⟩ := List.forall_mem_append.mp h
    rw [unfoldExprs, Event.mapExprs_eq_self h₁, Stmt.mapBody_eq_self h₂]
  all_goals rfl

end Laws

end BlockLang
