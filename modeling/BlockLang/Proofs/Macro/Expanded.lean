import BlockLang.Proofs.Macro.CallByName
import BlockLang.Proofs.Macro.Recursion

/-!
What is left once all macros of a sprite are expanded: no calls, only those macro parameters that
stood outside of macros, and nothing that could be expanded again.
-/

namespace BlockLang

mutual

-- The macro parameters that an expression names, with their places.
def Expr.macroVars : Expr → List Name
  | .macroVar n => [n]
  | .macroCall _ args | .reporter _ args => Expr.macroVarsAll args
  | .unary _ _ e | .listIndex _ e | .listContains _ e => e.macroVars
  | .binary _ _ l r | .index _ l r => l.macroVars ++ r.macroVars
  | .literal _ | .argument _ | .var _ | .listLength _ | .sensingOf _ _ => []

def Expr.macroVarsAll : List Expr → List Name
  | [] => []
  | e :: es => e.macroVars ++ Expr.macroVarsAll es

end

-- The macro parameters in what a declaration runs. Those in the bodies of macros do not count.
def Decl.macroVars (d : Decl) : List Name :=
  d.exprs.flatMap Expr.macroVars

-- Two declarations that can only differ in what they run: in the body of a function or of an
-- event, and in the threshold of an event.
inductive Decl.Alike : Decl → Decl → Prop
  | function {name params body body' warp} :
    Alike (.function name params body warp) (.function name params body' warp)
  | event {span event body body'} (f : Expr → Expr) :
    Alike (.event span event body) (.event span (event.mapExprs f) body')
  | refl {d} : Alike d d

variable {P Q : Name → Prop} {params : List String} {args : List Expr}

theorem Expr.mem_macroVarsAll {es : List Expr} {x : Name} :
    x ∈ macroVarsAll es ↔ ∃ e ∈ es, x ∈ e.macroVars := by
  induction es <;> simp_all [macroVarsAll]

section Substitute

-- What takes the place of the parameters with `P` names none but those with `Q`, and neither does
-- what takes the place of calls, unless the arguments do.
structure Substitution.Leaves (P Q : Name → Prop) (r : Substitution) : Prop where
  param : ∀ {n w}, P n → r.param n = .ok w → ∀ x ∈ w.macroVars, Q x
  call  : ∀ {n ws w}, r.call n ws = .ok w → (∀ x ∈ Expr.macroVarsAll ws, Q x) →
    ∀ x ∈ w.macroVars, Q x

variable {r : Substitution}

mutual

theorem Expr.macroVars_substitute (h : r.Leaves P Q) : ∀ {e w : Expr}, e.substitute r = .ok w →
    (∀ x ∈ e.macroVars, P x) → ∀ x ∈ w.macroVars, Q x
  | .literal _, _, he, _ | .argument _, _, he, _ | .var _, _, he, _ | .listLength _, _, he, _
  | .sensingOf _ _, _, he, _ => Except.ok.inj he ▸ nofun
  | .macroVar n, _, he, hn => h.param (hn n (List.mem_singleton_self n)) he
  | .macroCall _ args, _, he, hn => by
    simp only [substitute, bind_eq_ok] at he
    have ⟨_, _, _, ha, he⟩ := he
    exact h.call he (Expr.macroVars_substituteAll h ha hn)
  | .reporter _ args, _, he, hn => by
    simp only [substitute, bind_eq_ok, pure_eq_ok] at he
    have ⟨_, ha, he⟩ := he
    exact he ▸ Expr.macroVars_substituteAll h ha hn
  | .unary _ _ e, _, he, hn | .listIndex _ e, _, he, hn | .listContains _ e, _, he, hn => by
    simp only [substitute, bind_eq_ok, pure_eq_ok] at he
    have ⟨_, ha, he⟩ := he
    have ha := Expr.macroVars_substitute (e := e) h ha hn
    exact he ▸ ha
  | .binary _ _ e₁ e₂, _, he, hn | .index _ e₁ e₂, _, he, hn => by
    simp only [substitute, bind_eq_ok, pure_eq_ok] at he
    have ⟨_, h₁, _, h₂, he⟩ := he
    have ⟨hn₁, hn₂⟩ := List.forall_mem_append.mp hn
    exact he ▸ List.forall_mem_append.mpr
      ⟨Expr.macroVars_substitute h h₁ hn₁, Expr.macroVars_substitute h h₂ hn₂⟩

theorem Expr.macroVars_substituteAll (h : r.Leaves P Q) : ∀ {es ws : List Expr},
    substituteAll r es = .ok ws → (∀ x ∈ macroVarsAll es, P x) → ∀ x ∈ macroVarsAll ws, Q x
  | [], _, he, _ => Except.ok.inj he ▸ nofun
  | e :: es, _, he, hn => by
    simp only [substituteAll, bind_eq_ok, pure_eq_ok] at he
    have ⟨_, h₁, _, h₂, he⟩ := he
    have ⟨hn₁, hn₂⟩ := List.forall_mem_append.mp hn
    exact he ▸ List.forall_mem_append.mpr
      ⟨Expr.macroVars_substitute h h₁ hn₁, Expr.macroVars_substituteAll h h₂ hn₂⟩

end

-- What holds of the expressions of a body once they are substituted in holds of those it comes to.
theorem Stmt.forall_exprs_substituteBody {E F : Expr → Prop}
    (hr : ∀ {e w : Expr}, e.substitute r = .ok w → E e → F w) {ss ss' : List Stmt}
    (h : substituteBody r ss = .ok ss') (he : ∀ e ∈ exprsAll ss, E e) :
    ∀ e ∈ exprsAll ss', F e := by
  obtain ⟨hs, hm⟩ := succeeds_of_substituteBody h
  rw [← hm, exprs_mapBody, List.forall_mem_map]
  exact fun e hm => hr (hs e hm) (he e hm)

theorem Event.exprs_mapExprs {f : Expr → Expr} {event : Event} :
    (event.mapExprs f).exprs = event.exprs.map f := by
  cases event <;> rfl

theorem Event.eq_of_substitute {event event' : Event} (h : event.substitute r = .ok event') :
    event' = event.mapExprs (Expr.substituted r) := by
  cases event
  case loudness e | timer e =>
    simp only [substitute, bind_eq_ok, pure_eq_ok] at h
    obtain ⟨_, he, rfl⟩ := h
    rw [mapExprs, (Expr.succeeds_of_substitute he).2]
  all_goals exact (Except.ok.inj h).symm

end Substitute

namespace Macro

-- None of the parameters that a body names are left, as each is one of the macro.
theorem leaves_substitution (h : ∀ x ∈ Expr.macroVarsAll args, Q x) :
    (substitution params args).Leaves (fun _ => True) Q where
  param {n w} _ hw := by
    change argument params args n = .ok w at hw
    unfold argument at hw
    split at hw
    case h_1 e hl =>
      obtain rfl := Except.ok.inj hw
      have hm := (List.of_mem_zip (mem_of_lookup_eq_some hl)).2
      exact fun x hx => h x (Expr.mem_macroVarsAll.mpr ⟨_, hm, hx⟩)
    case h_2 => contradiction
  call hw hs := Except.ok.inj hw ▸ hs

theorem leaves_expansion {macros : Std.TreeMap String ExprMacro} {depth : Nat}
    {active : List String} : (expansion macros (expandCall macros depth active)).Leaves Q Q where
  param hn hw := Except.ok.inj hw ▸ List.forall_mem_singleton.mpr hn
  call {n ws w} hw hs := by
    change expandCall macros depth active n ws = .ok w at hw
    cases depth
    case zero => contradiction
    case succ depth =>
      obtain ⟨m, _, hw⟩ := bind_eq_ok.mp hw
      split at hw
      · contradiction
      obtain ⟨body, _, hw⟩ := bind_eq_ok.mp hw
      exact Expr.macroVars_substitute (leaves_substitution hs) hw fun _ _ => trivial

end Macro

section Splice

-- The expressions in what takes the place of a call have what those in its arguments have.
def Splice.Passes (E : Expr → Prop) (call : Splice) : Prop :=
  ∀ {n args ss}, call n args = .ok ss → (∀ e ∈ args, E e) → ∀ e ∈ Stmt.exprsAll ss, E e

variable {E : Expr → Prop} {call : Splice}

namespace Stmt

theorem exprsAll_append {ss ss' : List Stmt} :
    exprsAll (ss ++ ss') = exprsAll ss ++ exprsAll ss' := by
  induction ss <;> simp_all [exprsAll]

theorem exprsAll_singleton {s : Stmt} : exprsAll [s] = s.exprs :=
  List.append_nil _

mutual

theorem forall_exprs_splice (h : call.Passes E) : ∀ {s : Stmt} {ss : List Stmt},
    s.splice call = .ok ss → (∀ e ∈ s.exprs, E e) → ∀ e ∈ exprsAll ss, E e
  | .macroCall .., _, hs, he => h hs he
  | .branch _ branches none, _, hs, he => by
    simp only [splice, bind_eq_ok, pure_eq_ok] at hs
    have ⟨_, hb, hs⟩ := hs
    rw [← hs, exprsAll_singleton]
    exact forall_exprs_spliceBranches h hb he
  | .branch _ branches (some body), _, hs, he => by
    simp only [splice, bind_eq_ok, pure_eq_ok] at hs
    have ⟨_, h₁, _, h₂, hs⟩ := hs
    have ⟨he₁, he₂⟩ := List.forall_mem_append.mp he
    rw [← hs, exprsAll_singleton]
    exact List.forall_mem_append.mpr
      ⟨forall_exprs_spliceBranches h h₁ he₁, forall_exprs_spliceBody h h₂ he₂⟩
  | .loopUntil _ _ body, _, hs, he | .loopTimes _ _ body, _, hs, he => by
    simp only [splice, bind_eq_ok, pure_eq_ok] at hs
    have ⟨_, hb, hs⟩ := hs
    have ⟨he, hes⟩ := List.forall_mem_cons.mp he
    rw [← hs, exprsAll_singleton]
    exact List.forall_mem_cons.mpr ⟨he, forall_exprs_spliceBody h hb hes⟩
  | .forever _ body, _, hs, he => by
    simp only [splice, bind_eq_ok, pure_eq_ok] at hs
    have ⟨_, hb, hs⟩ := hs
    rw [← hs, exprsAll_singleton]
    exact forall_exprs_spliceBody h hb he
  | .call .., _, hs, he | .declareLocal .., _, hs, he | .assign .., _, hs, he
  | .compound .., _, hs, he | .increment .., _, hs, he | .listSet .., _, hs, he
  | .listAdd .., _, hs, he | .listDelete .., _, hs, he | .listDeleteAll .., _, hs, he
  | .listInsert .., _, hs, he | .listReplace .., _, hs, he | .showMonitor .., _, hs, he
  | .hideMonitor .., _, hs, he => by
    rw [← Except.ok.inj hs, exprsAll_singleton]
    exact he

theorem forall_exprs_spliceBody (h : call.Passes E) : ∀ {ss ss' : List Stmt},
    spliceBody call ss = .ok ss' → (∀ e ∈ exprsAll ss, E e) → ∀ e ∈ exprsAll ss', E e
  | [], _, hs, he => Except.ok.inj hs ▸ he
  | s :: ss, _, hs, he => by
    simp only [spliceBody, bind_eq_ok, pure_eq_ok] at hs
    have ⟨_, h₁, _, h₂, hs⟩ := hs
    have ⟨he₁, he₂⟩ := List.forall_mem_append.mp he
    rw [← hs, exprsAll_append]
    exact List.forall_mem_append.mpr
      ⟨forall_exprs_splice h h₁ he₁, forall_exprs_spliceBody h h₂ he₂⟩

theorem forall_exprs_spliceBranches (h : call.Passes E) :
    ∀ {bs bs' : List (Expr × List Stmt)}, spliceBranches call bs = .ok bs' →
    (∀ e ∈ exprsOfBranches bs, E e) → ∀ e ∈ exprsOfBranches bs', E e
  | [], _, hs, he => Except.ok.inj hs ▸ he
  | (_, body) :: rest, _, hs, he => by
    simp only [spliceBranches, bind_eq_ok, pure_eq_ok] at hs
    have ⟨_, h₁, _, h₂, hs⟩ := hs
    have ⟨he, he₂⟩ := List.forall_mem_append.mp he
    have ⟨he, he₁⟩ := List.forall_mem_cons.mp he
    exact hs ▸ List.forall_mem_append.mpr ⟨List.forall_mem_cons.mpr
      ⟨he, forall_exprs_spliceBody h h₁ he₁⟩, forall_exprs_spliceBranches h h₂ he₂⟩

end

end Stmt

theorem Macro.passes_spliceCall {macros : Std.TreeMap String BlockMacro} {depth : Nat}
    {active : List String} :
    Splice.Passes (fun e => ∀ x ∈ e.macroVars, Q x) (spliceCall macros depth active) := by
  intro name args ss hs ha
  cases depth
  case zero => contradiction
  case succ depth =>
    obtain ⟨m, _, hs⟩ := bind_eq_ok.mp hs
    split at hs
    · contradiction
    obtain ⟨body, _, hs⟩ := bind_eq_ok.mp hs
    have ha : ∀ x ∈ Expr.macroVarsAll args, Q x := fun x hx =>
      have ⟨e, he, hx⟩ := Expr.mem_macroVarsAll.mp hx
      ha e he x hx
    exact Stmt.forall_exprs_substituteBody (E := fun _ => True)
      (fun hw _ => Expr.macroVars_substitute (leaves_substitution ha) hw fun _ _ => trivial)
      hs fun _ _ => trivial

end Splice

section Again

variable {call : Name → List Expr → Except Diagnostic Expr} {splice : Splice}
  {macros : Std.TreeMap String ExprMacro} {r : Substitution}

mutual

-- Without calls there is nothing to expand.
theorem Expr.expansion_eq_self : ∀ {e : Expr}, e.calls = [] →
    e.substitute (Macro.expansion macros call) = .ok e
  | .literal _, _ | .argument _, _ | .var _, _ | .macroVar _, _ | .listLength _, _
  | .sensingOf _ _, _ => rfl
  | .macroCall _ _, h => by simp [calls] at h
  | .reporter _ args, h => by
    rw [substitute, Expr.expansionAll_eq_self h]
    rfl
  | .unary _ _ e, h | .listIndex _ e, h | .listContains _ e, h => by
    rw [substitute, Expr.expansion_eq_self (e := e) h]
    rfl
  | .binary _ _ e₁ e₂, h | .index _ e₁ e₂, h => by
    have ⟨h₁, h₂⟩ := List.append_eq_nil_iff.mp h
    rw [substitute, Expr.expansion_eq_self h₁, Expr.expansion_eq_self h₂]
    rfl

theorem Expr.expansionAll_eq_self : ∀ {es : List Expr}, callsAll es = [] →
    substituteAll (Macro.expansion macros call) es = .ok es
  | [], _ => rfl
  | e :: es, h => by
    have ⟨h₁, h₂⟩ := List.append_eq_nil_iff.mp h
    rw [substituteAll, Expr.expansion_eq_self h₁, Expr.expansionAll_eq_self h₂]
    rfl

end

-- A body is substituted in if each of its expressions can be.
theorem Expr.substituteAll_eq_map {f : Expr → Expr} {es : List Expr}
    (h : ∀ e ∈ es, e.substitute r = .ok (f e)) : substituteAll r es = .ok (es.map f) := by
  induction es
  case nil => rfl
  case cons e es hi =>
    have ⟨he, hes⟩ := List.forall_mem_cons.mp h
    rw [substituteAll, he, hi hes]
    rfl

namespace Stmt

variable {f : Expr → Expr}

mutual

theorem substitute_eq_map : ∀ {s : Stmt}, (∀ e ∈ s.exprs, e.substitute r = .ok (f e)) →
    s.substitute r = .ok (s.mapExprs f)
  | .increment _, _ | .listDeleteAll _, _ | .showMonitor _, _ | .hideMonitor _, _ => rfl
  | .call _ es _, h | .macroCall _ es, h | .listSet _ es, h => by
    have hs : Expr.substituteAll r es = .ok (es.map f) := Expr.substituteAll_eq_map h
    rw [substitute, hs]
    rfl
  | .declareLocal _ e, h | .assign _ e, h | .compound _ _ e, h | .listAdd _ e, h
  | .listDelete _ e, h => by
    rw [substitute, h e (List.mem_singleton_self e)]
    rfl
  | .listInsert _ i e, h | .listReplace _ i _ e, h => by
    have ⟨h₁, h₂⟩ := List.forall_mem_cons.mp h
    rw [substitute, h₁, h₂ e (List.mem_singleton_self e)]
    rfl
  | .branch _ branches none, h => by
    rw [substitute, substituteBranches_eq_map h]
    rfl
  | .branch _ branches (some body), h => by
    have ⟨h₁, h₂⟩ := List.forall_mem_append.mp h
    rw [substitute, substituteBranches_eq_map h₁, substituteBody_eq_map h₂]
    rfl
  | .loopUntil _ e body, h | .loopTimes _ e body, h => by
    have ⟨he, h⟩ := List.forall_mem_cons.mp h
    rw [substitute, he, substituteBody_eq_map h]
    rfl
  | .forever _ body, h => by
    rw [substitute, substituteBody_eq_map h]
    rfl

theorem substituteBody_eq_map : ∀ {ss : List Stmt},
    (∀ e ∈ exprsAll ss, e.substitute r = .ok (f e)) → substituteBody r ss = .ok (mapBody f ss)
  | [], _ => rfl
  | s :: ss, h => by
    have ⟨h₁, h₂⟩ := List.forall_mem_append.mp h
    rw [substituteBody, substitute_eq_map h₁, substituteBody_eq_map h₂]
    rfl

theorem substituteBranches_eq_map : ∀ {branches : List (Expr × List Stmt)},
    (∀ e ∈ exprsOfBranches branches, e.substitute r = .ok (f e)) →
    substituteBranches r branches = .ok (mapBranches f branches)
  | [], _ => rfl
  | (e, body) :: rest, h => by
    have ⟨h, h₃⟩ := List.forall_mem_append.mp h
    have ⟨h₁, h₂⟩ := List.forall_mem_cons.mp h
    rw [substituteBranches, h₁, substituteBody_eq_map h₂, substituteBranches_eq_map h₃]
    rfl

end

mutual

theorem splice_eq_self : ∀ {s : Stmt}, s.calls = [] → s.splice splice = .ok [s]
  | .macroCall _ _, h => by simp [calls] at h
  | .branch _ branches none, h => by
    rw [Stmt.splice, spliceBranches_eq_self h]
    rfl
  | .branch _ branches (some body), h => by
    have ⟨h₁, h₂⟩ := List.append_eq_nil_iff.mp h
    rw [Stmt.splice, spliceBranches_eq_self h₁, spliceBody_eq_self h₂]
    rfl
  | .loopUntil _ _ body, h | .loopTimes _ _ body, h | .forever _ body, h => by
    rw [Stmt.splice, spliceBody_eq_self h]
    rfl
  | .call .., _ | .declareLocal .., _ | .assign .., _ | .compound .., _ | .increment .., _
  | .listSet .., _ | .listAdd .., _ | .listDelete .., _ | .listDeleteAll .., _
  | .listInsert .., _ | .listReplace .., _ | .showMonitor .., _ | .hideMonitor .., _ => by
    simp [Stmt.splice]

theorem spliceBody_eq_self : ∀ {ss : List Stmt}, callsAll ss = [] →
    spliceBody splice ss = .ok ss
  | [], _ => rfl
  | s :: ss, h => by
    have ⟨h₁, h₂⟩ := List.append_eq_nil_iff.mp h
    rw [spliceBody, splice_eq_self h₁, spliceBody_eq_self h₂]
    rfl

theorem spliceBranches_eq_self : ∀ {branches : List (Expr × List Stmt)},
    callsOfBranches branches = [] → spliceBranches splice branches = .ok branches
  | [], _ => rfl
  | (_, body) :: rest, h => by
    have ⟨h₁, h₂⟩ := List.append_eq_nil_iff.mp h
    rw [spliceBranches, spliceBody_eq_self h₁, spliceBranches_eq_self h₂]
    rfl

end

end Stmt

theorem Event.substitute_eq_map {f : Expr → Expr} {event : Event}
    (h : ∀ e ∈ event.exprs, e.substitute r = .ok (f e)) :
    event.substitute r = .ok (event.mapExprs f) := by
  cases event
  case loudness e | timer e =>
    rw [substitute, h e (List.mem_singleton_self e)]
    rfl
  all_goals rfl

end Again

namespace Decl

variable {d : Decl} {f : Expr → Expr}

-- A declaration with each of the expressions in what it runs changed.
def mapExprs (f : Expr → Expr) : Decl → Decl
  | .function name params body warp => .function name params (Stmt.mapBody f body) warp
  | .event span kind body => .event span (kind.mapExprs f) (Stmt.mapBody f body)
  | d => d

theorem exprs_mapExprs : (d.mapExprs f).exprs = d.exprs.map f := by
  cases d
  case function => exact Stmt.exprs_mapBody _
  case event =>
    simp only [mapExprs, exprs, List.map_append, Event.exprs_mapExprs, Stmt.exprs_mapBody]
  all_goals rfl

theorem body_mapExprs : (d.mapExprs f).body = Stmt.mapBody f d.body := by
  cases d <;> rfl

theorem mapExprs_eq_self (h : ∀ e ∈ d.exprs, f e = e) : d.mapExprs f = d := by
  cases d
  case function => rw [mapExprs, Stmt.mapBody_eq_self h]
  case event =>
    have ⟨h₁, h₂⟩ := List.forall_mem_append.mp h
    rw [mapExprs, Event.mapExprs_eq_self h₁, Stmt.mapBody_eq_self h₂]
  all_goals rfl

theorem Alike.of_expanded {body : List Stmt} : d.Alike ((d.withBody body).mapExprs f) := by
  cases d
  case function => exact .function
  case event => exact .event f
  all_goals exact .refl

end Decl

namespace SpriteTree

variable {s : Symbols} {tree tree' : SpriteTree} {d d' : Decl}
  {blockMacros : Std.TreeMap String BlockMacro} {exprMacros : Std.TreeMap String ExprMacro}

-- What is left of a sprite when its macros have been expanded.
structure Expanded (s : Symbols) (tree tree' : SpriteTree) : Prop where
  blockCalls : HasNoBlockCalls tree'
  exprCalls  : HasNoExprCalls tree'
  macroVars  : List.Forall₂ (fun d d' => ∀ x ∈ d'.macroVars, x ∈ d.macroVars) tree tree'
  alike      : List.Forall₂ Decl.Alike tree tree'
  again      : expandMacros s tree' = .ok tree'

theorem exprs_expandBlocks {E : Expr → Prop}
    (hE : (Macro.spliceCall blockMacros (blockMacros.size + 1) []).Passes E)
    (h : expandBlocks blockMacros d = .ok d') (he : ∀ e ∈ d.exprs, E e) : ∀ e ∈ d'.exprs, E e := by
  obtain ⟨body, hs, rfl⟩ := expandBlocks_eq_ok h
  cases d
  case function => exact Stmt.forall_exprs_spliceBody hE hs he
  case event =>
    have ⟨he₁, he₂⟩ := List.forall_mem_append.mp he
    exact List.forall_mem_append.mpr ⟨he₁, Stmt.forall_exprs_spliceBody hE hs he₂⟩
  all_goals exact he

theorem eq_of_expandExprs (h : expandExprs exprMacros d = .ok d') :
    d' = d.mapExprs (Expr.substituted (Macro.expansion exprMacros
      (Macro.expandCall exprMacros (exprMacros.size + 1) []))) := by
  cases d
  case function =>
    simp only [expandExprs, bind_eq_ok, pure_eq_ok] at h
    obtain ⟨_, hs, rfl⟩ := h
    rw [Decl.mapExprs, (Stmt.succeeds_of_substituteBody hs).2]
  case event =>
    simp only [expandExprs, bind_eq_ok, pure_eq_ok] at h
    obtain ⟨_, he, _, hs, rfl⟩ := h
    rw [Decl.mapExprs, Event.eq_of_substitute he, (Stmt.succeeds_of_substituteBody hs).2]
  all_goals exact (Except.ok.inj h).symm

-- The parameters left in a declaration are those that stood in it before.
theorem macroVars_expanded {spliced : Decl} (hb : expandBlocks blockMacros d = .ok spliced)
    (he : expandExprs exprMacros spliced = .ok d') : ∀ x ∈ d'.macroVars, x ∈ d.macroVars := by
  have hd : ∀ e ∈ d.exprs, ∀ x ∈ e.macroVars, x ∈ d.macroVars :=
    fun e he x hx => List.mem_flatMap.mpr ⟨e, he, hx⟩
  have hs : ∀ e ∈ spliced.exprs, ∀ x ∈ e.macroVars, x ∈ d.macroVars :=
    exprs_expandBlocks Macro.passes_spliceCall hb hd
  have hw := succeeds_of_expandExprs he
  intro x hx
  obtain ⟨w, hm, hx⟩ := List.mem_flatMap.mp hx
  rw [eq_of_expandExprs he, Decl.exprs_mapExprs] at hm
  obtain ⟨e, he, rfl⟩ := List.mem_map.mp hm
  exact Expr.macroVars_substitute Macro.leaves_expansion (hw e he) (hs e he) x hx

theorem callsAll_expandExprs (h : expandExprs exprMacros d = .ok d') :
    Stmt.callsAll d'.body = Stmt.callsAll d.body := by
  rw [eq_of_expandExprs h, Decl.body_mapExprs, Stmt.calls_mapBody]

theorem expandBlocks_eq_self (h : Stmt.callsAll d.body = []) :
    expandBlocks blockMacros d = .ok d := by
  cases d
  case function name params body warp =>
    have h : Stmt.callsAll body = [] := h
    rw [expandBlocks, Stmt.spliceBody_eq_self h]
    rfl
  case event span event body =>
    have h : Stmt.callsAll body = [] := h
    rw [expandBlocks, Stmt.spliceBody_eq_self h]
    rfl
  all_goals rfl

theorem expandExprs_eq_self (h : ∀ e ∈ d.exprs, e.calls = []) :
    expandExprs exprMacros d = .ok d := by
  have h : ∀ e ∈ d.exprs, e.substitute (Macro.expansion exprMacros
      (Macro.expandCall exprMacros (exprMacros.size + 1) [])) = .ok (id e) :=
    fun e he => Expr.expansion_eq_self (h e he)
  have hd : d.mapExprs id = d := Decl.mapExprs_eq_self fun _ _ => rfl
  cases d
  case function =>
    rw [expandExprs, Stmt.substituteBody_eq_map h]
    exact congrArg _ hd
  case event =>
    obtain ⟨h₁, h₂⟩ := List.forall_mem_append.mp h
    rw [expandExprs, Event.substitute_eq_map h₁, Stmt.substituteBody_eq_map h₂]
    exact congrArg _ hd
  all_goals rfl

theorem expandMacros_eq_self (hb : HasNoBlockCalls tree) (he : HasNoExprCalls tree) :
    expandMacros s tree = .ok tree :=
  bind_eq_ok.mpr ⟨tree, mapM_eq_self fun d hd => expandBlocks_eq_self (hb d hd),
    mapM_eq_self fun d hd => expandExprs_eq_self (he d hd)⟩

theorem expanded_of_expandMacros (h : expandMacros s tree = .ok tree') : Expanded s tree tree' := by
  obtain ⟨spliced, hb, he⟩ := bind_eq_ok.mp h
  have hb := forall₂_of_mapM hb
  have he := forall₂_of_mapM he
  have hc : HasNoBlockCalls tree' := fun d' hd => by
    obtain ⟨d, hd, he⟩ := mem_of_forall₂ he hd
    obtain ⟨_, _, hb⟩ := mem_of_forall₂ hb hd
    rw [callsAll_expandExprs he, calls_expandBlocks hb]
  have hn : HasNoExprCalls tree' := fun d' hd => by
    obtain ⟨_, _, he⟩ := mem_of_forall₂ he hd
    exact calls_expandExprs he
  exact {
    blockCalls := hc
    exprCalls  := hn
    macroVars  := forall₂_trans hb he macroVars_expanded
    alike      := forall₂_trans hb he fun hb he => by
      obtain ⟨body, _, rfl⟩ := expandBlocks_eq_ok hb
      exact eq_of_expandExprs he ▸ .of_expanded
    again      := expandMacros_eq_self hc hn
  }

-- An event whose threshold and body call macros, with parameters that belong to none.
def strayMacros : String :=
  "macro INC x -> x! + 1;\n" ++
  "macro TELL x \x7b say INC!(INC!(x!)); \x7d\n" ++
  "ontimer INC!(a!) \x7b TELL!(INC!(b!)); say c!; \x7d\n"

theorem expanded_strayMacros : ∃ tree s tree', SpriteTree.ofSource strayMacros = .ok tree ∧
    Symbols.ofTree MemoryTree.empty.source ⟨"p"⟩ .none tree = .ok s ∧
    expandMacros s tree = .ok tree' ∧
    tree.getLast?.map (fun d => Stmt.callsAll d.body ++ Expr.callsAll d.exprs) =
      some ["TELL", "INC", "INC"] ∧
    tree'.getLast?.map (fun d => d.macroVars.map Name.text) = some ["a", "b", "c"] ∧
    Expanded s tree tree' := by
  have h : (do
      let tree ← SpriteTree.ofSource strayMacros
      let s ← Symbols.ofTree MemoryTree.empty.source ⟨"p"⟩ .none tree
      let tree' ← expandMacros s tree
      return (
        tree.getLast?.map fun d => Stmt.callsAll (Decl.body d) ++ Expr.callsAll (Decl.exprs d),
        tree'.getLast?.map fun d => (Decl.macroVars d).map Name.text)) =
      .ok (some ["TELL", "INC", "INC"], some ["a", "b", "c"]) := by
    decide +kernel
  simp only [bind_eq_ok, pure_eq_ok, Prod.mk.injEq] at h
  obtain ⟨tree, ht, s, hs, tree', he, hc, hv⟩ := h
  exact ⟨tree, s, tree', ht, hs, he, hc, hv, expanded_of_expandMacros he⟩

end SpriteTree

end BlockLang
