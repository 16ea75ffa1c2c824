import BlockLang.Proofs.Macro.Bind

/-!
Unfolding the calls in an expression settles on what the expression is expanded to.
-/

namespace BlockLang

section Expr

variable {macros : Std.TreeMap String ExprMacro}

-- Unfolding settles on `w` for `e`, whatever takes the place of parameters, as long as unfolding
-- settles for that, too. What takes their place in `e` need not have been unfolded before.
def Expr.Becomes (macros : Std.TreeMap String ExprMacro) (e w : Expr) : Prop :=
  ∀ σ τ : Name → Expr, (∀ n, Settles (unfold macros) (σ n) (τ n)) →
    Settles (unfold macros) (e.bind σ) (w.bind τ)

namespace Expr.Becomes

variable {e e' w w' : Expr} {es ws : List Expr}

theorem leaf (hb : ∀ σ, e.bind σ = e) (hu : e.unfold macros = e) : Becomes macros e e := by
  intro σ τ _
  rw [hb, hb]
  exact .of_fixed hu

theorem map {k : Expr → Expr} (hb : ∀ σ e, (k e).bind σ = k (e.bind σ))
    (hu : ∀ e, (k e).unfold macros = k (e.unfold macros)) (h : Becomes macros e w) :
    Becomes macros (k e) (k w) := by
  intro σ τ hs
  rw [hb, hb]
  exact (h σ τ hs).map fun e => (hu e).symm

theorem map₂ {k : Expr → Expr → Expr} (hb : ∀ σ e e', (k e e').bind σ = k (e.bind σ) (e'.bind σ))
    (hu : ∀ e e', (k e e').unfold macros = k (e.unfold macros) (e'.unfold macros))
    (h : Becomes macros e w) (h' : Becomes macros e' w') : Becomes macros (k e e') (k w w') := by
  intro σ τ hs
  have hk : Function.Semiconj (fun p : Expr × Expr => k p.1 p.2)
      (Prod.map (unfold macros) (unfold macros)) (unfold macros) := fun p => (hu p.1 p.2).symm
  rw [hb, hb]
  exact ((h σ τ hs).prod (h' σ τ hs)).map hk

theorem bind_all {σ τ : Name → Expr} (hs : ∀ n, Settles (unfold macros) (σ n) (τ n))
    (h : List.Forall₂ (Becomes macros) es ws) :
    List.Forall₂ (Settles (unfold macros)) (es.map (bind σ)) (ws.map (bind τ)) := by
  induction h
  case nil => exact .nil
  case cons ha _ hi => exact .cons (ha σ τ hs) hi

theorem reporter {n : Name} (h : List.Forall₂ (Becomes macros) es ws) :
    Becomes macros (.reporter n es) (.reporter n ws) := by
  intro σ τ hs
  have hk : Function.Semiconj (Expr.reporter n) (List.map (unfold macros)) (unfold macros) :=
    fun es => by rw [unfold, unfoldAll_eq]
  rw [bind, bind, bindAll_eq, bindAll_eq]
  exact (Settles.list (bind_all hs h)).map hk

-- A call becomes what the body of its macro becomes with the arguments put in.
theorem macroCall {n : Name} {m : ExprMacro} {body : Expr}
    (hm : Macro.called macros n ws.length = some m) (hb : Becomes macros m.body body)
    (h : List.Forall₂ (Becomes macros) es ws)
    (hw : body.substitute (Macro.substitution m.params ws) = .ok w) :
    Becomes macros (.macroCall n es) w := by
  intro σ τ hs
  have hu : ((Expr.macroCall n es).bind σ).unfold macros =
      m.body.bind (Macro.given m.params (es.map (bind σ))) := by
    rw [bind, bindAll_eq, unfold, List.length_map, h.length_eq, hm]
  apply Settles.step
  rw [hu, bind_substitute hw]
  exact hb _ _ fun n => Macro.given_related (fun _ => .of_fixed rfl) (bind_all hs h)

end Expr.Becomes

section Substitute

variable {call : Name → List Expr → Except Diagnostic Expr}

mutual

theorem Expr.becomes_of_substitute (hc : ∀ {n es ws w}, call n ws = .ok w →
    List.Forall₂ (Becomes macros) es ws → Becomes macros (.macroCall n es) w) :
    ∀ {e w : Expr}, e.substitute (Macro.expansion macros call) = .ok w → Becomes macros e w
  | .literal _, _, h | .argument _, _, h | .var _, _, h | .listLength _, _, h
  | .sensingOf _ _, _, h => Except.ok.inj h ▸ .leaf (fun _ => rfl) rfl
  | .macroVar n, _, h => Except.ok.inj h ▸ fun _ _ hs => hs n
  | .macroCall _ args, _, h => by
    simp only [substitute, bind_eq_ok] at h
    have ⟨_, _, _, ha, h⟩ := h
    exact hc h (Expr.becomes_of_substituteAll hc ha)
  | .reporter n args, _, h => by
    simp only [substitute, bind_eq_ok, pure_eq_ok] at h
    have ⟨_, ha, h⟩ := h
    exact h ▸ .reporter (Expr.becomes_of_substituteAll hc ha)
  | .unary op s e, _, h => by
    simp only [substitute, bind_eq_ok, pure_eq_ok] at h
    have ⟨_, he, h⟩ := h
    have he := Expr.becomes_of_substitute hc he
    exact h ▸ he.map (k := .unary op s) (fun _ _ => rfl) fun _ => rfl
  | .listIndex l e, _, h => by
    simp only [substitute, bind_eq_ok, pure_eq_ok] at h
    have ⟨_, he, h⟩ := h
    have he := Expr.becomes_of_substitute hc he
    exact h ▸ he.map (k := .listIndex l) (fun _ _ => rfl) fun _ => rfl
  | .listContains l e, _, h => by
    simp only [substitute, bind_eq_ok, pure_eq_ok] at h
    have ⟨_, he, h⟩ := h
    have he := Expr.becomes_of_substitute hc he
    exact h ▸ he.map (k := .listContains l) (fun _ _ => rfl) fun _ => rfl
  | .binary op s e₁ e₂, _, h => by
    simp only [substitute, bind_eq_ok, pure_eq_ok] at h
    have ⟨_, h₁, _, h₂, h⟩ := h
    have h₁ := Expr.becomes_of_substitute hc h₁
    have h₂ := Expr.becomes_of_substitute hc h₂
    exact h ▸ h₁.map₂ (k := .binary op s) (fun _ _ _ => rfl) (fun _ _ => rfl) h₂
  | .index s e₁ e₂, _, h => by
    simp only [substitute, bind_eq_ok, pure_eq_ok] at h
    have ⟨_, h₁, _, h₂, h⟩ := h
    have h₁ := Expr.becomes_of_substitute hc h₁
    have h₂ := Expr.becomes_of_substitute hc h₂
    exact h ▸ h₁.map₂ (k := .index s) (fun _ _ _ => rfl) (fun _ _ => rfl) h₂

theorem Expr.becomes_of_substituteAll (hc : ∀ {n es ws w}, call n ws = .ok w →
    List.Forall₂ (Becomes macros) es ws → Becomes macros (.macroCall n es) w) :
    ∀ {es ws : List Expr}, substituteAll (Macro.expansion macros call) es = .ok ws →
      List.Forall₂ (Becomes macros) es ws
  | [], _, h => Except.ok.inj h ▸ .nil
  | e :: es, _, h => by
    simp only [substituteAll, bind_eq_ok, pure_eq_ok] at h
    have ⟨_, h₁, _, h₂, h⟩ := h
    exact h ▸ .cons (Expr.becomes_of_substitute hc h₁) (Expr.becomes_of_substituteAll hc h₂)

end

mutual

-- No call is left if none is put in place of parameters and of those calls that there are.
theorem Expr.calls_substitute {r : Substitution} (hp : ∀ {n w}, r.param n = .ok w → w.calls = []) :
    ∀ {e w : Expr}, (∀ {n ws w}, n.text ∈ e.calls → r.call n ws = .ok w → callsAll ws = [] →
      w.calls = []) → e.substitute r = .ok w → w.calls = []
  | .literal _, _, _, h | .argument _, _, _, h | .var _, _, _, h | .listLength _, _, _, h
  | .sensingOf _ _, _, _, h => Except.ok.inj h ▸ rfl
  | .macroVar _, _, _, h => hp h
  | .macroCall n args, _, hc, h => by
    simp only [substitute, bind_eq_ok] at h
    have ⟨_, _, _, ha, h⟩ := h
    have ha := Expr.calls_substituteAll hp (fun hn => hc (List.mem_cons_of_mem _ hn)) ha
    exact hc List.mem_cons_self h ha
  | .reporter _ args, _, hc, h => by
    simp only [substitute, bind_eq_ok, pure_eq_ok] at h
    have ⟨_, ha, h⟩ := h
    exact h ▸ Expr.calls_substituteAll hp (fun hn => hc hn) ha
  | .unary _ _ e, _, hc, h | .listIndex _ e, _, hc, h | .listContains _ e, _, hc, h => by
    simp only [substitute, bind_eq_ok, pure_eq_ok] at h
    have ⟨_, he, h⟩ := h
    have he := Expr.calls_substitute hp (e := e) hc he
    exact h ▸ he
  | .binary _ _ e₁ e₂, _, hc, h | .index _ e₁ e₂, _, hc, h => by
    simp only [substitute, bind_eq_ok, pure_eq_ok] at h
    have ⟨_, h₁, _, h₂, h⟩ := h
    exact h ▸ List.append_eq_nil_iff.mpr
      ⟨Expr.calls_substitute hp (fun hn => hc (List.mem_append_left _ hn)) h₁,
        Expr.calls_substitute hp (fun hn => hc (List.mem_append_right _ hn)) h₂⟩

theorem Expr.calls_substituteAll {r : Substitution}
    (hp : ∀ {n w}, r.param n = .ok w → w.calls = []) : ∀ {es ws : List Expr},
    (∀ {n ws w}, n.text ∈ callsAll es → r.call n ws = .ok w → callsAll ws = [] → w.calls = []) →
    substituteAll r es = .ok ws → callsAll ws = []
  | [], _, _, h => Except.ok.inj h ▸ rfl
  | e :: es, _, hc, h => by
    simp only [substituteAll, bind_eq_ok, pure_eq_ok] at h
    have ⟨_, h₁, _, h₂, h⟩ := h
    exact h ▸ List.append_eq_nil_iff.mpr
      ⟨Expr.calls_substitute hp (fun hn => hc (List.mem_append_left _ hn)) h₁,
        Expr.calls_substituteAll hp (fun hn => hc (List.mem_append_right _ hn)) h₂⟩

end

end Substitute

namespace Macro

variable {depth : Nat} {active : List String} {name : Name} {es ws : List Expr} {w : Expr}

theorem becomes_expandCall (h : expandCall macros depth active name ws = .ok w)
    (hs : List.Forall₂ (Expr.Becomes macros) es ws) :
    Expr.Becomes macros (.macroCall name es) w := by
  induction depth generalizing active name es ws w
  case zero => contradiction
  case succ depth hi =>
    have ⟨m, hf, h⟩ := bind_eq_ok.mp h
    split at h
    · contradiction
    have ⟨body, hb, h⟩ := bind_eq_ok.mp h
    exact .macroCall (called_of_find hf) (Expr.becomes_of_substitute hi hb) hs h

theorem calls_argument {params : List String} (hs : Expr.callsAll ws = [])
    (h : argument params ws name = .ok w) : w.calls = [] := by
  unfold argument at h
  split at h
  case h_1 e hl =>
    have hm := (List.of_mem_zip (mem_of_lookup_eq_some hl)).2
    exact Except.ok.inj h ▸ Expr.callsAll_eq_nil.mp hs e hm
  case h_2 => contradiction

theorem calls_param {call : Name → List Expr → Except Diagnostic Expr}
    (h : (expansion macros call).param name = .ok w) : w.calls = [] :=
  Except.ok.inj h ▸ rfl

-- A macro does not leave calls behind, except for those in its arguments.
theorem calls_expandCall (h : expandCall macros depth active name ws = .ok w)
    (hs : Expr.callsAll ws = []) : w.calls = [] := by
  induction depth generalizing active name ws w
  case zero => contradiction
  case succ depth hi =>
    have ⟨m, _, h⟩ := bind_eq_ok.mp h
    split at h
    · contradiction
    have ⟨body, hb, h⟩ := bind_eq_ok.mp h
    have hb : body.calls = [] := Expr.calls_substitute calls_param (fun _ => hi) hb
    exact Expr.calls_substitute (calls_argument hs) (fun hn => by simp [hb] at hn) h

end Macro

theorem Expr.settles_expanded {depth : Nat} {active : List String} {e w : Expr}
    (h : e.substitute (Macro.expansion macros (Macro.expandCall macros depth active)) = .ok w) :
    Settles (unfold macros) e w := by
  have hs := becomes_of_substitute Macro.becomes_expandCall h .macroVar .macroVar
    fun _ => .of_fixed rfl
  rwa [bind_macroVar, bind_macroVar] at hs

theorem Expr.calls_expanded {depth : Nat} {active : List String} {e w : Expr}
    (h : e.substitute (Macro.expansion macros (Macro.expandCall macros depth active)) = .ok w) :
    w.calls = [] :=
  calls_substitute Macro.calls_param (fun _ => Macro.calls_expandCall) h

end Expr

end BlockLang
