import BlockLang.Proofs.Macro.Bind

/-!
Unfolding the calls of block macros in a body settles on the body with the macros spliced in.
-/

namespace BlockLang

section Stmt

variable {macros : Std.TreeMap String BlockMacro}

-- Unfolding settles on what takes the place of a call, with the arguments as they are.
structure Splice.Unfolds (macros : Std.TreeMap String BlockMacro) (call : Splice) : Prop where
  calls   : ∀ {n args ss}, call n args = .ok ss → Stmt.callsAll ss = []
  settles : ∀ {n args ss}, call n args = .ok ss → ∀ σ, Settles (Stmt.unfoldBody macros)
    [.macroCall n (args.map (Expr.bind σ))] (Stmt.mapBody (Expr.bind σ) ss)

namespace Stmt

section Splice

variable {call : Splice}

mutual

theorem calls_splice (h : call.Unfolds macros) : ∀ {s : Stmt} {ss : List Stmt},
    s.splice call = .ok ss → callsAll ss = []
  | .macroCall .., _, hs => h.calls hs
  | .branch _ branches none, _, hs => by
    simp only [splice, bind_eq_ok, pure_eq_ok] at hs
    have ⟨_, hb, hs⟩ := hs
    simp [← hs, callsAll, calls, calls_spliceBranches h hb]
  | .branch _ branches (some body), _, hs => by
    simp only [splice, bind_eq_ok, pure_eq_ok] at hs
    have ⟨_, h₁, _, h₂, hs⟩ := hs
    simp [← hs, callsAll, calls, calls_spliceBranches h h₁, calls_spliceBody h h₂]
  | .loopUntil _ _ body, _, hs | .loopTimes _ _ body, _, hs | .forever _ body, _, hs => by
    simp only [splice, bind_eq_ok, pure_eq_ok] at hs
    have ⟨_, hb, hs⟩ := hs
    simp [← hs, callsAll, calls, calls_spliceBody h hb]
  | .call .., _, hs | .declareLocal .., _, hs | .assign .., _, hs | .compound .., _, hs
  | .increment .., _, hs | .listSet .., _, hs | .listAdd .., _, hs | .listDelete .., _, hs
  | .listDeleteAll .., _, hs | .listInsert .., _, hs | .listReplace .., _, hs
  | .showMonitor .., _, hs | .hideMonitor .., _, hs =>
    Except.ok.inj hs ▸ by simp [callsAll, calls]

theorem calls_spliceBody (h : call.Unfolds macros) : ∀ {ss ss' : List Stmt},
    spliceBody call ss = .ok ss' → callsAll ss' = []
  | [], _, hs => Except.ok.inj hs ▸ rfl
  | s :: ss, _, hs => by
    simp only [spliceBody, bind_eq_ok, pure_eq_ok] at hs
    have ⟨_, h₁, _, h₂, hs⟩ := hs
    rw [← hs, callsAll_append, calls_splice h h₁, calls_spliceBody h h₂, List.append_nil]

theorem calls_spliceBranches (h : call.Unfolds macros) : ∀ {bs bs' : List (Expr × List Stmt)},
    spliceBranches call bs = .ok bs' → callsOfBranches bs' = []
  | [], _, hs => Except.ok.inj hs ▸ rfl
  | (_, body) :: rest, _, hs => by
    simp only [spliceBranches, bind_eq_ok, pure_eq_ok] at hs
    have ⟨_, h₁, _, h₂, hs⟩ := hs
    rw [← hs, callsOfBranches, calls_spliceBody h h₁, calls_spliceBranches h h₂, List.append_nil]

end

-- A statement settles if what is in it does.
theorem settles_singleton {α : Type} {f : α → α} {k : α → Stmt} {a b : α}
    (hk : ∀ a, (k a).unfold macros = [k (f a)]) (h : Settles f a b) :
    Settles (unfoldBody macros) [k a] [k b] :=
  h.map (k := fun a => [k a]) fun a => by rw [unfoldBody, hk]; rfl

mutual

theorem settles_splice (h : call.Unfolds macros) (σ : Name → Expr) : ∀ {s : Stmt} {ss : List Stmt},
    s.splice call = .ok ss →
    Settles (unfoldBody macros) [s.mapExprs (Expr.bind σ)] (mapBody (Expr.bind σ) ss)
  | .macroCall .., _, hs => h.settles hs σ
  | .branch s branches none, _, hs => by
    simp only [splice, bind_eq_ok, pure_eq_ok] at hs
    have ⟨_, hb, hs⟩ := hs
    exact hs ▸ settles_singleton (k := fun bs => .branch s bs none) (fun _ => rfl)
      (settles_spliceBranches h σ hb)
  | .branch s branches (some body), _, hs => by
    simp only [splice, bind_eq_ok, pure_eq_ok] at hs
    have ⟨_, h₁, _, h₂, hs⟩ := hs
    exact hs ▸ settles_singleton (k := fun p => .branch s p.1 (some p.2)) (fun _ => rfl)
      ((settles_spliceBranches h σ h₁).prod (settles_spliceBody h σ h₂))
  | .loopUntil s e body, _, hs => by
    simp only [splice, bind_eq_ok, pure_eq_ok] at hs
    have ⟨_, hb, hs⟩ := hs
    exact hs ▸ settles_singleton (k := .loopUntil s (e.bind σ)) (fun _ => rfl)
      (settles_spliceBody h σ hb)
  | .loopTimes s e body, _, hs => by
    simp only [splice, bind_eq_ok, pure_eq_ok] at hs
    have ⟨_, hb, hs⟩ := hs
    exact hs ▸ settles_singleton (k := .loopTimes s (e.bind σ)) (fun _ => rfl)
      (settles_spliceBody h σ hb)
  | .forever s body, _, hs => by
    simp only [splice, bind_eq_ok, pure_eq_ok] at hs
    have ⟨_, hb, hs⟩ := hs
    exact hs ▸ settles_singleton (k := .forever s) (fun _ => rfl) (settles_spliceBody h σ hb)
  | .call .., _, hs | .declareLocal .., _, hs | .assign .., _, hs | .compound .., _, hs
  | .increment .., _, hs | .listSet .., _, hs | .listAdd .., _, hs | .listDelete .., _, hs
  | .listDeleteAll .., _, hs | .listInsert .., _, hs | .listReplace .., _, hs
  | .showMonitor .., _, hs | .hideMonitor .., _, hs =>
    Except.ok.inj hs ▸ .of_fixed (unfoldBody_eq_self rfl)

theorem settles_spliceBody (h : call.Unfolds macros) (σ : Name → Expr) : ∀ {ss ss' : List Stmt},
    spliceBody call ss = .ok ss' →
    Settles (unfoldBody macros) (mapBody (Expr.bind σ) ss) (mapBody (Expr.bind σ) ss')
  | [], _, hs => Except.ok.inj hs ▸ .of_fixed rfl
  | s :: ss, _, hs => by
    simp only [spliceBody, bind_eq_ok, pure_eq_ok] at hs
    have ⟨_, h₁, _, h₂, hs⟩ := hs
    have hk : Function.Semiconj (fun p : List Stmt × List Stmt => p.1 ++ p.2)
        (Prod.map (unfoldBody macros) (unfoldBody macros)) (unfoldBody macros) :=
      fun _ => unfoldBody_append.symm
    rw [← hs, mapBody_append]
    exact ((settles_splice h σ h₁).prod (settles_spliceBody h σ h₂)).map hk

theorem settles_spliceBranches (h : call.Unfolds macros) (σ : Name → Expr) :
    ∀ {bs bs' : List (Expr × List Stmt)}, spliceBranches call bs = .ok bs' →
    Settles (unfoldBranches macros) (mapBranches (Expr.bind σ) bs) (mapBranches (Expr.bind σ) bs')
  | [], _, hs => Except.ok.inj hs ▸ .of_fixed rfl
  | (e, body) :: rest, _, hs => by
    simp only [spliceBranches, bind_eq_ok, pure_eq_ok] at hs
    have ⟨_, h₁, _, h₂, hs⟩ := hs
    have hk : Function.Semiconj (fun p => (e.bind σ, p.1) :: p.2)
        (Prod.map (unfoldBody macros) (unfoldBranches macros)) (unfoldBranches macros) :=
      fun _ => rfl
    rw [← hs, mapBranches, mapBranches]
    exact ((settles_spliceBody h σ h₁).prod (settles_spliceBranches h σ h₂)).map hk

end

end Splice

end Stmt

theorem Macro.unfolds_spliceCall {depth : Nat} {active : List String} :
    Splice.Unfolds macros (spliceCall macros depth active) := by
  induction depth generalizing active
  case zero => exact ⟨nofun, nofun⟩
  case succ depth hi =>
    constructor
    case calls =>
      intro name args ss hs
      have ⟨m, _, hs⟩ := bind_eq_ok.mp hs
      split at hs
      · contradiction
      have ⟨body, hb, hs⟩ := bind_eq_ok.mp hs
      have ⟨_, he⟩ := Stmt.succeeds_of_substituteBody hs
      rw [← he, Stmt.calls_mapBody, Stmt.calls_spliceBody hi hb]
    case settles =>
      intro name args ss hs σ
      have ⟨m, hf, hs⟩ := bind_eq_ok.mp hs
      split at hs
      · contradiction
      have ⟨body, hb, hs⟩ := bind_eq_ok.mp hs
      have hu : Stmt.unfoldBody macros [.macroCall name (args.map (Expr.bind σ))] =
          Stmt.mapBody (Expr.bind (given m.params (args.map (Expr.bind σ)))) m.body := by
        rw [Stmt.unfoldBody, Stmt.unfold, List.length_map, called_of_find hf]
        exact List.append_nil _
      apply Settles.step
      rw [hu, Stmt.mapBody_bind_substituteBody hs]
      exact Stmt.settles_spliceBody hi _ hb

theorem Stmt.settles_spliced {depth : Nat} {active : List String} {ss ss' : List Stmt}
    (h : spliceBody (Macro.spliceCall macros depth active) ss = .ok ss') :
    Settles (unfoldBody macros) ss ss' := by
  have hs := settles_spliceBody Macro.unfolds_spliceCall .macroVar h
  have hm : ∀ ss : List Stmt, mapBody (Expr.bind .macroVar) ss = ss :=
    fun ss => mapBody_eq_self fun e _ => e.bind_macroVar
  rwa [hm, hm] at hs

end Stmt

end BlockLang
