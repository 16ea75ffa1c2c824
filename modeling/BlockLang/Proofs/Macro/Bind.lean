import BlockLang.Proofs.Macro.Expand
import BlockLang.Proofs.Macro.Unfold

/-!
Arguments that are substituted in, one call after the other, are put in place all at once.
-/

namespace BlockLang

namespace Macro

variable {β : Type} {macros : Std.TreeMap String (Macro β)} {kind : MacroKind} {name : Name}
  {params : List String} {args : List Expr} {count : Nat} {m : Macro β}

theorem length_of_checkCount (h : checkCount kind name params count = .ok ()) :
    params.length = count := by
  unfold checkCount at h
  split at h
  · contradiction
  split at h
  · contradiction
  omega

theorem called_of_find (h : find macros kind name count = .ok m) :
    called macros name count = some m := by
  have hm := getElem?_of_find h
  simp only [find, hm, bind_eq_ok, pure_eq_ok] at h
  obtain ⟨_, hc, _⟩ := h
  simp [called, hm, length_of_checkCount hc]

-- What is done to all arguments is done to each that is looked up.
theorem lookup_zip_map {f : Expr → Expr} {x : String} :
    (params.zip (args.map f)).lookup x = ((params.zip args).lookup x).map f := by
  induction params generalizing args
  case nil => rfl
  case cons p ps hi =>
    cases args
    case nil => rfl
    case cons a as =>
      simp only [List.map_cons, List.zip_cons_cons, List.lookup_cons, hi]
      split <;> rfl

theorem given_of_argument {f : Expr → Expr} {e : Expr} (h : argument params args name = .ok e) :
    given params (args.map f) name = f e := by
  unfold argument at h
  split at h
  case h_1 e' hl =>
    rw [given, lookup_zip_map, hl, ← Except.ok.inj h, Option.map_some, Option.getD_some]
  case h_2 => contradiction

theorem given_related {r : Expr → Expr → Prop} (hr : ∀ n, r (.macroVar n) (.macroVar n))
    {args' : List Expr} (h : List.Forall₂ r args args') :
    r (given params args name) (given params args' name) := by
  induction h generalizing params
  case nil => simpa [given] using hr name
  case cons a a' as as' ha _ hi =>
    cases params
    case nil => exact hr name
    case cons p ps =>
      have hi : r (given ps as name) (given ps as' name) := hi
      simp only [given, List.zip_cons_cons, List.lookup_cons] at hi ⊢
      split
      · exact ha
      · exact hi

end Macro

section Bind

variable {params : List String} {args : List Expr} {σ : Name → Expr}

mutual

theorem Expr.bind_macroVar : ∀ e : Expr, e.bind .macroVar = e
  | .literal _ | .argument _ | .var _ | .macroVar _ | .listLength _ | .sensingOf _ _ => rfl
  | .macroCall _ args | .reporter _ args => by rw [bind, bindAll_macroVar args]
  | .unary _ _ e | .listIndex _ e | .listContains _ e => by rw [bind, bind_macroVar e]
  | .binary _ _ e₁ e₂ | .index _ e₁ e₂ => by rw [bind, bind_macroVar e₁, bind_macroVar e₂]

theorem Expr.bindAll_macroVar : ∀ es : List Expr, bindAll .macroVar es = es
  | [] => rfl
  | e :: es => by rw [bindAll, bind_macroVar e, bindAll_macroVar es]

end

mutual

-- Arguments are substituted in all at once, and what is done to the result afterwards could as well
-- be done to the arguments.
theorem Expr.bind_substitute : ∀ {e w : Expr},
    e.substitute (Macro.substitution params args) = .ok w →
    w.bind σ = e.bind (Macro.given params (args.map (bind σ)))
  | .literal _, _, h | .argument _, _, h | .var _, _, h | .listLength _, _, h
  | .sensingOf _ _, _, h => Except.ok.inj h ▸ rfl
  | .macroVar _, _, h => (Macro.given_of_argument h).symm
  | .macroCall _ args, _, h => by
    simp only [substitute, bind_eq_ok] at h
    have ⟨_, _, _, ha, h⟩ := h
    rw [← Except.ok.inj h, bind, bind, Expr.bindAll_substituteAll ha]
  | .reporter _ args, _, h => by
    simp only [substitute, bind_eq_ok, pure_eq_ok] at h
    have ⟨_, ha, h⟩ := h
    rw [← h, bind, bind, Expr.bindAll_substituteAll ha]
  | .unary _ _ e, _, h | .listIndex _ e, _, h | .listContains _ e, _, h => by
    simp only [substitute, bind_eq_ok, pure_eq_ok] at h
    have ⟨_, he, h⟩ := h
    rw [← h, bind, bind, Expr.bind_substitute he]
  | .binary _ _ e₁ e₂, _, h | .index _ e₁ e₂, _, h => by
    simp only [substitute, bind_eq_ok, pure_eq_ok] at h
    have ⟨_, h₁, _, h₂, h⟩ := h
    rw [← h, bind, bind, Expr.bind_substitute h₁, Expr.bind_substitute h₂]

theorem Expr.bindAll_substituteAll : ∀ {es ws : List Expr},
    substituteAll (Macro.substitution params args) es = .ok ws →
    bindAll σ ws = bindAll (Macro.given params (args.map (bind σ))) es
  | [], _, h => Except.ok.inj h ▸ rfl
  | e :: es, _, h => by
    simp only [substituteAll, bind_eq_ok, pure_eq_ok] at h
    have ⟨_, h₁, _, h₂, h⟩ := h
    rw [← h, bindAll, bindAll, Expr.bind_substitute h₁, Expr.bindAll_substituteAll h₂]

end

theorem Stmt.mapBody_bind_substituteBody {ss ss' : List Stmt}
    (h : substituteBody (Macro.substitution params args) ss = .ok ss') :
    mapBody (Expr.bind σ) ss' =
      mapBody (Expr.bind (Macro.given params (args.map (Expr.bind σ)))) ss := by
  have ⟨hs, he⟩ := succeeds_of_substituteBody h
  rw [← he]
  exact mapBody_mapBody fun e h => Expr.bind_substitute (hs e h)

end Bind

end BlockLang
