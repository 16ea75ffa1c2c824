import Mathlib.Logic.Function.Iterate
import BlockLang.Tree.Substitution
import BlockLang.Proofs.Except

/-!
The expressions in statements, and statements with each of these changed in the same way.
-/

namespace BlockLang

namespace Stmt

mutual

-- All expressions in a statement, in order. Those within them do not count.
def exprs : Stmt → List Expr
  | .call _ args _ | .macroCall _ args => args
  | .branch _ branches none => exprsOfBranches branches
  | .branch _ branches (some body) => exprsOfBranches branches ++ exprsAll body
  | .loopUntil _ e body | .loopTimes _ e body => e :: exprsAll body
  | .forever _ body => exprsAll body
  | .declareLocal _ e | .assign _ e | .compound _ _ e | .listAdd _ e | .listDelete _ e => [e]
  | .listSet _ items => items
  | .listInsert _ i e | .listReplace _ i _ e => [i, e]
  | .increment _ | .listDeleteAll _ | .showMonitor _ | .hideMonitor _ => []

def exprsAll : List Stmt → List Expr
  | [] => []
  | s :: ss => s.exprs ++ exprsAll ss

def exprsOfBranches : List (Expr × List Stmt) → List Expr
  | [] => []
  | (e, body) :: rest => e :: exprsAll body ++ exprsOfBranches rest

end

mutual

-- A statement with each of its expressions changed.
def mapExprs (f : Expr → Expr) : Stmt → Stmt
  | .call n args c => .call n (args.map f) c
  | .macroCall n args => .macroCall n (args.map f)
  | .branch s branches none => .branch s (mapBranches f branches) none
  | .branch s branches (some body) => .branch s (mapBranches f branches) (some (mapBody f body))
  | .loopUntil s e body => .loopUntil s (f e) (mapBody f body)
  | .loopTimes s e body => .loopTimes s (f e) (mapBody f body)
  | .forever s body => .forever s (mapBody f body)
  | .declareLocal n e => .declareLocal n (f e)
  | .assign n e => .assign n (f e)
  | .compound n op e => .compound n op (f e)
  | .listSet n items => .listSet n (items.map f)
  | .listAdd n e => .listAdd n (f e)
  | .listDelete n e => .listDelete n (f e)
  | .listInsert n i e => .listInsert n (f i) (f e)
  | .listReplace n i op e => .listReplace n (f i) op (f e)
  | .increment n => .increment n
  | .listDeleteAll n => .listDeleteAll n
  | .showMonitor n => .showMonitor n
  | .hideMonitor n => .hideMonitor n

def mapBody (f : Expr → Expr) : List Stmt → List Stmt
  | [] => []
  | s :: ss => s.mapExprs f :: mapBody f ss

def mapBranches (f : Expr → Expr) : List (Expr × List Stmt) → List (Expr × List Stmt)
  | [] => []
  | (e, body) :: rest => (f e, mapBody f body) :: mapBranches f rest

end

variable {f g k : Expr → Expr}

@[simp]
theorem mapBody_append {ss ss' : List Stmt} :
    mapBody f (ss ++ ss') = mapBody f ss ++ mapBody f ss' := by
  induction ss <;> simp_all [mapBody]

section MapExprs

mutual

theorem exprs_mapExprs : ∀ s : Stmt, (s.mapExprs f).exprs = s.exprs.map f
  | .branch _ branches none => by simp [mapExprs, exprs, exprs_mapBranches branches]
  | .branch _ branches (some body) => by
    simp [mapExprs, exprs, exprs_mapBranches branches, exprs_mapBody body]
  | .loopUntil _ _ body | .loopTimes _ _ body | .forever _ body => by
    simp [mapExprs, exprs, exprs_mapBody body]
  | .call .. | .macroCall .. | .declareLocal .. | .assign .. | .compound .. | .increment ..
  | .listSet .. | .listAdd .. | .listDelete .. | .listDeleteAll .. | .listInsert ..
  | .listReplace .. | .showMonitor .. | .hideMonitor .. => by simp [mapExprs, exprs]

theorem exprs_mapBody : ∀ ss : List Stmt, exprsAll (mapBody f ss) = (exprsAll ss).map f
  | [] => rfl
  | s :: ss => by simp [mapBody, exprsAll, exprs_mapExprs s, exprs_mapBody ss]

theorem exprs_mapBranches : ∀ branches : List (Expr × List Stmt),
    exprsOfBranches (mapBranches f branches) = (exprsOfBranches branches).map f
  | [] => rfl
  | (_, body) :: rest => by
    simp [mapBranches, exprsOfBranches, exprs_mapBody body, exprs_mapBranches rest]

end

mutual

-- Two changes in a row are one change.
theorem mapExprs_mapExprs : ∀ {s : Stmt}, (∀ e ∈ s.exprs, g (f e) = k e) →
    (s.mapExprs f).mapExprs g = s.mapExprs k
  | .branch _ branches none, h => by simp_all [mapExprs, exprs, mapBranches_mapBranches h]
  | .branch _ branches (some body), h => by
    have ⟨h₁, h₂⟩ := List.forall_mem_append.mp h
    simp [mapExprs, mapBranches_mapBranches h₁, mapBody_mapBody h₂]
  | .loopUntil _ e body, h | .loopTimes _ e body, h => by
    have ⟨he, h⟩ := List.forall_mem_cons.mp h
    simp [mapExprs, he, mapBody_mapBody h]
  | .forever _ body, h => by simp [mapExprs, mapBody_mapBody h]
  | .increment _, _ | .listDeleteAll _, _ | .showMonitor _, _ | .hideMonitor _, _ => rfl
  | .call .., h | .macroCall .., h | .declareLocal .., h | .assign .., h | .compound .., h
  | .listSet .., h | .listAdd .., h | .listDelete .., h | .listInsert .., h
  | .listReplace .., h => by
    simpa [mapExprs, exprs] using h

theorem mapBody_mapBody : ∀ {ss : List Stmt}, (∀ e ∈ exprsAll ss, g (f e) = k e) →
    mapBody g (mapBody f ss) = mapBody k ss
  | [], _ => rfl
  | s :: ss, h => by
    have ⟨h₁, h₂⟩ := List.forall_mem_append.mp h
    rw [mapBody, mapBody, mapBody, mapExprs_mapExprs h₁, mapBody_mapBody h₂]

theorem mapBranches_mapBranches : ∀ {branches : List (Expr × List Stmt)},
    (∀ e ∈ exprsOfBranches branches, g (f e) = k e) →
    mapBranches g (mapBranches f branches) = mapBranches k branches
  | [], _ => rfl
  | (e, body) :: rest, h => by
    have ⟨h, h₃⟩ := List.forall_mem_append.mp h
    have ⟨h₁, h₂⟩ := List.forall_mem_cons.mp h
    rw [mapBranches, mapBranches, mapBranches, h₁, mapBody_mapBody h₂, mapBranches_mapBranches h₃]

end

mutual

theorem mapExprs_eq_self : ∀ {s : Stmt}, (∀ e ∈ s.exprs, f e = e) → s.mapExprs f = s
  | .branch _ branches none, h => by rw [mapExprs, mapBranches_eq_self h]
  | .branch _ branches (some body), h => by
    have ⟨h₁, h₂⟩ := List.forall_mem_append.mp h
    rw [mapExprs, mapBranches_eq_self h₁, mapBody_eq_self h₂]
  | .loopUntil _ e body, h | .loopTimes _ e body, h => by
    have ⟨he, h⟩ := List.forall_mem_cons.mp h
    rw [mapExprs, he, mapBody_eq_self h]
  | .forever _ body, h => by rw [mapExprs, mapBody_eq_self h]
  | .call _ es _, h | .macroCall _ es, h | .listSet _ es, h => by
    have he : es.map f = es := (List.map_congr_left h).trans (List.map_id' es)
    rw [mapExprs, he]
  | .increment _, _ | .listDeleteAll _, _ | .showMonitor _, _ | .hideMonitor _, _ => rfl
  | .declareLocal .., h | .assign .., h | .compound .., h | .listAdd .., h | .listDelete .., h
  | .listInsert .., h | .listReplace .., h => by simpa [mapExprs, exprs] using h

theorem mapBody_eq_self : ∀ {ss : List Stmt}, (∀ e ∈ exprsAll ss, f e = e) → mapBody f ss = ss
  | [], _ => rfl
  | s :: ss, h => by
    have ⟨h₁, h₂⟩ := List.forall_mem_append.mp h
    rw [mapBody, mapExprs_eq_self h₁, mapBody_eq_self h₂]

theorem mapBranches_eq_self : ∀ {branches : List (Expr × List Stmt)},
    (∀ e ∈ exprsOfBranches branches, f e = e) → mapBranches f branches = branches
  | [], _ => rfl
  | (e, body) :: rest, h => by
    have ⟨h, h₃⟩ := List.forall_mem_append.mp h
    have ⟨h₁, h₂⟩ := List.forall_mem_cons.mp h
    rw [mapBranches, h₁, mapBody_eq_self h₂, mapBranches_eq_self h₃]

end

end MapExprs

theorem mapBody_congr {ss : List Stmt} (h : ∀ e ∈ exprsAll ss, f e = g e) :
    mapBody f ss = mapBody g ss := by
  rw [← mapBody_mapBody (f := f) (g := id) h, mapBody_eq_self (f := id) fun _ _ => rfl]

theorem iterate_mapBody {ss : List Stmt} (n : Nat) : (mapBody f)^[n] ss = mapBody f^[n] ss := by
  induction n
  case zero => exact (mapBody_eq_self fun _ _ => rfl).symm
  case succ n hi =>
    rw [Function.iterate_succ_apply', hi]
    exact mapBody_mapBody fun e _ => (Function.iterate_succ_apply' f n e).symm

end Stmt

section Substitute

variable {r : Substitution}

-- What an expression comes to, if it comes to anything.
def Expr.substituted (r : Substitution) (e : Expr) : Expr :=
  (e.substitute r).toOption.getD e

def Expr.Succeeds (r : Substitution) (e : Expr) : Prop :=
  e.substitute r = .ok (e.substituted r)

theorem Expr.succeeds_of_substitute {e w : Expr} (h : e.substitute r = .ok w) :
    e.Succeeds r ∧ e.substituted r = w := by
  simp [Succeeds, substituted, h, Except.toOption]

theorem Expr.succeeds_of_substituteAll {es ws : List Expr} (h : substituteAll r es = .ok ws) :
    (∀ e ∈ es, e.Succeeds r) ∧ es.map (substituted r) = ws := by
  induction es generalizing ws
  case nil => exact Except.ok.inj h ▸ ⟨nofun, rfl⟩
  case cons e es hi =>
    simp only [Expr.substituteAll, bind_eq_ok, pure_eq_ok] at h
    have ⟨_, he, _, hes, h⟩ := h
    have ⟨hs, he⟩ := succeeds_of_substitute he
    have ⟨hss, hes⟩ := hi hes
    exact ⟨List.forall_mem_cons.mpr ⟨hs, hss⟩, by rw [← h, List.map_cons, he, hes]⟩

namespace Stmt

mutual

theorem succeeds_of_substitute : ∀ {s s' : Stmt}, s.substitute r = .ok s' →
    (∀ e ∈ s.exprs, e.Succeeds r) ∧ s.mapExprs (Expr.substituted r) = s'
  | .increment _, _, hs | .listDeleteAll _, _, hs | .showMonitor _, _, hs
  | .hideMonitor _, _, hs => Except.ok.inj hs ▸ ⟨nofun, rfl⟩
  | .call _ args _, s', hs | .macroCall _ args, s', hs | .listSet _ args, s', hs => by
    simp only [substitute, bind_eq_ok, pure_eq_ok] at hs
    have ⟨_, ha, hs⟩ := hs
    have ⟨ha, he⟩ := Expr.succeeds_of_substituteAll ha
    exact ⟨ha, by rw [mapExprs, he, hs]⟩
  | .declareLocal _ e, s', hs | .assign _ e, s', hs | .compound _ _ e, s', hs
  | .listAdd _ e, s', hs | .listDelete _ e, s', hs => by
    simp only [substitute, bind_eq_ok, pure_eq_ok] at hs
    have ⟨_, he, hs⟩ := hs
    have ⟨h, he⟩ := Expr.succeeds_of_substitute he
    exact ⟨List.forall_mem_singleton.mpr h, by rw [mapExprs, he, hs]⟩
  | .listInsert _ i e, s', hs | .listReplace _ i _ e, s', hs => by
    simp only [substitute, bind_eq_ok, pure_eq_ok] at hs
    have ⟨_, hi, _, he, hs⟩ := hs
    have ⟨h₁, hi⟩ := Expr.succeeds_of_substitute hi
    have ⟨h₂, he⟩ := Expr.succeeds_of_substitute he
    exact ⟨by simp [exprs, h₁, h₂], by rw [mapExprs, hi, he, hs]⟩
  | .branch _ branches none, s', hs => by
    simp only [substitute, bind_eq_ok, pure_eq_ok] at hs
    have ⟨_, hb, hs⟩ := hs
    have ⟨h, hb⟩ := succeeds_of_substituteBranches hb
    exact ⟨h, by rw [mapExprs, hb, hs]⟩
  | .branch _ branches (some body), s', hs => by
    simp only [substitute, bind_eq_ok, pure_eq_ok] at hs
    have ⟨_, h₁, _, h₂, hs⟩ := hs
    have ⟨h₁, hb₁⟩ := succeeds_of_substituteBranches h₁
    have ⟨h₂, hb₂⟩ := succeeds_of_substituteBody h₂
    exact ⟨List.forall_mem_append.mpr ⟨h₁, h₂⟩, by rw [mapExprs, hb₁, hb₂, hs]⟩
  | .loopUntil _ e body, s', hs | .loopTimes _ e body, s', hs => by
    simp only [substitute, bind_eq_ok, pure_eq_ok] at hs
    have ⟨_, he, _, hb, hs⟩ := hs
    have ⟨h₁, he⟩ := Expr.succeeds_of_substitute he
    have ⟨h₂, hb⟩ := succeeds_of_substituteBody hb
    exact ⟨List.forall_mem_cons.mpr ⟨h₁, h₂⟩, by rw [mapExprs, he, hb, hs]⟩
  | .forever _ body, s', hs => by
    simp only [substitute, bind_eq_ok, pure_eq_ok] at hs
    have ⟨_, hb, hs⟩ := hs
    have ⟨h, hb⟩ := succeeds_of_substituteBody hb
    exact ⟨h, by rw [mapExprs, hb, hs]⟩

-- A body that is substituted in is one with each of its expressions substituted in.
theorem succeeds_of_substituteBody : ∀ {ss ss' : List Stmt}, substituteBody r ss = .ok ss' →
    (∀ e ∈ exprsAll ss, e.Succeeds r) ∧ mapBody (Expr.substituted r) ss = ss'
  | [], _, hs => Except.ok.inj hs ▸ ⟨nofun, rfl⟩
  | s :: ss, _, hs => by
    simp only [substituteBody, bind_eq_ok, pure_eq_ok] at hs
    have ⟨_, h₁, _, h₂, hs⟩ := hs
    have ⟨h₁, hs₁⟩ := succeeds_of_substitute h₁
    have ⟨h₂, hs₂⟩ := succeeds_of_substituteBody h₂
    exact ⟨List.forall_mem_append.mpr ⟨h₁, h₂⟩, by rw [mapBody, hs₁, hs₂, hs]⟩

theorem succeeds_of_substituteBranches : ∀ {bs bs' : List (Expr × List Stmt)},
    substituteBranches r bs = .ok bs' →
    (∀ e ∈ exprsOfBranches bs, e.Succeeds r) ∧ mapBranches (Expr.substituted r) bs = bs'
  | [], _, hs => Except.ok.inj hs ▸ ⟨nofun, rfl⟩
  | (e, body) :: rest, _, hs => by
    simp only [substituteBranches, bind_eq_ok, pure_eq_ok] at hs
    have ⟨_, h₁, _, h₂, _, h₃, hs⟩ := hs
    have ⟨h₁, he⟩ := Expr.succeeds_of_substitute h₁
    have ⟨h₂, hb⟩ := succeeds_of_substituteBody h₂
    have ⟨h₃, hr⟩ := succeeds_of_substituteBranches h₃
    exact ⟨List.forall_mem_append.mpr ⟨List.forall_mem_cons.mpr ⟨h₁, h₂⟩, h₃⟩,
      by rw [mapBranches, he, hb, hr, hs]⟩

end

end Stmt

end Substitute

end BlockLang
