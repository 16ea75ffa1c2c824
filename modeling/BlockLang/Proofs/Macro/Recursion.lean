import BlockLang.Proofs.Steps
import BlockLang.Proofs.Macro.Refused
import BlockLang.Proofs.Symbols.Expand

/-!
Macros that call each other. Expanding them comes to an end whatever they call. It reports a
recursive macro only if there is one, and it never gets past one.
-/

namespace BlockLang

namespace Macro

open Relation

variable {β γ : Type} {calls : β → List String} {macros : Std.TreeMap String (Macro β)}
  {active : List String} {depth depth' : Nat} {name : Name} {m : Macro β} {n : String}
  {args : List Expr} {d : Diagnostic} {w : γ}

-- The body of the macro `a` calls `b`. What a body calls is told by `calls`.
def Calls (calls : β → List String) (macros : Std.TreeMap String (Macro β)) (a b : String) : Prop :=
  ∃ m, macros[a]? = some m ∧ b ∈ calls m.body

-- The body of a macro comes back to the macro through calls in the bodies of macros.
def IsRecursive (calls : β → List String) (macros : Std.TreeMap String (Macro β))
    (a : String) : Prop :=
  TransGen (Calls calls macros) a a

-- What one step of an expansion does: a macro is entered with one step less to go, unless it is
-- active. If the expansion succeeds, then so do the calls in the body of the macro.
structure Guarded (calls : β → List String) (macros : Std.TreeMap String (Macro β))
    (call : Nat → List String → Name → List Expr → Except Diagnostic γ) : Prop where
  congr : ∀ {depth depth' active name}, (∀ m, macros[name.text]? = some m → name.text ∉ active →
      call depth (name.text :: active) = call depth' (name.text :: active)) →
    call (depth + 1) active name = call (depth' + 1) active name
  error : ∀ {depth active name args d n}, call (depth + 1) active name args = .error d →
    d.fault = .recursiveMacro n → (name.text ∈ active ∧ name.text = n) ∨
      ∃ m name' args', macros[name.text]? = some m ∧ name.text ∉ active ∧
        name'.text ∈ calls m.body ∧ call depth (name.text :: active) name' args' = .error d
  ok    : ∀ {depth active name args w}, call depth active name args = .ok w →
    ∃ further, depth = further + 1 ∧ ∀ n, Calls calls macros name.text n →
      ∃ name' args' w', name'.text = n ∧ call further (name.text :: active) name' args' = .ok w'

namespace Guarded

variable {call : Nat → List String → Name → List Expr → Except Diagnostic γ}

-- It does not matter how many steps there are to go if they are more than the macros to enter.
theorem call_eq (hg : Guarded calls macros call) (ha : Entered macros active)
    (hd : macros.size < depth + active.length) (hd' : macros.size < depth' + active.length) :
    call depth active = call depth' active := by
  have hl := ha.length_le
  induction depth generalizing active depth'
  case zero => omega
  case succ depth hi =>
    cases depth'
    case zero => omega
    case succ depth' =>
      funext name
      apply hg.congr
      intro m hm hn
      have hd : macros.size < depth + (name.text :: active).length := by grind
      have hd' : macros.size < depth' + (name.text :: active).length := by grind
      have ha := ha.cons hm hn
      exact hi ha hd hd' ha.length_le

theorem isRecursive (hg : Guarded calls macros call) (ha : Entered macros active)
    (hl : ∀ a ∈ active, TransGen (Calls calls macros) a name.text)
    (hd : macros.size < depth + active.length) (h : call depth active name args = .error d)
    (hf : d.fault = .recursiveMacro n) : IsRecursive calls macros n := by
  induction depth generalizing active name args
  case zero =>
    have := ha.length_le
    omega
  case succ depth hi =>
    cases hg.error h hf
    case inl h =>
      have ⟨hn, he⟩ := h
      exact he ▸ hl _ hn
    case inr h =>
      have ⟨m, name', args', hm, hn, hc, h⟩ := h
      have hc : Calls calls macros name.text name'.text := ⟨m, hm, hc⟩
      have hl : ∀ a ∈ name.text :: active, TransGen (Calls calls macros) a name'.text :=
        List.forall_mem_cons.mpr ⟨.single hc, fun a ha => (hl a ha).tail hc⟩
      have hd : macros.size < depth + (name.text :: active).length := by grind
      exact hi (ha.cons hm hn) hl hd h

-- If the expansion of a call succeeds, then the call does not lead to a recursive macro.
theorem halts (hg : Guarded calls macros call) (h : call depth active name args = .ok w) :
    Halts (Calls calls macros) name.text := by
  induction depth generalizing active name args w
  case zero =>
    have ⟨_, he, _⟩ := hg.ok h
    contradiction
  case succ depth hi =>
    have ⟨further, he, hc⟩ := hg.ok h
    obtain rfl : depth = further := Nat.succ.inj he
    refine .of_steps fun n hn => ?_
    have ⟨_, _, _, he, h⟩ := hc n hn
    exact he ▸ hi h

end Guarded

-- How an expansion of a tree in which some macros are called comes to an end. However many more
-- steps a call may take, it takes no more than those that there are.
structure Terminates (calls : β → List String) (macros : Std.TreeMap String (Macro β))
    (call : Nat → List String → Name → List Expr → Except Diagnostic γ) (called : List String)
    (result : Except Diagnostic SpriteTree) : Prop where
  bounded   : ∀ depth > macros.size, call depth [] = call (macros.size + 1) []
  recursive : ∀ d n, result = .error d → d.fault = .recursiveMacro n → IsRecursive calls macros n
  refused   : ∀ a ∈ called, ∀ b, ReflTransGen (Calls calls macros) a b →
    IsRecursive calls macros b → ∃ d, result = .error d

theorem Guarded.terminates {call : Nat → List String → Name → List Expr → Except Diagnostic γ}
    {called : List String} {result : Except Diagnostic SpriteTree}
    (hg : Guarded calls macros call)
    (he : ∀ {d n}, result = .error d → d.fault = .recursiveMacro n →
      ∃ name args, call (macros.size + 1) [] name args = .error d)
    (ho : ∀ {tree}, result = .ok tree → ∀ a ∈ called,
      ∃ name args w, name.text = a ∧ call (macros.size + 1) [] name args = .ok w) :
    Terminates calls macros call called result where
  bounded depth hd := hg.call_eq .nil (by simpa using hd) (Nat.lt_succ_self _)
  recursive d n h hf := by
    have ⟨name, args, h⟩ := he h hf
    exact hg.isRecursive .nil nofun (Nat.lt_succ_self _) h hf
  refused a ha b hb hr := by
    cases result
    case error d => exact ⟨d, rfl⟩
    case ok =>
      have ⟨name, args, w, hn, h⟩ := ho rfl a ha
      have hs : Halts (Calls calls macros) a := hn ▸ hg.halts h
      exact absurd hr (hs.trans hb).not_back

theorem fault_of_checkCount {kind : MacroKind} {params : List String} {count : Nat}
    (h : checkCount kind name params count = .error d) : d.fault ≠ .recursiveMacro n := by
  unfold checkCount at h
  repeat' split at h
  all_goals cases h
  all_goals nofun

theorem fault_of_find {kind : MacroKind} {count : Nat}
    (h : find macros kind name count = .error d) : d.fault ≠ .recursiveMacro n := by
  unfold find at h
  split at h
  case h_1 =>
    cases h
    nofun
  case h_2 =>
    simp only [bind_eq_error, pure_ne_error, and_false, exists_false, or_false] at h
    exact fault_of_checkCount h

theorem fault_of_substitution {params called : List String}
    (h : (substitution params args).Refuses called d) : d.fault ≠ .recursiveMacro n := by
  cases h
  case param name h =>
    have h : argument params args name = .error d := h
    unfold argument at h
    split at h
    · contradiction
    · cases h
      nofun
  case allow | call => contradiction

section Expr

variable {macros : Std.TreeMap String ExprMacro}

-- Of what takes the place of parameters and calls, only a call can report a recursive macro.
theorem call_of_refuses {call : Name → List Expr → Except Diagnostic Expr} {called : List String}
    (h : (expansion macros call).Refuses called d) (hf : d.fault = .recursiveMacro n) :
    ∃ name args, name.text ∈ called ∧ call name args = .error d := by
  cases h
  case param h => contradiction
  case allow h =>
    have h : find macros .expression _ _ >>= _ = _ := h
    simp only [bind_eq_error, pure_ne_error, and_false, exists_false, or_false] at h
    exact absurd hf (fault_of_find h)
  case call name args hn h => exact ⟨name, args, hn, h⟩

theorem guarded_expandCall : Guarded Expr.calls macros (expandCall macros) where
  congr {depth depth' active name} h := by
    funext args
    simp only [expandCall]
    cases hf : find macros .expression name args.length
    case error => rfl
    case ok m =>
      by_cases ha : active.contains name.text
      · simp only [bind, Except.bind, ha, if_true]
      · simp only [bind, Except.bind, ha, h m (getElem?_of_find hf) (by simpa using ha)]
  error {depth active name args d n} h hf := by
    simp only [expandCall, bind_eq_error] at h
    rcases h with h | ⟨m, hm, h⟩
    · exact absurd hf (fault_of_find h)
    split at h
    case isTrue ha =>
      cases h
      exact .inl ⟨by simpa using ha, Fault.recursiveMacro.inj hf⟩
    case isFalse ha =>
      simp only [bind_eq_error] at h
      rcases h with h | ⟨body, _, h⟩
      · obtain ⟨name', args', hn, h⟩ := call_of_refuses (Expr.refuses_of_substitute h) hf
        exact .inr ⟨m, name', args', getElem?_of_find hm, by simpa using ha, hn, h⟩
      · exact absurd hf (fault_of_substitution (Expr.refuses_of_substitute h))
  ok {depth active name args w} h := by
    cases depth
    case zero => contradiction
    case succ depth =>
      refine ⟨depth, rfl, fun n hn => ?_⟩
      obtain ⟨m, hm, h⟩ := bind_eq_ok.mp h
      split at h
      · contradiction
      obtain ⟨body, hb, _⟩ := bind_eq_ok.mp h
      obtain ⟨m', hm', hn⟩ := hn
      obtain rfl : m' = m := Option.some.inj (hm'.symm.trans (getElem?_of_find hm))
      exact Expr.called_of_substitute hb hn

end Expr

section Stmt

variable {macros : Std.TreeMap String BlockMacro}

theorem guarded_spliceCall : Guarded Stmt.callsAll macros (spliceCall macros) where
  congr {depth depth' active name} h := by
    funext args
    simp only [spliceCall]
    cases hf : find macros .block name args.length
    case error => rfl
    case ok m =>
      by_cases ha : active.contains name.text
      · simp only [bind, Except.bind, ha, if_true]
      · simp only [bind, Except.bind, ha, h m (getElem?_of_find hf) (by simpa using ha)]
  error {depth active name args d n} h hf := by
    simp only [spliceCall, bind_eq_error] at h
    rcases h with h | ⟨m, hm, h⟩
    · exact absurd hf (fault_of_find h)
    split at h
    case isTrue ha =>
      cases h
      exact .inl ⟨by simpa using ha, Fault.recursiveMacro.inj hf⟩
    case isFalse ha =>
      simp only [bind_eq_error] at h
      rcases h with h | ⟨body, _, h⟩
      · obtain ⟨name', args', hn, h⟩ := Stmt.exists_of_spliceBody h
        exact .inr ⟨m, name', args', getElem?_of_find hm, by simpa using ha, hn, h⟩
      · obtain ⟨e, _, h⟩ := Stmt.exists_of_substituteBody h
        exact absurd hf (fault_of_substitution (Expr.refuses_of_substitute h))
  ok {depth active name args w} h := by
    cases depth
    case zero => contradiction
    case succ depth =>
      refine ⟨depth, rfl, fun n hn => ?_⟩
      obtain ⟨m, hm, h⟩ := bind_eq_ok.mp h
      split at h
      · contradiction
      obtain ⟨body, hb, _⟩ := bind_eq_ok.mp h
      obtain ⟨m', hm', hn⟩ := hn
      obtain rfl : m' = m := Option.some.inj (hm'.symm.trans (getElem?_of_find hm))
      exact Stmt.called_of_spliceBody hb hn

end Stmt

end Macro

namespace SpriteTree

variable {tree : SpriteTree} {d d' : Decl} {e : Diagnostic} {n : String}
  {blockMacros : Std.TreeMap String BlockMacro} {exprMacros : Std.TreeMap String ExprMacro}

-- The block macros that the declarations of a sprite call.
def blockCalls (tree : SpriteTree) : List String :=
  tree.flatMap fun d => Stmt.callsAll d.body

-- The expression macros that the bodies and the events of a sprite call.
def exprCalls (tree : SpriteTree) : List String :=
  (tree.flatMap Decl.exprs).flatMap Expr.calls

theorem exists_of_expandBlocks (h : expandBlocks blockMacros d = .error e) :
    ∃ name args, Macro.spliceCall blockMacros (blockMacros.size + 1) [] name args = .error e := by
  cases d
  case function | event =>
    simp only [expandBlocks, bind_eq_error, pure_ne_error, and_false, exists_false, or_false] at h
    obtain ⟨name, args, _, h⟩ := Stmt.exists_of_spliceBody h
    exact ⟨name, args, h⟩
  all_goals contradiction

theorem called_of_expandBlocks (h : expandBlocks blockMacros d = .ok d')
    (hn : n ∈ Stmt.callsAll d.body) : ∃ name args ss, name.text = n ∧
      Macro.spliceCall blockMacros (blockMacros.size + 1) [] name args = .ok ss := by
  have ⟨_, hs, _⟩ := expandBlocks_eq_ok h
  exact Stmt.called_of_spliceBody hs hn

theorem exists_of_expandExprs (h : expandExprs exprMacros d = .error e) :
    ∃ x ∈ d.exprs, x.substitute (Macro.expansion exprMacros
      (Macro.expandCall exprMacros (exprMacros.size + 1) [])) = .error e := by
  cases d
  case function =>
    simp only [expandExprs, bind_eq_error, pure_ne_error, and_false, exists_false, or_false] at h
    exact Stmt.exists_of_substituteBody h
  case event =>
    simp only [expandExprs, bind_eq_error, pure_ne_error, and_false, exists_false, or_false] at h
    rcases h with h | ⟨_, _, h⟩
    · obtain ⟨x, hx, h⟩ := Event.exists_of_substitute h
      exact ⟨x, List.mem_append_left _ hx, h⟩
    · obtain ⟨x, hx, h⟩ := Stmt.exists_of_substituteBody h
      exact ⟨x, List.mem_append_right _ hx, h⟩
  all_goals contradiction

theorem succeeds_of_expandExprs (h : expandExprs exprMacros d = .ok d') :
    ∀ x ∈ d.exprs, x.Succeeds (Macro.expansion exprMacros
      (Macro.expandCall exprMacros (exprMacros.size + 1) [])) := by
  cases d
  case function =>
    obtain ⟨_, hs, _⟩ := bind_eq_ok.mp h
    exact (Stmt.succeeds_of_substituteBody hs).1
  case event =>
    simp only [expandExprs, bind_eq_ok] at h
    obtain ⟨_, he, _, hs, _⟩ := h
    exact List.forall_mem_append.mpr ⟨Event.succeeds_of_substitute he,
      (Stmt.succeeds_of_substituteBody hs).1⟩
  all_goals exact List.forall_mem_nil _

theorem terminates_expandBlockMacros : Macro.Terminates Stmt.callsAll blockMacros
    (Macro.spliceCall blockMacros) tree.blockCalls (expandBlockMacros blockMacros tree) := by
  apply Macro.guarded_spliceCall.terminates
  · intro e n h _
    have ⟨d, _, h⟩ := exists_of_mapM_eq_error h
    exact exists_of_expandBlocks h
  · intro tree' h a ha
    have ⟨d, hd, ha⟩ := List.mem_flatMap.mp ha
    have ⟨d', _, h⟩ := mem_of_forall₂ (forall₂_of_mapM h).flip hd
    exact called_of_expandBlocks h ha

theorem terminates_expandExprMacros : Macro.Terminates Expr.calls exprMacros
    (Macro.expandCall exprMacros) tree.exprCalls (expandExprMacros exprMacros tree) := by
  apply Macro.guarded_expandCall.terminates
  · intro e n h hf
    have ⟨d, _, h⟩ := exists_of_mapM_eq_error h
    have ⟨x, _, h⟩ := exists_of_expandExprs h
    have ⟨name, args, _, h⟩ := Macro.call_of_refuses (Expr.refuses_of_substitute h) hf
    exact ⟨name, args, h⟩
  · intro tree' h a ha
    have ⟨x, hx, ha⟩ := List.mem_flatMap.mp ha
    have ⟨d, hd, hx⟩ := List.mem_flatMap.mp hx
    have ⟨d', _, h⟩ := mem_of_forall₂ (forall₂_of_mapM h).flip hd
    exact Expr.called_of_substitute (succeeds_of_expandExprs h x hx) ha

theorem expansion_terminates : Macro.Terminates Stmt.callsAll blockMacros
      (Macro.spliceCall blockMacros) tree.blockCalls (expandBlockMacros blockMacros tree) ∧
    Macro.Terminates Expr.calls exprMacros
      (Macro.expandCall exprMacros) tree.exprCalls (expandExprMacros exprMacros tree) :=
  ⟨terminates_expandBlockMacros, terminates_expandExprMacros⟩

end SpriteTree

end BlockLang
