import BlockLang.Symbols.Mention
import BlockLang.Proofs.Macro.Expand

/-!
A body mentions the same names before and after its macros are expanded.
-/

namespace BlockLang

namespace Mention

section Substitute

variable {r : Substitution} {enter : Enter}

mutual

-- Only expressions are substituted in, and these mention nothing.
theorem ofStmt_substitute : ∀ {s s' : Stmt}, s.substitute r = .ok s' →
    ofStmt enter s' = ofStmt enter s
  | .increment _, _, hs | .listDeleteAll _, _, hs | .showMonitor _, _, hs
  | .hideMonitor _, _, hs => Except.ok.inj hs ▸ rfl
  | .call .., s', hs | .macroCall .., s', hs | .declareLocal .., s', hs | .assign .., s', hs
  | .compound .., s', hs | .listSet .., s', hs | .listAdd .., s', hs | .listDelete .., s', hs => by
    simp only [Stmt.substitute, bind_eq_ok, pure_eq_ok] at hs
    have ⟨_, _, hs⟩ := hs
    exact hs ▸ rfl
  | .listInsert .., s', hs | .listReplace .., s', hs => by
    simp only [Stmt.substitute, bind_eq_ok, pure_eq_ok] at hs
    have ⟨_, _, _, _, hs⟩ := hs
    exact hs ▸ rfl
  | .branch _ branches none, s', hs => by
    simp only [Stmt.substitute, bind_eq_ok, pure_eq_ok] at hs
    have ⟨_, hb, hs⟩ := hs
    rw [← hs, ofStmt, ofStmt, ofBranches_substitute hb]
  | .branch _ branches (some body), s', hs => by
    simp only [Stmt.substitute, bind_eq_ok, pure_eq_ok] at hs
    have ⟨_, h₁, _, h₂, hs⟩ := hs
    rw [← hs, ofStmt, ofStmt, ofBranches_substitute h₁, ofBody_substitute h₂]
  | .loopUntil _ _ body, s', hs | .loopTimes _ _ body, s', hs => by
    simp only [Stmt.substitute, bind_eq_ok, pure_eq_ok] at hs
    have ⟨_, _, _, hb, hs⟩ := hs
    rw [← hs, ofStmt, ofStmt, ofBody_substitute hb]
  | .forever _ body, s', hs => by
    simp only [Stmt.substitute, bind_eq_ok, pure_eq_ok] at hs
    have ⟨_, hb, hs⟩ := hs
    rw [← hs, ofStmt, ofStmt, ofBody_substitute hb]

theorem ofBody_substitute : ∀ {ss ss' : List Stmt}, Stmt.substituteBody r ss = .ok ss' →
    ofBody enter ss' = ofBody enter ss
  | [], _, hs => Except.ok.inj hs ▸ rfl
  | s :: ss, _, hs => by
    simp only [Stmt.substituteBody, bind_eq_ok, pure_eq_ok] at hs
    have ⟨_, h₁, _, h₂, hs⟩ := hs
    rw [← hs, ofBody, ofBody, ofStmt_substitute h₁, ofBody_substitute h₂]

theorem ofBranches_substitute : ∀ {bs bs' : List (Expr × List Stmt)},
    Stmt.substituteBranches r bs = .ok bs' → ofBranches enter bs' = ofBranches enter bs
  | [], _, hs => Except.ok.inj hs ▸ rfl
  | (_, body) :: rest, _, hs => by
    simp only [Stmt.substituteBranches, bind_eq_ok, pure_eq_ok] at hs
    have ⟨_, _, _, h₁, _, h₂, hs⟩ := hs
    rw [← hs, ofBranches, ofBranches, ofBody_substitute h₁, ofBranches_substitute h₂]

end

end Substitute

-- No macro is entered.
def enterNone : Enter := fun _ => []

theorem ofBody_append {enter : Enter} {ss ss' : List Stmt} :
    ofBody enter (ss ++ ss') = ofBody enter ss ++ ofBody enter ss' := by
  induction ss <;> simp_all [ofBody]

section Splice

variable {call : Splice} {enter after : Enter}

-- What takes the place of a call mentions what counts as mentioned by the call. No call is left in
-- it, so it does not matter what would be mentioned by one.
def Agrees (enter after : Enter) (call : Splice) : Prop :=
  ∀ {name args ss}, call name args = .ok ss → ofBody after ss = enter name.text

mutual

theorem ofStmt_splice (h : Agrees enter after call) : ∀ {s : Stmt} {ss : List Stmt},
    s.splice call = .ok ss → ofBody after ss = ofStmt enter s
  | .macroCall .., _, hs => h hs
  | .branch _ branches none, ss, hs => by
    simp only [Stmt.splice, bind_eq_ok, pure_eq_ok] at hs
    have ⟨_, hb, hs⟩ := hs
    simp [← hs, ofBody, ofStmt, ofBranches_splice h hb]
  | .branch _ branches (some body), ss, hs => by
    simp only [Stmt.splice, bind_eq_ok, pure_eq_ok] at hs
    have ⟨_, h₁, _, h₂, hs⟩ := hs
    simp [← hs, ofBody, ofStmt, ofBranches_splice h h₁, ofBody_splice h h₂]
  | .loopUntil _ _ body, ss, hs | .loopTimes _ _ body, ss, hs | .forever _ body, ss, hs => by
    simp only [Stmt.splice, bind_eq_ok, pure_eq_ok] at hs
    have ⟨_, hb, hs⟩ := hs
    simp [← hs, ofBody, ofStmt, ofBody_splice h hb]
  | .call .., _, hs | .declareLocal .., _, hs | .assign .., _, hs | .compound .., _, hs
  | .increment .., _, hs | .listSet .., _, hs | .listAdd .., _, hs | .listDelete .., _, hs
  | .listDeleteAll .., _, hs | .listInsert .., _, hs | .listReplace .., _, hs
  | .showMonitor .., _, hs | .hideMonitor .., _, hs => by
    obtain rfl := Except.ok.inj hs
    simp [ofBody, ofStmt]

theorem ofBody_splice (h : Agrees enter after call) : ∀ {ss ss' : List Stmt},
    Stmt.spliceBody call ss = .ok ss' → ofBody after ss' = ofBody enter ss
  | [], _, hs => Except.ok.inj hs ▸ rfl
  | s :: ss, _, hs => by
    simp only [Stmt.spliceBody, bind_eq_ok, pure_eq_ok] at hs
    have ⟨_, h₁, _, h₂, hs⟩ := hs
    rw [← hs, ofBody_append, ofBody, ofStmt_splice h h₁, ofBody_splice h h₂]

theorem ofBranches_splice (h : Agrees enter after call) : ∀ {bs bs' : List (Expr × List Stmt)},
    Stmt.spliceBranches call bs = .ok bs' → ofBranches after bs' = ofBranches enter bs
  | [], _, hs => Except.ok.inj hs ▸ rfl
  | (_, body) :: rest, _, hs => by
    simp only [Stmt.spliceBranches, bind_eq_ok, pure_eq_ok] at hs
    have ⟨_, h₁, _, h₂, hs⟩ := hs
    rw [← hs, ofBranches, ofBranches, ofBody_splice h h₁, ofBranches_splice h h₂]

end

end Splice

section Macros

variable {macros : Std.TreeMap String BlockMacro} {after : Enter}

-- A call that can be spliced in is entered deep enough to see all that it mentions: the macros on
-- the way to it are different ones, so there are not more of them than macros.
theorem agrees_spliceCall {depth further : Nat} {active : List String}
    (hm : Entered macros active) (hd : macros.size ≤ further + active.length) :
    Agrees (ofMacro macros further active) after (Macro.spliceCall macros depth active) := by
  intro name args ss hs
  induction depth generalizing further active name args ss
  case zero => contradiction
  case succ depth hi =>
    obtain ⟨m, hf, hs⟩ := bind_eq_ok.mp hs
    split at hs
    case isTrue => contradiction
    case isFalse ha =>
      obtain ⟨body, hb, hs⟩ := bind_eq_ok.mp hs
      have hm := hm.cons (Macro.getElem?_of_find hf) (by simpa using ha)
      have hlt : active.length < macros.size := hm.length_le
      obtain ⟨further, rfl⟩ : ∃ n, further = n + 1 := ⟨further - 1, by omega⟩
      have hle : macros.size ≤ further + (name.text :: active).length := by
        rw [List.length_cons]
        omega
      have hb := ofBody_splice (fun hs => hi hm hle hs) hb
      rw [ofBody_substitute hs, hb, ofMacro, if_neg ha, Macro.getElem?_of_find hf]

-- The names that a body mentions are all in the body once its block macros are spliced in.
theorem ofBody_spliced {body body' : List Stmt}
    (h : Stmt.spliceBody (Macro.spliceCall macros (macros.size + 1) []) body = .ok body') :
    ofBody after body' = all macros body :=
  ofBody_splice (agrees_spliceCall .nil (Nat.le_refl _)) h

end Macros

end Mention

-- The names that a body declares by storing into them are those of the body once it is expanded.
theorem SpriteTree.Expands.mentions {s : Symbols} {body body' : List Stmt}
    (h : Expands s body body') :
    Mention.ofBody Mention.enterNone body' = Mention.all s.blockMacros body := by
  have ⟨_, hs, he⟩ := h
  rw [Mention.ofBody_substitute he]
  exact Mention.ofBody_spliced hs

end BlockLang
