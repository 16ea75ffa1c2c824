import BlockLang.Proofs.Macro.Unfold

/-!
What an expansion fails for: the calls that it comes to, and what takes the place of parameters.
-/

namespace BlockLang

-- Something that takes the place of parameters or of calls is refused. The calls are to macros with
-- names among `calls`.
inductive Substitution.Refuses (r : Substitution) (calls : List String) (d : Diagnostic) : Prop
  | param {n} (refused : r.param n = .error d)
  | allow {n count} (refused : r.allow n count = .error d)
  | call {n args} (called : n.text ∈ calls) (refused : r.call n args = .error d)

theorem Substitution.Refuses.mono {r : Substitution} {calls calls' : List String} {d : Diagnostic}
    (h : r.Refuses calls d) (hc : calls ⊆ calls') : r.Refuses calls' d := by
  cases h
  case param h => exact .param h
  case allow h => exact .allow h
  case call hn h => exact .call (hc hn) h

section Substitute

variable {r : Substitution} {d : Diagnostic}

mutual

theorem Expr.refuses_of_substitute : ∀ {e : Expr}, e.substitute r = .error d → r.Refuses e.calls d
  | .literal _, h | .argument _, h | .var _, h | .listLength _, h | .sensingOf _ _, h => nomatch h
  | .macroVar _, h => .param h
  | .macroCall _ args, h => by
    simp only [substitute, bind_eq_error] at h
    rcases h with h | ⟨_, _, h | ⟨_, _, h⟩⟩
    · exact .allow h
    · exact (Expr.refuses_of_substituteAll h).mono (List.subset_cons_self _ _)
    · exact .call List.mem_cons_self h
  | .reporter _ args, h => by
    simp only [substitute, bind_eq_error, pure_ne_error, and_false, exists_false, or_false] at h
    exact Expr.refuses_of_substituteAll h
  | .unary _ _ e, h | .listIndex _ e, h | .listContains _ e, h => by
    simp only [substitute, bind_eq_error, pure_ne_error, and_false, exists_false, or_false] at h
    exact Expr.refuses_of_substitute (e := e) h
  | .binary _ _ e₁ e₂, h | .index _ e₁ e₂, h => by
    simp only [substitute, bind_eq_error, pure_ne_error, and_false, exists_false, or_false] at h
    rcases h with h | ⟨_, _, h⟩
    · exact (Expr.refuses_of_substitute h).mono (List.subset_append_left _ _)
    · exact (Expr.refuses_of_substitute h).mono (List.subset_append_right _ _)

theorem Expr.refuses_of_substituteAll :
    ∀ {es : List Expr}, substituteAll r es = .error d → r.Refuses (callsAll es) d
  | [], h => nomatch h
  | e :: es, h => by
    simp only [substituteAll, bind_eq_error, pure_ne_error, and_false, exists_false, or_false] at h
    rcases h with h | ⟨_, _, h⟩
    · exact (Expr.refuses_of_substitute h).mono (List.subset_append_left _ _)
    · exact (Expr.refuses_of_substituteAll h).mono (List.subset_append_right _ _)

end

-- If an expression comes to anything, then so do all calls in it.
mutual

theorem Expr.called_of_substitute {n : String} : ∀ {e w : Expr}, e.substitute r = .ok w →
    n ∈ e.calls → ∃ name args w, name.text = n ∧ r.call name args = .ok w
  | .literal _, _, _, hn | .argument _, _, _, hn | .var _, _, _, hn | .macroVar _, _, _, hn
  | .listLength _, _, _, hn | .sensingOf _ _, _, _, hn => nomatch hn
  | .macroCall name args, w, h, hn => by
    simp only [substitute, bind_eq_ok] at h
    have ⟨_, _, ws, ha, h⟩ := h
    cases List.mem_cons.mp hn
    case inl hn => exact ⟨name, ws, w, hn.symm, h⟩
    case inr hn => exact Expr.called_of_substituteAll ha hn
  | .reporter _ args, _, h, hn => by
    simp only [substitute, bind_eq_ok] at h
    have ⟨_, ha, _⟩ := h
    exact Expr.called_of_substituteAll ha hn
  | .unary _ _ e, _, h, hn | .listIndex _ e, _, h, hn | .listContains _ e, _, h, hn => by
    simp only [substitute, bind_eq_ok] at h
    have ⟨_, he, _⟩ := h
    exact Expr.called_of_substitute (e := e) he hn
  | .binary _ _ e₁ e₂, _, h, hn | .index _ e₁ e₂, _, h, hn => by
    simp only [substitute, bind_eq_ok] at h
    have ⟨_, h₁, _, h₂, _⟩ := h
    cases List.mem_append.mp hn
    case inl hn => exact Expr.called_of_substitute h₁ hn
    case inr hn => exact Expr.called_of_substitute h₂ hn

theorem Expr.called_of_substituteAll {n : String} : ∀ {es ws : List Expr},
    substituteAll r es = .ok ws → n ∈ callsAll es →
    ∃ name args w, name.text = n ∧ r.call name args = .ok w
  | [], _, _, hn => nomatch hn
  | e :: es, _, h, hn => by
    simp only [substituteAll, bind_eq_ok] at h
    have ⟨_, h₁, _, h₂, _⟩ := h
    cases List.mem_append.mp hn
    case inl hn => exact Expr.called_of_substitute h₁ hn
    case inr hn => exact Expr.called_of_substituteAll h₂ hn

end

theorem Expr.exists_of_substituteAll {es : List Expr} (h : substituteAll r es = .error d) :
    ∃ e ∈ es, e.substitute r = .error d := by
  induction es
  case nil => contradiction
  case cons e es hi =>
    simp only [substituteAll, bind_eq_error, pure_ne_error, and_false, exists_false, or_false] at h
    rcases h with h | ⟨_, _, h⟩
    · exact ⟨e, by simp, h⟩
    · have ⟨e', he, h⟩ := hi h
      exact ⟨e', by simp [he], h⟩

namespace Stmt

-- If not all expressions of a body come to something, then one of them is the first that does not.
mutual

theorem exists_of_substitute : ∀ {s : Stmt}, s.substitute r = .error d →
    ∃ e ∈ s.exprs, e.substitute r = .error d
  | .increment _, h | .listDeleteAll _, h | .showMonitor _, h | .hideMonitor _, h => nomatch h
  | .call _ args _, h | .macroCall _ args, h | .listSet _ args, h => by
    simp only [substitute, bind_eq_error, pure_ne_error, and_false, exists_false, or_false] at h
    exact Expr.exists_of_substituteAll h
  | .declareLocal _ e, h | .assign _ e, h | .compound _ _ e, h | .listAdd _ e, h
  | .listDelete _ e, h => by
    simp only [substitute, bind_eq_error, pure_ne_error, and_false, exists_false, or_false] at h
    exact ⟨e, by simp [exprs], h⟩
  | .listInsert _ i e, h | .listReplace _ i _ e, h => by
    simp only [substitute, bind_eq_error, pure_ne_error, and_false, exists_false, or_false] at h
    rcases h with h | ⟨_, _, h⟩
    · exact ⟨i, by simp [exprs], h⟩
    · exact ⟨e, by simp [exprs], h⟩
  | .branch _ branches none, h => by
    simp only [substitute, bind_eq_error, pure_ne_error, and_false, exists_false, or_false] at h
    exact exists_of_substituteBranches h
  | .branch _ branches (some body), h => by
    simp only [substitute, bind_eq_error, pure_ne_error, and_false, exists_false, or_false] at h
    rcases h with h | ⟨_, _, h⟩
    · have ⟨e, he, h⟩ := exists_of_substituteBranches h
      exact ⟨e, List.mem_append_left _ he, h⟩
    · have ⟨e, he, h⟩ := exists_of_substituteBody h
      exact ⟨e, List.mem_append_right _ he, h⟩
  | .loopUntil _ e body, h | .loopTimes _ e body, h => by
    simp only [substitute, bind_eq_error, pure_ne_error, and_false, exists_false, or_false] at h
    rcases h with h | ⟨_, _, h⟩
    · exact ⟨e, by simp [exprs], h⟩
    · have ⟨e, he, h⟩ := exists_of_substituteBody h
      exact ⟨e, List.mem_cons_of_mem _ he, h⟩
  | .forever _ body, h => by
    simp only [substitute, bind_eq_error, pure_ne_error, and_false, exists_false, or_false] at h
    exact exists_of_substituteBody h

theorem exists_of_substituteBody : ∀ {ss : List Stmt}, substituteBody r ss = .error d →
    ∃ e ∈ exprsAll ss, e.substitute r = .error d
  | [], h => nomatch h
  | s :: ss, h => by
    simp only [substituteBody, bind_eq_error, pure_ne_error, and_false, exists_false, or_false] at h
    rcases h with h | ⟨_, _, h⟩
    · have ⟨e, he, h⟩ := exists_of_substitute h
      exact ⟨e, List.mem_append_left _ he, h⟩
    · have ⟨e, he, h⟩ := exists_of_substituteBody h
      exact ⟨e, List.mem_append_right _ he, h⟩

theorem exists_of_substituteBranches : ∀ {branches : List (Expr × List Stmt)},
    substituteBranches r branches = .error d →
    ∃ e ∈ exprsOfBranches branches, e.substitute r = .error d
  | [], h => nomatch h
  | (e, body) :: rest, h => by
    simp only [substituteBranches, bind_eq_error, pure_ne_error, and_false, exists_false,
      or_false] at h
    rcases h with h | ⟨_, _, h | ⟨_, _, h⟩⟩
    · exact ⟨e, by simp [exprsOfBranches], h⟩
    · have ⟨e, he, h⟩ := exists_of_substituteBody h
      exact ⟨e, List.mem_append_left _ (List.mem_cons_of_mem _ he), h⟩
    · have ⟨e, he, h⟩ := exists_of_substituteBranches h
      exact ⟨e, List.mem_append_right _ he, h⟩

end

end Stmt

theorem Event.exists_of_substitute {event : Event} (h : event.substitute r = .error d) :
    ∃ e ∈ event.exprs, e.substitute r = .error d := by
  cases event
  case loudness e | timer e =>
    simp only [substitute, bind_eq_error, pure_ne_error, and_false, exists_false, or_false] at h
    exact ⟨e, List.mem_singleton_self e, h⟩
  all_goals contradiction

theorem Event.succeeds_of_substitute {event event' : Event} (h : event.substitute r = .ok event') :
    ∀ e ∈ event.exprs, e.Succeeds r := by
  cases event
  case loudness | timer =>
    have ⟨_, he, _⟩ := bind_eq_ok.mp h
    exact List.forall_mem_singleton.mpr (Expr.succeeds_of_substitute he).1
  all_goals exact nofun

end Substitute

section Splice

variable {call : Splice} {d : Diagnostic}

namespace Stmt

-- If a body cannot be spliced, then one of the calls in it cannot.
mutual

theorem exists_of_splice : ∀ {s : Stmt}, s.splice call = .error d →
    ∃ n args, n.text ∈ s.calls ∧ call n args = .error d
  | .macroCall n args, h => ⟨n, args, List.mem_singleton_self _, h⟩
  | .branch _ branches none, h => by
    simp only [splice, bind_eq_error, pure_ne_error, and_false, exists_false, or_false] at h
    exact exists_of_spliceBranches h
  | .branch _ branches (some body), h => by
    simp only [splice, bind_eq_error, pure_ne_error, and_false, exists_false, or_false] at h
    rcases h with h | ⟨_, _, h⟩
    · have ⟨n, args, hn, h⟩ := exists_of_spliceBranches h
      exact ⟨n, args, List.mem_append_left _ hn, h⟩
    · have ⟨n, args, hn, h⟩ := exists_of_spliceBody h
      exact ⟨n, args, List.mem_append_right _ hn, h⟩
  | .loopUntil _ _ body, h | .loopTimes _ _ body, h | .forever _ body, h => by
    simp only [splice, bind_eq_error, pure_ne_error, and_false, exists_false, or_false] at h
    have h : ∃ n args, n.text ∈ callsAll body ∧ call n args = .error d := exists_of_spliceBody h
    exact h
  | .call .., h | .declareLocal .., h | .assign .., h | .compound .., h | .increment .., h
  | .listSet .., h | .listAdd .., h | .listDelete .., h | .listDeleteAll .., h
  | .listInsert .., h | .listReplace .., h | .showMonitor .., h | .hideMonitor .., h => nomatch h

theorem exists_of_spliceBody : ∀ {ss : List Stmt}, spliceBody call ss = .error d →
    ∃ n args, n.text ∈ callsAll ss ∧ call n args = .error d
  | [], h => nomatch h
  | s :: ss, h => by
    simp only [spliceBody, bind_eq_error, pure_ne_error, and_false, exists_false, or_false] at h
    rcases h with h | ⟨_, _, h⟩
    · have ⟨n, args, hn, h⟩ := exists_of_splice h
      exact ⟨n, args, List.mem_append_left _ hn, h⟩
    · have ⟨n, args, hn, h⟩ := exists_of_spliceBody h
      exact ⟨n, args, List.mem_append_right _ hn, h⟩

theorem exists_of_spliceBranches : ∀ {branches : List (Expr × List Stmt)},
    spliceBranches call branches = .error d →
    ∃ n args, n.text ∈ callsOfBranches branches ∧ call n args = .error d
  | [], h => nomatch h
  | (_, body) :: rest, h => by
    simp only [spliceBranches, bind_eq_error, pure_ne_error, and_false, exists_false,
      or_false] at h
    rcases h with h | ⟨_, _, h⟩
    · have ⟨n, args, hn, h⟩ := exists_of_spliceBody h
      exact ⟨n, args, List.mem_append_left _ hn, h⟩
    · have ⟨n, args, hn, h⟩ := exists_of_spliceBranches h
      exact ⟨n, args, List.mem_append_right _ hn, h⟩

end

-- If a body can be spliced, then so can all calls in it.
mutual

theorem called_of_splice {n : String} : ∀ {s : Stmt} {ss : List Stmt}, s.splice call = .ok ss →
    n ∈ s.calls → ∃ name args ss, name.text = n ∧ call name args = .ok ss
  | .macroCall name args, ss, h, hn => ⟨name, args, ss, (List.mem_singleton.mp hn).symm, h⟩
  | .branch _ branches none, _, h, hn => by
    simp only [splice, bind_eq_ok] at h
    have ⟨_, hb, _⟩ := h
    exact called_of_spliceBranches hb hn
  | .branch _ branches (some body), _, h, hn => by
    simp only [splice, bind_eq_ok] at h
    have ⟨_, h₁, _, h₂, _⟩ := h
    cases List.mem_append.mp hn
    case inl hn => exact called_of_spliceBranches h₁ hn
    case inr hn => exact called_of_spliceBody h₂ hn
  | .loopUntil _ _ body, _, h, hn | .loopTimes _ _ body, _, h, hn | .forever _ body, _, h, hn => by
    simp only [splice, bind_eq_ok] at h
    have ⟨_, hb, _⟩ := h
    have hn : n ∈ callsAll body := hn
    exact called_of_spliceBody hb hn
  | .call .., _, _, hn | .declareLocal .., _, _, hn | .assign .., _, _, hn
  | .compound .., _, _, hn | .increment .., _, _, hn | .listSet .., _, _, hn
  | .listAdd .., _, _, hn | .listDelete .., _, _, hn | .listDeleteAll .., _, _, hn
  | .listInsert .., _, _, hn | .listReplace .., _, _, hn | .showMonitor .., _, _, hn
  | .hideMonitor .., _, _, hn => by simp [calls] at hn

theorem called_of_spliceBody {n : String} : ∀ {ss ss' : List Stmt},
    spliceBody call ss = .ok ss' → n ∈ callsAll ss →
    ∃ name args ss, name.text = n ∧ call name args = .ok ss
  | [], _, _, hn => nomatch hn
  | s :: ss, _, h, hn => by
    simp only [spliceBody, bind_eq_ok] at h
    have ⟨_, h₁, _, h₂, _⟩ := h
    cases List.mem_append.mp hn
    case inl hn => exact called_of_splice h₁ hn
    case inr hn => exact called_of_spliceBody h₂ hn

theorem called_of_spliceBranches {n : String} : ∀ {branches branches' : List (Expr × List Stmt)},
    spliceBranches call branches = .ok branches' → n ∈ callsOfBranches branches →
    ∃ name args ss, name.text = n ∧ call name args = .ok ss
  | [], _, _, hn => nomatch hn
  | (_, body) :: rest, _, h, hn => by
    simp only [spliceBranches, bind_eq_ok] at h
    have ⟨_, h₁, _, h₂, _⟩ := h
    cases List.mem_append.mp hn
    case inl hn => exact called_of_spliceBody h₁ hn
    case inr hn => exact called_of_spliceBranches h₂ hn

end

end Stmt

end Splice

end BlockLang
