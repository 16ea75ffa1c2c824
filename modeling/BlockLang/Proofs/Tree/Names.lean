import BlockLang.Tree.Substitution
import BlockLang.Proofs.Except

/-!
The names in a tree: those of variables, lists and functions. Those of macros and of their
parameters do not count, as they do not stay.
-/

namespace BlockLang

mutual

-- The variables and lists that an expression names.
def Expr.names : Expr → List String
  | .var n | .listLength n => [n.text]
  | .listIndex n e | .listContains n e => n.text :: e.names
  | .macroCall _ args | .reporter _ args => Expr.namesAll args
  | .unary _ _ e => e.names
  | .binary _ _ l r | .index _ l r => l.names ++ r.names
  | .literal _ | .argument _ | .macroVar _ | .sensingOf _ _ => []

def Expr.namesAll : List Expr → List String
  | [] => []
  | e :: es => e.names ++ Expr.namesAll es

end

mutual

-- The variables and lists that a statement names.
def Stmt.names : Stmt → List String
  | .call _ args _ | .macroCall _ args => Expr.namesAll args
  | .branch _ branches none => Stmt.namesOfBranches branches
  | .branch _ branches (some body) => Stmt.namesOfBranches branches ++ Stmt.namesAll body
  | .loopUntil _ e body | .loopTimes _ e body => e.names ++ Stmt.namesAll body
  | .forever _ body => Stmt.namesAll body
  | .declareLocal n e | .assign n e | .compound n _ e | .listAdd n e | .listDelete n e =>
    n.text :: e.names
  | .increment n | .listDeleteAll n | .showMonitor n | .hideMonitor n => [n.text]
  | .listSet n items => n.text :: Expr.namesAll items
  | .listInsert n i e | .listReplace n i _ e => n.text :: (i.names ++ e.names)

def Stmt.namesAll : List Stmt → List String
  | [] => []
  | s :: ss => s.names ++ Stmt.namesAll ss

def Stmt.namesOfBranches : List (Expr × List Stmt) → List String
  | [] => []
  | (e, body) :: rest => e.names ++ Stmt.namesAll body ++ Stmt.namesOfBranches rest

end

-- The variables and lists that the threshold of an event names.
def Event.names : Event → List String
  | .loudness e | .timer e => e.names
  | .flag | .click | .clone | .message _ | .key _ | .backdrop _ => []

-- The variables and lists that a declaration names, and its own name.
def Decl.names : Decl → List String
  | .function n _ body _ => n.text :: Stmt.namesAll body
  | .exprMacro _ _ e => e.names
  | .blockMacro _ _ body => Stmt.namesAll body
  | .event _ e body => e.names ++ Stmt.namesAll body
  | .costumes _ | .vars _ | .lists _ | .dataList _ _ | .imageList _ _ _ | .docComment _ => []

theorem Expr.mem_namesAll {es : List Expr} {x : String} :
    x ∈ Expr.namesAll es ↔ ∃ e ∈ es, x ∈ e.names := by
  induction es <;> simp_all [Expr.namesAll]

@[simp]
theorem Stmt.namesAll_append {ss ss' : List Stmt} :
    Stmt.namesAll (ss ++ ss') = Stmt.namesAll ss ++ Stmt.namesAll ss' := by
  induction ss <;> simp_all [Stmt.namesAll]

variable {P : String → Prop}

-- What takes the place of parameters and calls has no other names than there were before.
structure Substitution.Keeps (P : String → Prop) (r : Substitution) : Prop where
  param : ∀ {n e}, r.param n = .ok e → ∀ x ∈ e.names, P x
  call  : ∀ {n args e}, r.call n args = .ok e → (∀ x ∈ Expr.namesAll args, P x) →
    ∀ x ∈ e.names, P x

def Splice.Keeps (P : String → Prop) (call : Splice) : Prop :=
  ∀ {n args ss}, call n args = .ok ss → (∀ x ∈ Expr.namesAll args, P x) →
    ∀ x ∈ Stmt.namesAll ss, P x

section Substitute

variable {r : Substitution}

mutual

theorem Expr.names_substitute (h : r.Keeps P) : ∀ {e e' : Expr}, e.substitute r = .ok e' →
    (∀ x ∈ e.names, P x) → ∀ x ∈ e'.names, P x
  | .literal _, _, he, hn | .argument _, _, he, hn | .var _, _, he, hn | .listLength _, _, he, hn
  | .sensingOf _ _, _, he, hn => Except.ok.inj he ▸ hn
  | .macroVar _, _, he, _ => h.param he
  | .macroCall _ args, e', he, hn => by
    simp only [Expr.substitute, bind_eq_ok] at he
    have ⟨_, _, _, ha, he⟩ := he
    exact h.call he (Expr.names_substituteAll h ha hn)
  | .reporter _ args, e', he, hn => by
    simp only [Expr.substitute, bind_eq_ok, pure_eq_ok] at he
    have ⟨_, ha, he⟩ := he
    exact he ▸ Expr.names_substituteAll h ha hn
  | .unary _ _ e, e', he, hn => by
    simp only [Expr.substitute, bind_eq_ok, pure_eq_ok] at he
    have ⟨_, ha, he⟩ := he
    have ha := Expr.names_substitute h ha hn
    exact he ▸ ha
  | .listIndex n e, e', he, hn | .listContains n e, e', he, hn => by
    simp only [Expr.substitute, bind_eq_ok, pure_eq_ok] at he
    have ⟨_, ha, he⟩ := he
    have ⟨hn, hns⟩ := List.forall_mem_cons.mp hn
    exact he ▸ List.forall_mem_cons.mpr ⟨hn, Expr.names_substitute h ha hns⟩
  | .binary _ _ e₁ e₂, e', he, hn | .index _ e₁ e₂, e', he, hn => by
    simp only [Expr.substitute, bind_eq_ok, pure_eq_ok] at he
    have ⟨_, h₁, _, h₂, he⟩ := he
    have ⟨hn₁, hn₂⟩ := List.forall_mem_append.mp hn
    exact he ▸ List.forall_mem_append.mpr
      ⟨Expr.names_substitute h h₁ hn₁, Expr.names_substitute h h₂ hn₂⟩

theorem Expr.names_substituteAll (h : r.Keeps P) : ∀ {es es' : List Expr},
    Expr.substituteAll r es = .ok es' → (∀ x ∈ Expr.namesAll es, P x) →
    ∀ x ∈ Expr.namesAll es', P x
  | [], _, he, hn => Except.ok.inj he ▸ hn
  | e :: es, _, he, hn => by
    simp only [Expr.substituteAll, bind_eq_ok, pure_eq_ok] at he
    have ⟨_, h₁, _, h₂, he⟩ := he
    have ⟨hn₁, hn₂⟩ := List.forall_mem_append.mp hn
    exact he ▸ List.forall_mem_append.mpr
      ⟨Expr.names_substitute h h₁ hn₁, Expr.names_substituteAll h h₂ hn₂⟩

end

mutual

theorem Stmt.names_substitute (h : r.Keeps P) : ∀ {s s' : Stmt}, s.substitute r = .ok s' →
    (∀ x ∈ s.names, P x) → ∀ x ∈ s'.names, P x
  | .increment _, _, hs, hn | .listDeleteAll _, _, hs, hn | .showMonitor _, _, hs, hn
  | .hideMonitor _, _, hs, hn => Except.ok.inj hs ▸ hn
  | .call _ args _, s', hs, hn | .macroCall _ args, s', hs, hn => by
    simp only [Stmt.substitute, bind_eq_ok, pure_eq_ok] at hs
    have ⟨_, ha, hs⟩ := hs
    have ha := Expr.names_substituteAll h ha hn
    exact hs ▸ ha
  | .branch _ branches none, s', hs, hn => by
    simp only [Stmt.substitute, bind_eq_ok, pure_eq_ok] at hs
    have ⟨_, hb, hs⟩ := hs
    have hb := Stmt.names_substituteBranches h hb hn
    exact hs ▸ hb
  | .branch _ branches (some body), s', hs, hn => by
    simp only [Stmt.substitute, bind_eq_ok, pure_eq_ok] at hs
    have ⟨_, h₁, _, h₂, hs⟩ := hs
    have ⟨hn₁, hn₂⟩ := List.forall_mem_append.mp hn
    exact hs ▸ List.forall_mem_append.mpr
      ⟨Stmt.names_substituteBranches h h₁ hn₁, Stmt.names_substituteBody h h₂ hn₂⟩
  | .loopUntil _ e body, s', hs, hn | .loopTimes _ e body, s', hs, hn => by
    simp only [Stmt.substitute, bind_eq_ok, pure_eq_ok] at hs
    have ⟨_, h₁, _, h₂, hs⟩ := hs
    have ⟨hn₁, hn₂⟩ := List.forall_mem_append.mp hn
    exact hs ▸ List.forall_mem_append.mpr
      ⟨Expr.names_substitute h h₁ hn₁, Stmt.names_substituteBody h h₂ hn₂⟩
  | .forever _ body, s', hs, hn => by
    simp only [Stmt.substitute, bind_eq_ok, pure_eq_ok] at hs
    have ⟨_, hb, hs⟩ := hs
    have hb := Stmt.names_substituteBody h hb hn
    exact hs ▸ hb
  | .declareLocal n e, s', hs, hn | .assign n e, s', hs, hn | .compound n _ e, s', hs, hn
  | .listAdd n e, s', hs, hn | .listDelete n e, s', hs, hn => by
    simp only [Stmt.substitute, bind_eq_ok, pure_eq_ok] at hs
    have ⟨_, he, hs⟩ := hs
    have ⟨hn, hns⟩ := List.forall_mem_cons.mp hn
    exact hs ▸ List.forall_mem_cons.mpr ⟨hn, Expr.names_substitute h he hns⟩
  | .listSet n items, s', hs, hn => by
    simp only [Stmt.substitute, bind_eq_ok, pure_eq_ok] at hs
    have ⟨_, he, hs⟩ := hs
    have ⟨hn, hns⟩ := List.forall_mem_cons.mp hn
    exact hs ▸ List.forall_mem_cons.mpr ⟨hn, Expr.names_substituteAll h he hns⟩
  | .listInsert n i e, s', hs, hn | .listReplace n i _ e, s', hs, hn => by
    simp only [Stmt.substitute, bind_eq_ok, pure_eq_ok] at hs
    have ⟨_, h₁, _, h₂, hs⟩ := hs
    have ⟨hn, hns⟩ := List.forall_mem_cons.mp hn
    have ⟨hn₁, hn₂⟩ := List.forall_mem_append.mp hns
    exact hs ▸ List.forall_mem_cons.mpr ⟨hn, List.forall_mem_append.mpr
      ⟨Expr.names_substitute h h₁ hn₁, Expr.names_substitute h h₂ hn₂⟩⟩

theorem Stmt.names_substituteBody (h : r.Keeps P) : ∀ {ss ss' : List Stmt},
    Stmt.substituteBody r ss = .ok ss' → (∀ x ∈ Stmt.namesAll ss, P x) →
    ∀ x ∈ Stmt.namesAll ss', P x
  | [], _, hs, hn => Except.ok.inj hs ▸ hn
  | s :: ss, _, hs, hn => by
    simp only [Stmt.substituteBody, bind_eq_ok, pure_eq_ok] at hs
    have ⟨_, h₁, _, h₂, hs⟩ := hs
    have ⟨hn₁, hn₂⟩ := List.forall_mem_append.mp hn
    exact hs ▸ List.forall_mem_append.mpr
      ⟨Stmt.names_substitute h h₁ hn₁, Stmt.names_substituteBody h h₂ hn₂⟩

theorem Stmt.names_substituteBranches (h : r.Keeps P) : ∀ {bs bs' : List (Expr × List Stmt)},
    Stmt.substituteBranches r bs = .ok bs' → (∀ x ∈ Stmt.namesOfBranches bs, P x) →
    ∀ x ∈ Stmt.namesOfBranches bs', P x
  | [], _, hs, hn => Except.ok.inj hs ▸ hn
  | (e, body) :: rest, _, hs, hn => by
    simp only [Stmt.substituteBranches, bind_eq_ok, pure_eq_ok] at hs
    have ⟨_, h₁, _, h₂, _, h₃, hs⟩ := hs
    have ⟨hn, hn₃⟩ := List.forall_mem_append.mp hn
    have ⟨hn₁, hn₂⟩ := List.forall_mem_append.mp hn
    exact hs ▸ List.forall_mem_append.mpr ⟨List.forall_mem_append.mpr
      ⟨Expr.names_substitute h h₁ hn₁, Stmt.names_substituteBody h h₂ hn₂⟩,
      Stmt.names_substituteBranches h h₃ hn₃⟩

end

theorem Event.names_substitute (h : r.Keeps P) {e e' : Event} (he : e.substitute r = .ok e')
    (hn : ∀ x ∈ e.names, P x) : ∀ x ∈ e'.names, P x := by
  cases e
  case loudness | timer =>
    simp only [Event.substitute, bind_eq_ok, pure_eq_ok] at he
    have ⟨_, ha, he⟩ := he
    have ha := Expr.names_substitute h ha hn
    exact he ▸ ha
  all_goals exact Except.ok.inj he ▸ hn

end Substitute

section Splice

variable {call : Splice}

mutual

theorem Stmt.names_splice (h : call.Keeps P) :
    ∀ {s : Stmt} {ss : List Stmt}, s.splice call = .ok ss → (∀ x ∈ s.names, P x) →
      ∀ x ∈ Stmt.namesAll ss, P x
  | .macroCall _ _, _, hs, hn => h hs hn
  | .branch _ branches none, ss, hs, hn => by
    simp only [Stmt.splice, bind_eq_ok, pure_eq_ok] at hs
    have ⟨_, hb, hs⟩ := hs
    have hb := Stmt.names_spliceBranches h hb hn
    exact hs ▸ by simpa [Stmt.namesAll, Stmt.names] using hb
  | .branch _ branches (some body), ss, hs, hn => by
    simp only [Stmt.splice, bind_eq_ok, pure_eq_ok] at hs
    have ⟨_, h₁, _, h₂, hs⟩ := hs
    have ⟨hn₁, hn₂⟩ := List.forall_mem_append.mp hn
    have h₁ := Stmt.names_spliceBranches h h₁ hn₁
    have h₂ := Stmt.names_spliceBody h h₂ hn₂
    exact hs ▸ by simpa [Stmt.namesAll, Stmt.names] using List.forall_mem_append.mpr ⟨h₁, h₂⟩
  | .loopUntil _ e body, ss, hs, hn | .loopTimes _ e body, ss, hs, hn => by
    simp only [Stmt.splice, bind_eq_ok, pure_eq_ok] at hs
    have ⟨_, hb, hs⟩ := hs
    have ⟨hn₁, hn₂⟩ := List.forall_mem_append.mp hn
    have hb := Stmt.names_spliceBody h hb hn₂
    exact hs ▸ by simpa [Stmt.namesAll, Stmt.names] using List.forall_mem_append.mpr ⟨hn₁, hb⟩
  | .forever _ body, ss, hs, hn => by
    simp only [Stmt.splice, bind_eq_ok, pure_eq_ok] at hs
    have ⟨_, hb, hs⟩ := hs
    have hb := Stmt.names_spliceBody h hb hn
    exact hs ▸ by simpa [Stmt.namesAll, Stmt.names] using hb
  | .call .., _, hs, hn | .declareLocal .., _, hs, hn | .assign .., _, hs, hn
  | .compound .., _, hs, hn | .increment .., _, hs, hn | .listSet .., _, hs, hn
  | .listAdd .., _, hs, hn | .listDelete .., _, hs, hn | .listDeleteAll .., _, hs, hn
  | .listInsert .., _, hs, hn | .listReplace .., _, hs, hn | .showMonitor .., _, hs, hn
  | .hideMonitor .., _, hs, hn =>
    Except.ok.inj hs ▸ List.forall_mem_append.mpr ⟨hn, by simp [Stmt.namesAll]⟩

theorem Stmt.names_spliceBody (h : call.Keeps P) :
    ∀ {ss ss' : List Stmt}, Stmt.spliceBody call ss = .ok ss' → (∀ x ∈ Stmt.namesAll ss, P x) →
      ∀ x ∈ Stmt.namesAll ss', P x
  | [], _, hs, hn => Except.ok.inj hs ▸ hn
  | s :: ss, _, hs, hn => by
    simp only [Stmt.spliceBody, bind_eq_ok, pure_eq_ok] at hs
    have ⟨_, h₁, _, h₂, hs⟩ := hs
    have ⟨hn₁, hn₂⟩ := List.forall_mem_append.mp hn
    rw [← hs, Stmt.namesAll_append]
    exact List.forall_mem_append.mpr
      ⟨Stmt.names_splice h h₁ hn₁, Stmt.names_spliceBody h h₂ hn₂⟩

theorem Stmt.names_spliceBranches (h : call.Keeps P) :
    ∀ {bs bs' : List (Expr × List Stmt)}, Stmt.spliceBranches call bs = .ok bs' →
      (∀ x ∈ Stmt.namesOfBranches bs, P x) → ∀ x ∈ Stmt.namesOfBranches bs', P x
  | [], _, hs, hn => Except.ok.inj hs ▸ hn
  | (e, body) :: rest, _, hs, hn => by
    simp only [Stmt.spliceBranches, bind_eq_ok, pure_eq_ok] at hs
    have ⟨_, h₁, _, h₂, hs⟩ := hs
    have ⟨hn, hn₂⟩ := List.forall_mem_append.mp hn
    have ⟨hn, hn₁⟩ := List.forall_mem_append.mp hn
    exact hs ▸ List.forall_mem_append.mpr ⟨List.forall_mem_append.mpr
      ⟨hn, Stmt.names_spliceBody h h₁ hn₁⟩, Stmt.names_spliceBranches h h₂ hn₂⟩

end

end Splice

end BlockLang
