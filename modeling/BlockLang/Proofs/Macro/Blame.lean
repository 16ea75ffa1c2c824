import BlockLang.Proofs.Macro.Expand
import BlockLang.Proofs.Symbols.Collect
import BlockLang.Proofs.Tree.Parser.Decl

/-!
Macros are expanded within the material of a text: what is put in place of a call consists of the
same tokens, and if that fails, then one of them is to blame.
-/

namespace BlockLang

variable {m : Material} {calls after : CallKinds}

-- What can be called before can be called after.
mutual

theorem Expr.MadeOf.mono (hc : calls .expression → after .expression) :
    ∀ {e : Expr}, e.MadeOf m calls → e.MadeOf m after
  | .literal _, h | .argument _, h | .var _, h | .listLength _, h | .macroVar _, h
  | .sensingOf _ _, h => h
  | .macroCall _ _, ⟨h, hn, ha⟩ => ⟨hc h, hn, ha.mono hc⟩
  | .reporter _ _, ⟨hn, ha⟩ => ⟨hn, Expr.MadeOfAll.mono hc ha⟩
  | .unary _ _ _, ⟨hs, he⟩ | .listIndex _ _, ⟨hs, he⟩ | .listContains _ _, ⟨hs, he⟩ =>
    ⟨hs, Expr.MadeOf.mono hc he⟩
  | .binary _ _ _ _, ⟨hs, hl, hr⟩ | .index _ _ _, ⟨hs, hl, hr⟩ => ⟨hs, hl.mono hc, hr.mono hc⟩

theorem Expr.MadeOfAll.mono (hc : calls .expression → after .expression) :
    ∀ {es : List Expr}, MadeOfAll m calls es → MadeOfAll m after es
  | [], _ => trivial
  | _ :: _, ⟨he, hes⟩ => ⟨he.mono hc, hes.mono hc⟩

end

theorem Event.MadeOf.mono (hc : calls .expression → after .expression) {event : Event}
    (h : event.MadeOf m calls) : event.MadeOf m after := by
  cases event
  case loudness | timer => exact Expr.MadeOf.mono hc h
  all_goals exact h

theorem Expr.MadeOfAll.of_mem {es : List Expr} (h : MadeOfAll m calls es) :
    ∀ e ∈ es, e.MadeOf m calls := by
  induction es
  case nil => exact nofun
  case cons e es hi => exact List.forall_mem_cons.mpr ⟨h.1, hi h.2⟩

theorem Stmt.madeOfBody_append {ss ss' : List Stmt} (h : MadeOfBody m calls ss)
    (h' : MadeOfBody m calls ss') : MadeOfBody m calls (ss ++ ss') := by
  induction ss
  case nil => exact h'
  case cons s ss hi => exact ⟨h.1, hi h.2⟩

-- What takes the place of parameters and calls is of the material, and so is what is refused.
structure Substitution.Within (m : Material) (calls after : CallKinds) (r : Substitution) :
    Prop where
  param : ∀ {n}, n.MarkedIn m → Yields (·.MadeOf m after) m.Blames (r.param n)
  allow : ∀ {n count}, n.MarkedIn m → m.Explains (r.allow n count)
  call  : ∀ {n args}, calls .expression → n.MarkedIn m → Expr.MadeOfAll m after args →
    Yields (·.MadeOf m after) m.Blames (r.call n args)

section Substitute

variable {r : Substitution}

mutual

theorem Expr.MadeOf.substitute (hr : r.Within m calls after) : ∀ {e : Expr}, e.MadeOf m calls →
    Yields (·.MadeOf m after) m.Blames (e.substitute r)
  | .literal _, h | .argument _, h | .var _, h | .listLength _, h | .sensingOf _ _, h => h
  | .macroVar _, h => hr.param h
  | .macroCall n args, ⟨hc, hn, ha⟩ => by
    rw [Expr.substitute]
    exact (hr.allow hn).bind fun _ _ => (ha.substitute hr).bind fun _ ha => hr.call hc hn ha
  | .reporter n args, ⟨hn, ha⟩ => by
    rw [Expr.substitute]
    exact (Expr.MadeOfAll.substitute hr ha).bind fun _ ha => .pure ⟨hn, ha⟩
  | .unary _ _ e, ⟨hs, he⟩ | .listIndex _ e, ⟨hs, he⟩ | .listContains _ e, ⟨hs, he⟩ => by
    rw [Expr.substitute]
    exact (he.substitute hr).bind fun _ he => .pure ⟨hs, he⟩
  | .binary _ _ _ _, ⟨hs, h₁, h₂⟩ | .index _ _ _, ⟨hs, h₁, h₂⟩ => by
    rw [Expr.substitute]
    exact (h₁.substitute hr).bind fun _ h₁ => (h₂.substitute hr).bind fun _ h₂ =>
      .pure ⟨hs, h₁, h₂⟩

theorem Expr.MadeOfAll.substitute (hr : r.Within m calls after) : ∀ {es : List Expr},
    MadeOfAll m calls es → Yields (MadeOfAll m after) m.Blames (substituteAll r es)
  | [], _ => trivial
  | e :: es, ⟨he, hes⟩ => by
    rw [Expr.substituteAll]
    exact (he.substitute hr).bind fun _ he => (hes.substitute hr).bind fun _ hes => .pure ⟨he, hes⟩

end

mutual

theorem Stmt.MadeOf.substitute (hr : r.Within m calls after) (hb : calls .block → after .block) :
    ∀ {s : Stmt}, s.MadeOf m calls → Yields (·.MadeOf m after) m.Blames (s.substitute r)
  | .increment _, h | .listDeleteAll _, h | .showMonitor _, h | .hideMonitor _, h => h
  | .call _ _ _, ⟨hn, ha, hc⟩ => by
    rw [Stmt.substitute]
    exact (ha.substitute hr).bind fun _ ha => .pure ⟨hn, ha, hc⟩
  | .macroCall _ _, ⟨hc, hn, ha⟩ => by
    rw [Stmt.substitute]
    exact (ha.substitute hr).bind fun _ ha => .pure ⟨hb hc, hn, ha⟩
  | .branch _ branches none, ⟨hs, hne, h⟩ => by
    rw [Stmt.substitute]
    exact (h.substitute hr hb).bind fun _ ⟨h, hk⟩ => .pure ⟨hs, hk hne, h⟩
  | .branch _ branches (some body), ⟨hs, hne, h, ho⟩ => by
    rw [Stmt.substitute]
    exact (h.substitute hr hb).bind fun _ ⟨h, hk⟩ => (ho.substitute hr hb).bind fun _ ho =>
      .pure ⟨hs, hk hne, h, ho⟩
  | .loopUntil _ _ _, ⟨hs, he, h⟩ | .loopTimes _ _ _, ⟨hs, he, h⟩ => by
    rw [Stmt.substitute]
    exact (he.substitute hr).bind fun _ he => (h.substitute hr hb).bind fun _ h => .pure ⟨hs, he, h⟩
  | .forever _ _, ⟨hs, h⟩ => by
    rw [Stmt.substitute]
    exact (Stmt.MadeOfBody.substitute hr hb h).bind fun _ h => .pure ⟨hs, h⟩
  | .declareLocal _ _, ⟨hn, he⟩ | .assign _ _, ⟨hn, he⟩ | .compound _ _ _, ⟨hn, he⟩
  | .listAdd _ _, ⟨hn, he⟩ | .listDelete _ _, ⟨hn, he⟩ => by
    rw [Stmt.substitute]
    exact (he.substitute hr).bind fun _ he => .pure ⟨hn, he⟩
  | .listSet _ _, ⟨hn, ha⟩ => by
    rw [Stmt.substitute]
    exact (ha.substitute hr).bind fun _ ha => .pure ⟨hn, ha⟩
  | .listInsert _ _ _, ⟨hn, h₁, h₂⟩ | .listReplace _ _ _ _, ⟨hn, h₁, h₂⟩ => by
    rw [Stmt.substitute]
    exact (h₁.substitute hr).bind fun _ h₁ => (h₂.substitute hr).bind fun _ h₂ =>
      .pure ⟨hn, h₁, h₂⟩

theorem Stmt.MadeOfBody.substitute (hr : r.Within m calls after)
    (hb : calls .block → after .block) : ∀ {ss : List Stmt}, MadeOfBody m calls ss →
    Yields (MadeOfBody m after) m.Blames (substituteBody r ss)
  | [], _ => trivial
  | _ :: _, ⟨hs, hss⟩ => by
    rw [Stmt.substituteBody]
    exact (hs.substitute hr hb).bind fun _ hs => (hss.substitute hr hb).bind fun _ hss =>
      .pure ⟨hs, hss⟩

theorem Stmt.MadeOfBranches.substitute (hr : r.Within m calls after)
    (hb : calls .block → after .block) : ∀ {bs : List (Expr × List Stmt)},
    MadeOfBranches m calls bs →
    Yields (fun bs' => MadeOfBranches m after bs' ∧ (bs ≠ [] → bs' ≠ [])) m.Blames
      (substituteBranches r bs)
  | [], _ => ⟨trivial, id⟩
  | (_, _) :: _, ⟨⟨he, h⟩, hbs⟩ => by
    rw [Stmt.substituteBranches]
    exact (he.substitute hr).bind fun _ he => (h.substitute hr hb).bind fun _ h =>
      (hbs.substitute hr hb).bind fun _ ⟨hbs, _⟩ => .pure ⟨⟨⟨he, h⟩, hbs⟩, nofun⟩

end

theorem Event.MadeOf.substitute (hr : r.Within m calls after) {event : Event}
    (h : event.MadeOf m calls) : Yields (·.MadeOf m after) m.Blames (event.substitute r) := by
  cases event
  case loudness | timer =>
    have h : Expr.MadeOf m calls _ := h
    exact (h.substitute hr).bind fun _ he => .pure he
  all_goals exact h

end Substitute

-- What takes the place of the calls of block macros is of the material.
def Splice.Within (m : Material) (call : Splice) : Prop :=
  ∀ {n args}, n.MarkedIn m → Expr.MadeOfAll m .any args →
    Yields (Stmt.MadeOfBody m .inExprs) m.Blames (call n args)

section Splice

variable {call : Splice}

theorem any_inExprs : CallKinds.any .expression → CallKinds.inExprs .expression :=
  fun _ => rfl

mutual

theorem Stmt.MadeOf.splice (hc : call.Within m) : ∀ {s : Stmt}, s.MadeOf m .any →
    Yields (MadeOfBody m .inExprs) m.Blames (s.splice call)
  | .macroCall _ _, ⟨_, hn, ha⟩ => hc hn ha
  | .branch _ _ none, ⟨hs, hne, h⟩ => by
    rw [Stmt.splice]
    exact (h.splice hc).bind fun _ ⟨h, hk⟩ => .pure ⟨⟨hs, hk hne, h⟩, trivial⟩
  | .branch _ _ (some _), ⟨hs, hne, h, ho⟩ => by
    rw [Stmt.splice]
    exact (h.splice hc).bind fun _ ⟨h, hk⟩ => (ho.splice hc).bind fun _ ho =>
      .pure ⟨⟨hs, hk hne, h, ho⟩, trivial⟩
  | .loopUntil _ _ _, ⟨hs, he, h⟩ | .loopTimes _ _ _, ⟨hs, he, h⟩ => by
    rw [Stmt.splice]
    exact (h.splice hc).bind fun _ h => .pure ⟨⟨hs, he.mono any_inExprs, h⟩, trivial⟩
  | .forever _ _, ⟨hs, h⟩ => by
    rw [Stmt.splice]
    exact (Stmt.MadeOfBody.splice hc h).bind fun _ h => .pure ⟨⟨hs, h⟩, trivial⟩
  | .call _ _ _, ⟨hn, ha, hc⟩ => ⟨⟨hn, ha.mono any_inExprs, hc⟩, trivial⟩
  | .increment _, h | .listDeleteAll _, h | .showMonitor _, h | .hideMonitor _, h => ⟨h, trivial⟩
  | .declareLocal _ _, ⟨hn, he⟩ | .assign _ _, ⟨hn, he⟩ | .compound _ _ _, ⟨hn, he⟩
  | .listAdd _ _, ⟨hn, he⟩ | .listDelete _ _, ⟨hn, he⟩ => ⟨⟨hn, he.mono any_inExprs⟩, trivial⟩
  | .listSet _ _, ⟨hn, ha⟩ => ⟨⟨hn, ha.mono any_inExprs⟩, trivial⟩
  | .listInsert _ _ _, ⟨hn, h₁, h₂⟩ | .listReplace _ _ _ _, ⟨hn, h₁, h₂⟩ =>
    ⟨⟨hn, h₁.mono any_inExprs, h₂.mono any_inExprs⟩, trivial⟩

theorem Stmt.MadeOfBody.splice (hc : call.Within m) : ∀ {ss : List Stmt}, MadeOfBody m .any ss →
    Yields (MadeOfBody m .inExprs) m.Blames (spliceBody call ss)
  | [], _ => trivial
  | _ :: _, ⟨hs, hss⟩ => by
    rw [Stmt.spliceBody]
    exact (hs.splice hc).bind fun _ hs => (hss.splice hc).bind fun _ hss =>
      .pure (madeOfBody_append hs hss)

theorem Stmt.MadeOfBranches.splice (hc : call.Within m) : ∀ {bs : List (Expr × List Stmt)},
    MadeOfBranches m .any bs →
    Yields (fun bs' => MadeOfBranches m .inExprs bs' ∧ (bs ≠ [] → bs' ≠ [])) m.Blames
      (spliceBranches call bs)
  | [], _ => ⟨trivial, id⟩
  | (_, _) :: _, ⟨⟨he, h⟩, hbs⟩ => by
    rw [Stmt.spliceBranches]
    exact (h.splice hc).bind fun _ h => (hbs.splice hc).bind fun _ ⟨hbs, _⟩ =>
      .pure ⟨⟨⟨he.mono any_inExprs, h⟩, hbs⟩, nofun⟩

end

end Splice

namespace Macro

variable {β : Type} {name : Name} {args : List Expr} {active : List String} {depth : Nat}

theorem explains_checkCount {kind : MacroKind} {params : List String} {given : Nat}
    (hn : name.MarkedIn m) : m.Explains (checkCount kind name params given) := by
  unfold checkCount
  dsimp only
  repeat' split
  all_goals first
    | exact trivial
    | exact yields_error hn.2 rfl

theorem yields_find {macros : Std.TreeMap String (Macro β)} {kind : MacroKind} {given : Nat}
    (hn : name.MarkedIn m) :
    Yields (fun a => macros[name.text]? = some a) m.Blames (find macros kind name given) := by
  unfold find
  split
  case h_1 => exact yields_error hn.2 rfl
  case h_2 a ha => exact (explains_checkCount hn).bind fun _ _ => .pure ha

theorem yields_recursive {Q : β → Prop} (hn : name.MarkedIn m) :
    Yields Q m.Blames (recursive name) :=
  yields_error hn.2 rfl

theorem yields_argument {params : List String} (ha : Expr.MadeOfAll m calls args)
    (hn : name.MarkedIn m) : Yields (·.MadeOf m calls) m.Blames (argument params args name) := by
  unfold argument
  split
  case h_1 e he => exact ha.of_mem e (List.of_mem_zip (mem_of_lookup_eq_some he)).2
  case h_2 => exact yields_error hn.2 rfl

-- Arguments are put into a body in which the calls of all macros are expanded already.
theorem within_substitution {params : List String} (ha : Expr.MadeOfAll m calls args) :
    (substitution params args).Within m calls calls where
  param hn := yields_argument ha hn
  allow _ := trivial
  call hc hn ha := ⟨hc, hn, ha⟩

section Expr

variable {macros : Std.TreeMap String ExprMacro} {call : Name → List Expr → Except Diagnostic Expr}

theorem within_expansion (hc : ∀ {n args}, n.MarkedIn m → Expr.MadeOfAll m after args →
    Yields (·.MadeOf m after) m.Blames (call n args)) :
    (expansion macros call).Within m calls after where
  param hn := hn
  allow hn := (yields_find hn).bind fun _ _ => trivial
  call _ := hc

theorem yields_expandCall (hm : ∀ {n : String} {a : ExprMacro}, macros[n]? = some a →
    a.body.MadeOf m .any) (hn : name.MarkedIn m) (ha : Expr.MadeOfAll m .none args) :
    Yields (·.MadeOf m .none) m.Blames (expandCall macros depth active name args) := by
  induction depth generalizing active name args
  case zero => exact yields_recursive hn
  case succ depth hi =>
    refine (yields_find hn).bind fun a hf => ?_
    split
    case isTrue => exact yields_recursive hn
    case isFalse =>
      have hw : (expansion macros (expandCall macros depth (name.text :: active))).Within m .any
          .none := within_expansion hi
      exact ((hm hf).substitute hw).bind fun _ hb => hb.substitute (within_substitution ha)

end Expr

section Stmt

variable {macros : Std.TreeMap String BlockMacro}

theorem within_spliceCall (hm : ∀ {n : String} {a : BlockMacro}, macros[n]? = some a →
    Stmt.MadeOfBody m .any a.body) : Splice.Within m (spliceCall macros depth active) := by
  intro name args hn ha
  induction depth generalizing active name args
  case zero => exact yields_recursive hn
  case succ depth hi =>
    refine (yields_find hn).bind fun a hf => ?_
    split
    case isTrue => exact yields_recursive hn
    case isFalse =>
      refine ((hm hf).splice hi).bind fun _ hb => ?_
      exact hb.substitute (within_substitution (ha.mono any_inExprs)) id

end Stmt

end Macro

-- What a declaration runs is made of some tokens, and so is what it is named by.
def Decl.RunsOn (m : Material) (calls : CallKinds) : Decl → Prop
  | .function n _ body _ => m.token n.identifier ∧ Stmt.MadeOfBody m calls body
  | .event s kind body => m.Starts s ∧ kind.MadeOf m calls ∧ Stmt.MadeOfBody m calls body
  | _ => True

namespace SpriteTree

variable {d : Decl} {s : Symbols} {tree : SpriteTree}

theorem yields_expandBlocks {macros : Std.TreeMap String BlockMacro}
    (hm : ∀ {n : String} {a : BlockMacro}, macros[n]? = some a → Stmt.MadeOfBody m .any a.body)
    (hd : d.MadeOf m .any) : Yields (·.RunsOn m .inExprs) m.Blames (expandBlocks macros d) := by
  have hc : Splice.Within m (Macro.spliceCall macros (macros.size + 1) []) :=
    Macro.within_spliceCall hm
  cases d
  case function =>
    have ⟨hn, _, hb⟩ := hd
    exact (hb.splice hc).bind fun _ hb => .pure ⟨hn, hb⟩
  case event =>
    have ⟨hs, he, hb⟩ := hd
    exact (hb.splice hc).bind fun _ hb => .pure ⟨hs, he.mono any_inExprs, hb⟩
  all_goals exact trivial

theorem yields_expandExprs {macros : Std.TreeMap String ExprMacro}
    (hm : ∀ {n : String} {a : ExprMacro}, macros[n]? = some a → a.body.MadeOf m .any)
    (hd : d.RunsOn m .inExprs) : Yields (·.RunsOn m .none) m.Blames (expandExprs macros d) := by
  have hr : (Macro.expansion macros (Macro.expandCall macros (macros.size + 1) [])).Within m
      .inExprs .none := Macro.within_expansion (Macro.yields_expandCall hm)
  have hb : CallKinds.inExprs .block → CallKinds.none .block := nofun
  cases d
  case function =>
    have ⟨hn, h⟩ := hd
    exact (h.substitute hr hb).bind fun _ h => .pure ⟨hn, h⟩
  case event =>
    have ⟨hs, he, h⟩ := hd
    exact (he.substitute hr).bind fun _ he => (h.substitute hr hb).bind fun _ h => .pure ⟨hs, he, h⟩
  all_goals exact trivial

-- All macros are those of a tree of the material, which is the tree that they are expanded in.
theorem yields_expandMacros (hm : s.MacrosOf tree) (ht : ∀ d ∈ tree, d.MadeOf m .any) :
    Yields (fun tree' : SpriteTree => ∀ d ∈ tree', d.RunsOn m .none) m.Blames
      (expandMacros s tree) := by
  have hb : ∀ {n : String} {a : BlockMacro}, s.blockMacros[n]? = some a →
      Stmt.MadeOfBody m .any a.body := fun ha =>
    have ⟨_, _, hd⟩ := hm.blocks ha
    (ht _ hd).2.2
  have he : ∀ {n : String} {a : ExprMacro}, s.exprMacros[n]? = some a → a.body.MadeOf m .any :=
    fun ha =>
      have ⟨_, _, hd⟩ := hm.exprs ha
      (ht _ hd).2.2
  have hs : Yields (fun tree' : SpriteTree => ∀ d ∈ tree', d.RunsOn m .inExprs) m.Blames
      (expandBlockMacros s.blockMacros tree) :=
    .mapM fun d hd => yields_expandBlocks hb (ht d hd)
  exact hs.bind fun _ hs => .mapM fun d hd => yields_expandExprs he (hs d hd)

end SpriteTree

end BlockLang
