import BlockLang.Macro.Expand
import BlockLang.Proofs.Lookup
import BlockLang.Proofs.Tree.Names

/-!
Declarations keep their heads when the macros in their bodies are expanded, and no names come in
other than those of the macros.
-/

namespace BlockLang

namespace Macro

variable {P : String → Prop} {params : List String} {args : List Expr} {active : List String}
  {name : Name}

theorem getElem?_of_find {β : Type} {macros : Std.TreeMap String (Macro β)} {kind : MacroKind}
    {given : Nat} {m : Macro β} (h : find macros kind name given = .ok m) :
    macros[name.text]? = some m := by
  unfold find at h
  split at h
  case h_1 => contradiction
  case h_2 m' hm =>
    obtain ⟨_, _, he⟩ := bind_eq_ok.mp h
    exact pure_eq_ok.mp he ▸ hm

theorem keeps_substitution (h : ∀ x ∈ Expr.namesAll args, P x) :
    (substitution params args).Keeps P where
  param {n e} he := by
    change argument params args n = .ok e at he
    unfold argument at he
    split at he
    case h_1 e' hl =>
      obtain rfl := Except.ok.inj he
      have hm := (List.of_mem_zip (mem_of_lookup_eq_some hl)).2
      exact fun x hx => h x (Expr.mem_namesAll.mpr ⟨_, hm, hx⟩)
    case h_2 => contradiction
  call he ha := Except.ok.inj he ▸ ha

section Expr

variable {macros : Std.TreeMap String ExprMacro} {call : Name → List Expr → Except Diagnostic Expr}

theorem keeps_expansion (h : ∀ {n args e}, call n args = .ok e → (∀ x ∈ Expr.namesAll args, P x) →
    ∀ x ∈ e.names, P x) : (expansion macros call).Keeps P where
  param he := Except.ok.inj he ▸ nofun
  call := h

-- The names of an expanded call are those of its arguments and those of macros.
theorem names_expandCall (hm : ∀ {n : String} {m : ExprMacro}, macros[n]? = some m →
    ∀ x ∈ m.body.names, P x) {depth : Nat} {e : Expr}
    (he : expandCall macros depth active name args = .ok e)
    (ha : ∀ x ∈ Expr.namesAll args, P x) : ∀ x ∈ e.names, P x := by
  induction depth generalizing active name args e
  case zero => contradiction
  case succ depth hi =>
    obtain ⟨m, hf, he⟩ := bind_eq_ok.mp he
    split at he
    · contradiction
    obtain ⟨body, hb, he⟩ := bind_eq_ok.mp he
    have hb := Expr.names_substitute (keeps_expansion hi) hb (hm (getElem?_of_find hf))
    exact Expr.names_substitute (keeps_substitution ha) he hb

end Expr

section Stmt

variable {macros : Std.TreeMap String BlockMacro}

-- The names of a spliced call are those of its arguments and those of macros.
theorem keeps_spliceCall (hm : ∀ {n : String} {m : BlockMacro}, macros[n]? = some m →
    ∀ x ∈ Stmt.namesAll m.body, P x) {depth : Nat} :
    Splice.Keeps P (spliceCall macros depth active) := by
  intro name args ss hs ha
  induction depth generalizing active name args ss
  case zero => contradiction
  case succ depth hi =>
    obtain ⟨m, hf, hs⟩ := bind_eq_ok.mp hs
    split at hs
    · contradiction
    obtain ⟨body, hb, hs⟩ := bind_eq_ok.mp hs
    have hb := Stmt.names_spliceBody (fun hs ha => hi hs ha) hb (hm (getElem?_of_find hf))
    exact Stmt.names_substituteBody (keeps_substitution ha) hs hb

end Stmt

end Macro

-- The statements that a declaration runs.
def Decl.body : Decl → List Stmt
  | .function _ _ body _ | .event _ _ body => body
  | _ => []

-- A declaration that runs other statements, if it runs any.
def Decl.withBody : Decl → List Stmt → Decl
  | .function name params _ warp, body => .function name params body warp
  | .event span kind _, body => .event span kind body
  | d, _ => d

theorem Decl.withBody_body (d : Decl) : d.withBody d.body = d := by
  cases d <;> rfl

namespace SpriteTree

variable {s : Symbols} {tree tree' : SpriteTree} {name : Name} {params : List Name}
  {body body' : List Stmt} {warp : Bool} {span : Span} {event event' : Event}

-- What takes the place of calls of expression macros.
def expansion (s : Symbols) : Substitution :=
  Macro.expansion s.exprMacros (Macro.expandCall s.exprMacros (s.exprMacros.size + 1) [])

-- What a body comes to when first its block macros and then its expression macros are expanded.
def Expands (s : Symbols) (body body' : List Stmt) : Prop :=
  ∃ spliced,
    Stmt.spliceBody (Macro.spliceCall s.blockMacros (s.blockMacros.size + 1) []) body =
      .ok spliced ∧
    Stmt.substituteBody (expansion s) spliced = .ok body'

section Expands

variable {P : String → Prop}

theorem keeps_expansion (hm : ∀ {n : String} {m : ExprMacro}, s.exprMacros[n]? = some m →
    ∀ x ∈ m.body.names, P x) : (expansion s).Keeps P :=
  Macro.keeps_expansion (Macro.names_expandCall hm)

theorem Expands.names (h : Expands s body body') (he : (expansion s).Keeps P)
    (hb : ∀ {n : String} {m : BlockMacro}, s.blockMacros[n]? = some m →
      ∀ x ∈ Stmt.namesAll m.body, P x)
    (hn : ∀ x ∈ Stmt.namesAll body, P x) : ∀ x ∈ Stmt.namesAll body', P x := by
  have ⟨_, hs, hs'⟩ := h
  have hs := Stmt.names_spliceBody (Macro.keeps_spliceCall hb) hs hn
  exact Stmt.names_substituteBody he hs' hs

end Expands

-- Block macros are expanded in what a declaration runs, and nowhere else.
theorem expandBlocks_eq_ok {macros : Std.TreeMap String BlockMacro} {d d' : Decl}
    (h : expandBlocks macros d = .ok d') :
    ∃ body, Stmt.spliceBody (Macro.spliceCall macros (macros.size + 1) []) d.body = .ok body ∧
      d.withBody body = d' := by
  cases d
  case function | event =>
    obtain ⟨body, hs, h⟩ := bind_eq_ok.mp h
    exact ⟨body, hs, pure_eq_ok.mp h⟩
  all_goals exact ⟨[], rfl, Except.ok.inj h⟩

-- A declaration of an expanded sprite is one of the sprite, with its block macros expanded first.
theorem mem_of_expandMacros (h : expandMacros s tree = .ok tree') {d' : Decl} (hd : d' ∈ tree') :
    ∃ d ∈ tree, ∃ spliced, expandBlocks s.blockMacros d = .ok spliced ∧
      expandExprs s.exprMacros spliced = .ok d' := by
  have ⟨_, hs, he⟩ := bind_eq_ok.mp h
  have ⟨spliced, hd₁, he⟩ := mem_of_mapM he hd
  have ⟨d, hd, hs⟩ := mem_of_mapM hs hd₁
  exact ⟨d, hd, spliced, hs, he⟩

theorem function_of_expandMacros (h : expandMacros s tree = .ok tree')
    (hd : .function name params body' warp ∈ tree') :
    ∃ body, .function name params body warp ∈ tree ∧ Expands s body body' := by
  obtain ⟨d, hd', spliced, hs, he⟩ := mem_of_expandMacros h hd
  cases spliced <;> simp only [expandExprs, bind_eq_ok, pure_eq_ok, Decl.function.injEq,
    reduceCtorEq, and_false, exists_false, Except.ok.injEq] at he
  obtain ⟨_, he, rfl, rfl, rfl, rfl⟩ := he
  cases d <;> simp only [expandBlocks, bind_eq_ok, pure_eq_ok, Decl.function.injEq, reduceCtorEq,
    and_false, exists_false, Except.ok.injEq] at hs
  obtain ⟨_, hs, rfl, rfl, rfl, rfl⟩ := hs
  exact ⟨_, hd', _, hs, he⟩

theorem event_of_expandMacros (h : expandMacros s tree = .ok tree')
    (hd : .event span event' body' ∈ tree') :
    ∃ event body, .event span event body ∈ tree ∧ event.substitute (expansion s) = .ok event' ∧
      Expands s body body' := by
  obtain ⟨d, hd', spliced, hs, he⟩ := mem_of_expandMacros h hd
  cases spliced <;> simp only [expandExprs, bind_eq_ok, pure_eq_ok, Decl.event.injEq,
    reduceCtorEq, and_false, exists_false, Except.ok.injEq] at he
  obtain ⟨_, hev, _, he, rfl, rfl, rfl⟩ := he
  cases d <;> simp only [expandBlocks, bind_eq_ok, pure_eq_ok, Decl.event.injEq, reduceCtorEq,
    and_false, exists_false, Except.ok.injEq] at hs
  obtain ⟨_, hs, rfl, rfl, rfl⟩ := hs
  exact ⟨_, _, hd', hev, _, hs, he⟩

end SpriteTree

end BlockLang
