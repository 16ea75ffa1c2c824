import BlockLang.Proofs.Macro.Becomes
import BlockLang.Proofs.Macro.Spliced
import BlockLang.Proofs.Symbols.Expand

/-!
Expanding macros gives what they mean, although bodies and arguments are expanded before they are
put together.
-/

namespace BlockLang

section Exprs

variable {r : Substitution} {f : Expr → Expr}

-- The expressions of a body settle one by one.
theorem Stmt.settles_substituteBody (hr : ∀ {e w : Expr}, e.substitute r = .ok w → Settles f e w)
    {ss ss' : List Stmt} (h : substituteBody r ss = .ok ss') : Settles (mapBody f) ss ss' := by
  obtain ⟨hs, he⟩ := succeeds_of_substituteBody h
  have ⟨n, hn⟩ := Settles.all fun e he => hr (hs e he)
  exact ⟨n, fun m hm => by rw [iterate_mapBody, mapBody_congr (hn m hm), he]⟩

theorem Stmt.calls_substituteBody (hr : ∀ {e w : Expr}, e.substitute r = .ok w → w.calls = [])
    {ss ss' : List Stmt} (h : substituteBody r ss = .ok ss') :
    ∀ e ∈ exprsAll ss', e.calls = [] := by
  obtain ⟨hs, he⟩ := succeeds_of_substituteBody h
  rw [← he, exprs_mapBody, List.forall_mem_map]
  exact fun e he => hr (hs e he)

theorem Event.settles_substitute (hr : ∀ {e w : Expr}, e.substitute r = .ok w → Settles f e w)
    {event event' : Event} (h : event.substitute r = .ok event') :
    Settles (mapExprs f) event event' := by
  cases event
  case loudness e =>
    simp only [substitute, bind_eq_ok, pure_eq_ok] at h
    obtain ⟨_, he, h⟩ := h
    exact h ▸ (hr he).map (k := Event.loudness) fun _ => rfl
  case timer e =>
    simp only [substitute, bind_eq_ok, pure_eq_ok] at h
    obtain ⟨_, he, h⟩ := h
    exact h ▸ (hr he).map (k := Event.timer) fun _ => rfl
  all_goals exact Except.ok.inj h ▸ .of_fixed rfl

theorem Event.calls_substitute (hr : ∀ {e w : Expr}, e.substitute r = .ok w → w.calls = [])
    {event event' : Event} (h : event.substitute r = .ok event') :
    ∀ e ∈ event'.exprs, e.calls = [] := by
  cases event
  case loudness | timer =>
    simp only [substitute, bind_eq_ok, pure_eq_ok] at h
    obtain ⟨_, he, h⟩ := h
    exact h ▸ List.forall_mem_singleton.mpr (hr he)
  all_goals exact Except.ok.inj h ▸ List.forall_mem_nil _

end Exprs

namespace SpriteTree

variable {s : Symbols} {tree tree' : SpriteTree} {d d' : Decl}
  {blockMacros : Std.TreeMap String BlockMacro} {exprMacros : Std.TreeMap String ExprMacro}

theorem settles_expandBlocks (h : expandBlocks blockMacros d = .ok d') :
    Settles (Decl.unfoldBlocks blockMacros) d d' := by
  obtain ⟨body, hs, hd⟩ := expandBlocks_eq_ok h
  have hk : Function.Semiconj d.withBody (Stmt.unfoldBody blockMacros)
      (Decl.unfoldBlocks blockMacros) := fun _ => by cases d <;> rfl
  have h : Settles (Decl.unfoldBlocks blockMacros) (d.withBody d.body) (d.withBody body) :=
    (Stmt.settles_spliced hs).map hk
  rwa [Decl.withBody_body, hd] at h

theorem calls_expandBlocks (h : expandBlocks blockMacros d = .ok d') :
    Stmt.callsAll d'.body = [] := by
  obtain ⟨body, hs, rfl⟩ := expandBlocks_eq_ok h
  cases d
  case function | event => exact Stmt.calls_spliceBody Macro.unfolds_spliceCall hs
  all_goals rfl

theorem settles_expandExprs (h : expandExprs exprMacros d = .ok d') :
    Settles (Decl.unfoldExprs exprMacros) d d' := by
  cases d
  case function n params body warp =>
    simp only [expandExprs, bind_eq_ok, pure_eq_ok] at h
    obtain ⟨_, hs, h⟩ := h
    have hs := Stmt.settles_substituteBody Expr.settles_expanded hs
    exact h ▸ hs.map (k := fun body => Decl.function n params body warp) fun _ => rfl
  case event span event body =>
    simp only [expandExprs, bind_eq_ok, pure_eq_ok] at h
    obtain ⟨_, he, _, hs, h⟩ := h
    have he := Event.settles_substitute Expr.settles_expanded he
    have hs := Stmt.settles_substituteBody Expr.settles_expanded hs
    exact h ▸ (he.prod hs).map (k := fun p => Decl.event span p.1 p.2) fun _ => rfl
  all_goals exact Except.ok.inj h ▸ .of_fixed rfl

theorem calls_expandExprs (h : expandExprs exprMacros d = .ok d') :
    ∀ e ∈ d'.exprs, e.calls = [] := by
  cases d
  case function =>
    simp only [expandExprs, bind_eq_ok, pure_eq_ok] at h
    obtain ⟨_, hs, h⟩ := h
    exact h ▸ Stmt.calls_substituteBody Expr.calls_expanded hs
  case event =>
    simp only [expandExprs, bind_eq_ok, pure_eq_ok] at h
    obtain ⟨_, he, _, hs, h⟩ := h
    exact h ▸ List.forall_mem_append.mpr ⟨Event.calls_substitute Expr.calls_expanded he,
      Stmt.calls_substituteBody Expr.calls_expanded hs⟩
  all_goals exact Except.ok.inj h ▸ List.forall_mem_nil _

theorem ends_expandBlockMacros (h : expandBlockMacros blockMacros tree = .ok tree') :
    Ends (List.map (Decl.unfoldBlocks blockMacros)) HasNoBlockCalls tree tree' := by
  have h := forall₂_of_mapM h
  refine .of_settles (.list (h.imp fun _ _ => settles_expandBlocks)) fun d' hd => ?_
  have ⟨_, _, hd⟩ := mem_of_forall₂ h hd
  exact calls_expandBlocks hd

theorem ends_expandExprMacros (h : expandExprMacros exprMacros tree = .ok tree') :
    Ends (List.map (Decl.unfoldExprs exprMacros)) HasNoExprCalls tree tree' := by
  have h := forall₂_of_mapM h
  refine .of_settles (.list (h.imp fun _ _ => settles_expandExprs)) fun d' hd => ?_
  have ⟨_, _, hd⟩ := mem_of_forall₂ h hd
  exact calls_expandExprs hd

-- What is left once all calls are gone does not depend on how often calls were unfolded.
theorem Means.unique {t t' : SpriteTree} (h : Means s tree t) (h' : Means s tree t') : t = t' := by
  have ⟨_, hb, he⟩ := h
  have ⟨_, hb', he'⟩ := h'
  obtain rfl := hb.unique (fun hd =>
    (List.map_congr_left fun d h => Decl.unfoldBlocks_eq_self (hd d h)).trans (List.map_id' _)) hb'
  exact he.unique (fun hd =>
    (List.map_congr_left fun d h => Decl.unfoldExprs_eq_self (hd d h)).trans (List.map_id' _)) he'

theorem expandMacros_means (h : expandMacros s tree = .ok tree') (t : SpriteTree) :
    Means s tree t ↔ t = tree' := by
  have ⟨_, hb, he⟩ := bind_eq_ok.mp h
  have hm : Means s tree tree' := ⟨_, ends_expandBlockMacros hb, ends_expandExprMacros he⟩
  exact ⟨fun ht => ht.unique hm, fun ht => ht ▸ hm⟩

theorem expandMacros_means_nestedMacros : ∃ tree s tree',
    SpriteTree.ofSource nestedMacros = .ok tree ∧
      Symbols.ofTree MemoryTree.empty.source ⟨"p"⟩ .none tree = .ok s ∧
      expandMacros s tree = .ok tree' ∧
      tree.getLast?.map (fun d => Stmt.callsAll d.body) = some ["TWICE"] ∧
      (∀ t, Means s tree t ↔ t = tree') ∧
      tree'.getLast?.map Decl.names =
        some ["f", "k", "n", "k", "k", "xs", "k", "n", "k", "k", "xs", "m"] := by
  have h : (do
      let tree ← SpriteTree.ofSource nestedMacros
      let s ← Symbols.ofTree MemoryTree.empty.source ⟨"p"⟩ .none tree
      let tree' ← expandMacros s tree
      return (tree.getLast?.map fun d => Stmt.callsAll (Decl.body d),
        tree'.getLast?.map Decl.names)) =
      .ok (some ["TWICE"],
        some ["f", "k", "n", "k", "k", "xs", "k", "n", "k", "k", "xs", "m"]) := by
    decide +kernel
  simp only [bind_eq_ok, pure_eq_ok, Prod.mk.injEq] at h
  obtain ⟨tree, ht, s, hs, tree', he, hc, hn⟩ := h
  exact ⟨tree, s, tree', ht, hs, he, hc, expandMacros_means he, hn⟩

end SpriteTree

end BlockLang