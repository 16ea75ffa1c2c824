import BlockLang.Files.Memory
import BlockLang.Tree.Parser.Decl
import BlockLang.Proofs.Macro.Mention
import BlockLang.Proofs.Symbols.Collect

/-!
A sprite declares the same names before and after its block macros are expanded.
-/

namespace BlockLang

variable {macros : Std.TreeMap String BlockMacro} {source : FileSource} {root : Path}
  {globals : Globals} {tree tree' : SpriteTree} {s t : Symbols} {c : Collection} {d d' : Decl}

open SpriteTree

namespace Symbols

-- Only the bodies of functions and of events are expanded, and macros are neither.
theorem addMacro_expandBlocks (h : expandBlocks macros d = .ok d') :
    s.addMacro d' = s.addMacro d := by
  obtain ⟨_, _, rfl⟩ := expandBlocks_eq_ok h
  cases d <;> rfl

-- A function is declared by its head and by what its body mentions.
theorem addFunction_congr {name : Name} {params : List Name} {body body' : List Stmt} {warp : Bool}
    (h : Mention.all s.blockMacros body' = Mention.all s.blockMacros body) :
    s.addFunction name params body' warp = s.addFunction name params body warp := by
  simp only [addFunction, h]

end Symbols

theorem Collection.declare_expandBlocks (h : expandBlocks c.symbols.blockMacros d = .ok d') :
    declare source root c d' = declare source root c d := by
  obtain ⟨body, hs, rfl⟩ := expandBlocks_eq_ok h
  have hm : Mention.all c.symbols.blockMacros body = Mention.all c.symbols.blockMacros d.body :=
    Mention.ofBody_spliced hs
  cases d
  case function =>
    simp only [Decl.body] at hm
    simp only [Decl.withBody, declare, Symbols.addFunction_congr hm]
  case event =>
    simp only [Decl.body] at hm
    simp only [Decl.withBody, declare, update, hm]
  all_goals rfl

namespace Symbols

-- The macros that are expanded are those of the first round, which the second one does not change.
theorem ofTree_expandBlockMacros (h : ofTree source root globals tree = .ok s)
    (he : expandBlockMacros s.blockMacros tree = .ok tree') :
    ofTree source root globals tree' = .ok s := by
  simp only [ofTree, bind_eq_ok, pure_eq_ok] at h ⊢
  obtain ⟨m, hm, c, hc, hs⟩ := h
  have hb : s.blockMacros = m.blockMacros := hs ▸ foldlM_induction
    (P := fun c => c.symbols.blockMacros = m.blockMacros)
    (fun _ _ _ _ hd hb => (Collection.declare_extends hd).blockMacros.trans hb) hc rfl
  have he : List.Forall₂ (fun d d' => expandBlocks m.blockMacros d = .ok d') tree tree' :=
    forall₂_of_mapM (hb ▸ he)
  refine ⟨m, ?macros, c, ?names, hs⟩
  case macros =>
    refine foldlM_eq_of_forall₂ (P := fun _ => True) he (fun _ hd hs => ?_) hm trivial
    exact ⟨(addMacro_expandBlocks hd).trans hs, trivial⟩
  case names =>
    refine foldlM_eq_of_forall₂ (P := fun c => c.symbols.blockMacros = m.blockMacros) he
      (fun hb hd ht => ?_) hc rfl
    exact ⟨(Collection.declare_expandBlocks (hb ▸ hd)).trans ht,
      (Collection.declare_extends ht).blockMacros.trans hb⟩

end Symbols

-- All macros have a parameter of one name. One of them declares a local variable, a variable and a
-- list, and another one calls it twice from within a branch.
def SpriteTree.nestedMacros : String :=
  "macro INC x -> x! + 1;\n" ++
  "macro STEP x \x7b local k = INC!(x!); n = k; until k > 9 \x7b xs = [x!]; \x7d \x7d\n" ++
  "macro TWICE x \x7b STEP!(x!); STEP!(INC!(x!)); \x7d\n" ++
  "def f a \x7b if $a \x7b TWICE!(INC!($a)); \x7d m = 1; \x7d\n"

namespace Symbols

theorem ofTree_expandBlockMacros_nestedMacros : ∃ tree s tree',
    SpriteTree.ofSource nestedMacros = .ok tree ∧
      ofTree MemoryTree.empty.source ⟨"p"⟩ .none tree = .ok s ∧
      expandBlockMacros s.blockMacros tree = .ok tree' ∧
      tree'.getLast?.map Decl.names =
        some ["f", "k", "n", "k", "k", "xs", "k", "n", "k", "k", "xs", "m"] ∧
      ofTree MemoryTree.empty.source ⟨"p"⟩ .none tree' = .ok s ∧
      s.vars.keys = ["f:k", "m", "n"] ∧ s.lists.keys = ["xs"] := by
  have h : (do
      let tree ← SpriteTree.ofSource nestedMacros
      let s ← ofTree MemoryTree.empty.source ⟨"p"⟩ .none tree
      let tree' ← expandBlockMacros s.blockMacros tree
      return (tree'.getLast?.map Decl.names, s.vars.keys, s.lists.keys)) =
      .ok (some ["f", "k", "n", "k", "k", "xs", "k", "n", "k", "k", "xs", "m"],
        ["f:k", "m", "n"], ["xs"]) := by
    decide +kernel
  simp only [bind_eq_ok, pure_eq_ok, Prod.mk.injEq] at h
  obtain ⟨tree, ht, s, hs, tree', he, hn, hv, hl⟩ := h
  exact ⟨tree, s, tree', ht, hs, he, hn, ofTree_expandBlockMacros hs he, hv, hl⟩

end Symbols

end BlockLang
