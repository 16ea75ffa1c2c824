import Mathlib.Data.List.Infix
import Mathlib.Data.List.TakeWhile
import BlockLang.Symbols.Basic
import BlockLang.Token.Lexer
import BlockLang.Proofs.Macro.Expand
import BlockLang.Proofs.Symbols.Collect

/-!
The functions that a sprite has: those that are always there, and those that its tree declares. No
two of them have the same name, and so no two have the same code. A code has a place for each
parameter.
-/

namespace BlockLang

section Declared

-- The function that a declaration declares, but for its local variables.
def Decl.function? : Decl → Option Function
  | .function name params _ warp => some ⟨name, warp, params, [], none⟩
  | _ => none

-- The functions that a tree declares, in order.
def SpriteTree.functions (tree : SpriteTree) : List Function :=
  tree.filterMap Decl.function?

variable {source : FileSource} {root : Path} {globals : Globals} {tree : SpriteTree}
  {s t : Symbols} {c c' : Collection} {d : Decl} {f : Function} {n : String} {name : Name}
  {params : List Name} {body : List Stmt} {warp : Bool}

theorem SpriteTree.functions_cons :
    functions (d :: tree) = d.function?.toList ++ functions tree := by
  rw [functions, List.filterMap_cons]
  cases d.function? <;> rfl

open SpriteTree

namespace Symbols

-- All functions are always there or are declared in the tree.
def FunctionsOf (tree : SpriteTree) (s : Symbols) : Prop :=
  ∀ (n : String) (f : Function), s.functions[n]? = some f →
    f ∈ Function.allPredefined ∨ { f with locals := [] } ∈ tree.functions

theorem functionsOf_initial : (initial globals).FunctionsOf tree :=
  fun _ _ h => .inl (of_getElem?_table (fun f : Function => f.name.text) h).1

theorem FunctionsOf.declare (hs : c.symbols.FunctionsOf tree) (hd : d ∈ tree)
    (h : Collection.declare source root c d = .ok c') : c'.symbols.FunctionsOf tree := by
  cases Collection.declare_cases h
  case inl h =>
    have ⟨name, params, body, warp, he, ha⟩ := h
    intro n f hf
    rw [ha.functions, Std.TreeMap.getElem?_insert] at hf
    split at hf
    case isTrue =>
      obtain rfl := Option.some.inj hf
      exact .inr (List.mem_filterMap.mpr ⟨d, hd, he ▸ rfl⟩)
    case isFalse => exact hs n f hf
  case inr h =>
    intro n f hf
    exact hs n f (h.2 ▸ hf)

theorem ofTree_functionsOf (h : ofTree source root globals tree = .ok s) : s.FunctionsOf tree := by
  simp only [ofTree, bind_eq_ok, pure_eq_ok] at h
  obtain ⟨m, hm, c, hc, he⟩ := h
  have hm : m.FunctionsOf tree := by
    refine foldlM_induction (fun d _ t t' ht hs n f hf => ?_) hm functionsOf_initial
    exact hs n f ((addMacro_keeps ht).2.1 ▸ hf)
  exact he ▸ foldlM_induction (P := fun c : Collection => c.symbols.FunctionsOf tree)
    (fun _ hd _ _ h hs => hs.declare hd h) hc hm

-- A function is declared only if its name is not that of a function yet.
theorem getElem?_of_addFunction (h : s.addFunction name params body warp = .ok t) :
    s.functions[name.text]? = none := by
  unfold addFunction at h
  split at h
  case isTrue => contradiction
  case isFalse hc =>
    rw [Std.TreeMap.contains_eq_isSome_getElem?] at hc
    simpa using hc

end Symbols

theorem Collection.declare_function (h : declare source root c d = .ok c')
    (hf : d.function? = some f) : c.symbols.functions[f.name.text]? = none ∧
      ∃ locals, c'.symbols.functions[f.name.text]? = some { f with locals } := by
  cases d
  case function name params body warp =>
    obtain rfl := Option.some.inj hf
    simp only [declare, bind_eq_ok, pure_eq_ok] at h
    obtain ⟨t, ha, h⟩ := h
    have ht : t.functions[name.text]? = _ :=
      (Symbols.adds_of_addFunction ha).functions ▸ Std.TreeMap.getElem?_insert_self
    subst h
    exact ⟨Symbols.getElem?_of_addFunction ha, _, ht⟩
  all_goals cases hf

-- No two functions have the same name, and none has that of a function that was there before.
theorem Collection.nodup_functions (h : tree.foldlM (declare source root) c = .ok c') :
    (tree.functions.map (·.name.text)).Nodup ∧
      ∀ f ∈ tree.functions, c.symbols.functions[f.name.text]? = none := by
  induction tree generalizing c
  case nil => simp [SpriteTree.functions]
  case cons d ds hi =>
    rw [List.foldlM_cons] at h
    have ⟨t, hd, h⟩ := bind_eq_ok.mp h
    have ⟨hn, hs⟩ := hi h
    have hs' : ∀ f ∈ functions ds, c.symbols.functions[f.name.text]? = none := by
      intro f hf
      by_contra hc
      have ⟨g, hg⟩ := Option.ne_none_iff_exists'.mp hc
      exact absurd ((declare_extends hd).functions hg) (by simp [hs f hf])
    rw [functions_cons]
    cases hf : d.function?
    case none => exact ⟨hn, hs'⟩
    case some f =>
      have ⟨hc, locals, ht⟩ := declare_function hd hf
      refine ⟨List.nodup_cons.mpr ⟨fun hm => ?_, hn⟩, List.forall_mem_cons.mpr ⟨hc, hs'⟩⟩
      have ⟨g, hg, he⟩ := List.mem_map.mp hm
      simpa [he, ht] using hs g hg

theorem Symbols.nodup_functions (h : ofTree source root globals tree = .ok s) :
    (tree.functions.map (·.name.text)).Nodup := by
  have ⟨_, _, _, _, _, hc, _⟩ := ofTree_rounds h
  exact (Collection.nodup_functions hc).1

-- The functions of a tree are found with all that is told about them.
theorem Symbols.getElem?_functions (h : ofTree source root globals tree = .ok s)
    (hf : f ∈ tree.functions) : (f.params.map (·.text)).Nodup ∧
      ∃ locals, s.functions[f.name.text]? = some { f with locals } := by
  have ⟨d, hd, hf⟩ := List.mem_filterMap.mp hf
  cases d
  case function name params body warp =>
    obtain rfl := Option.some.inj hf
    have ⟨hp, hs⟩ := ofTree_function h hd
    exact ⟨hp, _, hs⟩
  all_goals nomatch hf

-- Functions keep their heads when macros are expanded.
theorem SpriteTree.functions_expandMacros {tree' : SpriteTree}
    (h : expandMacros s tree = .ok tree') : tree'.functions = tree.functions := by
  have ⟨spliced, hs, he⟩ := bind_eq_ok.mp h
  have hs : spliced.functions = tree.functions := filterMap_of_mapM hs fun {d d'} hd => by
    obtain ⟨_, _, rfl⟩ := expandBlocks_eq_ok hd
    cases d <;> rfl
  have he : tree'.functions = spliced.functions := filterMap_of_mapM he fun {d d'} hd => by
    cases d
    case function =>
      simp only [expandExprs, bind_eq_ok, pure_eq_ok] at hd
      obtain ⟨_, _, hd⟩ := hd
      exact hd ▸ rfl
    case event =>
      simp only [expandExprs, bind_eq_ok, pure_eq_ok] at hd
      obtain ⟨_, _, _, _, hd⟩ := hd
      exact hd ▸ rfl
    all_goals exact Except.ok.inj hd ▸ rfl
  rw [he, hs]

end Declared

section Code

namespace Function

-- The number of places for arguments in a code, each of which is written ` %s`.
def places (code : String) : Nat :=
  code.toList.tails.countP [' ', '%', 's'].isPrefixOf

-- A function whose code is made from its name, which is a word.
structure Spelled (f : Function) : Prop where
  word : ∀ c ∈ f.name.text.toList, Scan.isWordChar c
  code : f.fixedCode = none

variable {f g : Function} {n : Nat} {cs ds : List Char}

theorem toList_placeholders_succ :
    (placeholders (n + 1)).toList = ' ' :: '%' :: 's' :: (placeholders n).toList := by
  simp [placeholders, List.replicate_succ]

theorem Spelled.toList_code (hf : f.Spelled) :
    f.code.toList = f.name.text.toList ++ (placeholders f.params.length).toList := by
  simp [Function.code, hf.code]

-- The name is the part of the code before the first blank.
theorem takeWhile_placeholders : (placeholders n).toList.takeWhile Scan.isWordChar = [] := by
  cases n
  case zero => rfl
  case succ n =>
    rw [toList_placeholders_succ, List.takeWhile_cons_of_neg (by decide)]

theorem Spelled.takeWhile_code (hf : f.Spelled) :
    f.code.toList.takeWhile Scan.isWordChar = f.name.text.toList := by
  rw [hf.toList_code, List.takeWhile_append_of_pos hf.word, takeWhile_placeholders,
    List.append_nil]

theorem Spelled.name_eq (hf : f.Spelled) (hg : g.Spelled) (h : f.code = g.code) :
    f.name.text = g.name.text := by
  apply String.toList_inj.mp
  rw [← hf.takeWhile_code, ← hg.takeWhile_code, h]

-- There is no place within a word.
theorem countP_tails_append (h : ∀ c ∈ cs, Scan.isWordChar c) :
    (cs ++ ds).tails.countP [' ', '%', 's'].isPrefixOf =
      ds.tails.countP [' ', '%', 's'].isPrefixOf := by
  induction cs
  case nil => rfl
  case cons c cs hi =>
    have ⟨hc, hcs⟩ := List.forall_mem_cons.mp h
    have hne : c ≠ ' ' := by
      rintro rfl
      exact absurd hc (by decide)
    rw [List.cons_append, List.tails_cons, List.countP_cons_of_neg, hi hcs]
    simpa using fun he => absurd he.symm hne

theorem countP_tails_placeholders :
    (placeholders n).toList.tails.countP [' ', '%', 's'].isPrefixOf = n := by
  induction n
  case zero => rfl
  case succ n hi =>
    simp [toList_placeholders_succ, hi]

theorem Spelled.places_code (hf : f.Spelled) : places f.code = f.params.length := by
  rw [places, hf.toList_code, countP_tails_append hf.word, countP_tails_placeholders]

-- The parameters of a function are told apart, and its code has a place for each.
structure Fits (f : Function) : Prop where
  distinct : (f.params.map (·.text)).Nodup
  places   : places f.code = f.params.length

theorem fits_of_predefined (hf : f ∈ allPredefined) : f.Fits := by
  have hd : ∀ f ∈ allPredefined, (f.params.map (·.text)).Nodup := by decide
  have hp : ∀ f ∈ allPredefined, places f.code = f.params.length := by decide
  exact ⟨hd f hf, hp f hf⟩

-- Only the codes of functions that are always there start with a mark.
theorem head?_placeholders : (placeholders n).toList.head? ≠ some '\u200b' := by
  cases n
  case zero => nofun
  case succ => simp [toList_placeholders_succ]

theorem Spelled.code_ne (hf : f.Spelled) (hg : g ∈ allPredefined) : f.code ≠ g.code := by
  intro h
  have hp : ∀ g ∈ allPredefined, g.code.toList.head? = some '\u200b' := by decide
  have hm := hp g hg
  rw [← h, hf.toList_code] at hm
  cases hn : f.name.text.toList
  case nil =>
    rw [hn, List.nil_append] at hm
    exact head?_placeholders hm
  case cons c cs =>
    have hc := hf.word c (by simp [hn])
    rw [hn, List.cons_append, List.head?_cons] at hm
    rw [Option.some.inj hm] at hc
    exact absurd hc (by decide)

theorem nodup_codes {fs : List Function} (hs : ∀ f ∈ fs, f.Spelled)
    (hn : (fs.map (·.name.text)).Nodup) : ((allPredefined ++ fs).map (·.code)).Nodup := by
  rw [List.map_append, List.nodup_append]
  refine ⟨by decide, ?_, ?_⟩
  · rw [List.Nodup, List.pairwise_map] at hn ⊢
    exact hn.imp_of_mem fun hf hg hne he => hne ((hs _ hf).name_eq (hs _ hg) he)
  · intro c hc c' hc' he
    have ⟨g, hg, hgc⟩ := List.mem_map.mp hc
    have ⟨f, hf, hfc⟩ := List.mem_map.mp hc'
    exact (hs f hf).code_ne hg (hfc.trans (he.symm.trans hgc.symm))

end Function

end Code

end BlockLang
