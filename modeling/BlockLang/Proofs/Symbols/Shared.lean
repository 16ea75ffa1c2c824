import BlockLang.Proofs.Symbols.Tables

/-!
The names that the stage shares with all sprites, and what it takes for a sprite to have a variable
or a list of its own with the name of a shared one.
-/

namespace BlockLang

variable {macros : Std.TreeMap String BlockMacro} {source : FileSource} {root : Path}
  {globals : Globals} {tree : SpriteTree} {d : Decl} {name : Name} {k : String}

namespace SpriteTree

-- Some variable of this name is declared, or stored into where the name is not that of a local one.
def NamesVar (macros : Std.TreeMap String BlockMacro) (tree : SpriteTree) (k : String) : Prop :=
  ∃ d ∈ tree, ∃ n : Name, .scalar n ∈ d.mentions macros ∧ n.text ∉ d.locals macros ∧ n.text = k

-- Some list of this name is declared without contents, or set.
def NamesList (macros : Std.TreeMap String BlockMacro) (tree : SpriteTree) (k : String) : Prop :=
  ∃ d ∈ tree, ∃ n : Name, .list n ∈ d.mentions macros ∧ n.text = k

-- Some list of this name is filled with the contents of a file.
def Fills (tree : SpriteTree) (k : String) : Prop :=
  ∃ d ∈ tree, ∃ n : Name, n ∈ d.filled? ∧ n.text = k

end SpriteTree

namespace Symbols

variable {s t : Symbols} {locals : List String} {mentions : List Mention} {a : Mention}

-- What a mention of a name comes to: it is shared as a name of its kind, or the sprite has it.
def Knows (s : Symbols) : Mention → Prop
  | .ownLocal _ => True
  | .scalar n => n.text ∈ s.globals.vars ∨ n.text ∈ s.vars ∨ n.text ∈ s.lists
  | .list n => n.text ∈ s.globals.lists ∨ n.text ∈ s.vars ∨ n.text ∈ s.lists

theorem Extends.knows (h : s.Extends t) (ha : s.Knows a) : t.Knows a := by
  cases a
  case ownLocal => trivial
  case scalar => exact ha.imp (h.globals ▸ id) (Or.imp h.vars h.lists)
  case list => exact ha.imp (h.globals ▸ id) (Or.imp h.vars h.lists)

theorem knows_addVariable (hl : name.text ∉ locals) :
    (s.addVariable locals name).Knows (.scalar name) := by
  unfold addVariable
  split
  case isTrue hc =>
    simp only [Bool.or_eq_true, List.contains_iff_mem, Std.TreeMap.contains_iff_mem] at hc
    simp only [Knows]
    tauto
  case isFalse => exact .inr (.inl (Std.TreeMap.mem_insert.mpr (.inl (by simp))))

theorem knows_addList : (s.addList name).Knows (.list name) := by
  unfold addList
  split
  case isTrue hc =>
    simp only [Bool.or_eq_true, List.contains_iff_mem, Std.TreeMap.contains_iff_mem] at hc
    simp only [Knows]
    tauto
  case isFalse => exact .inr (.inr (Std.TreeMap.mem_insert.mpr (.inl (by simp))))

-- All names that are mentioned are known from then on, but for variables where they are local.
theorem knows_addMentions (ha : a ∈ mentions) (hl : ∀ n, a = .scalar n → n.text ∉ locals) :
    (s.addMentions locals mentions).Knows a := by
  unfold addMentions
  induction mentions generalizing s
  case nil => contradiction
  case cons b bs hi =>
    cases List.mem_cons.mp ha
    case inr ha => exact hi ha
    case inl he =>
      subst he
      have hb : (Mention.declare locals s a).Extends
          ((Mention.declare locals s a).addMentions locals bs) := .addMentions
      refine hb.knows ?_
      cases a
      case ownLocal => trivial
      case scalar n => exact knows_addVariable (hl n rfl)
      case list => exact knows_addList

end Symbols

namespace Collection

variable {c c' : Collection} {a : Mention}

open Symbols

-- What is done for one of some names is done before the others or after them.
theorem exists_names {f : Name → Symbols → Symbols} {storage : Storage} {ns : List Name}
    (hf : ∀ n (s : Symbols), s.Extends (f n s)) (h : ns.foldlM (fun c n => do
      return (← note n storage c).update (f n)) c = .ok c') (hn : name ∈ ns) :
    ∃ s : Symbols, (f name s).Extends c'.symbols := by
  obtain ⟨t, _, _, ht, hk⟩ := foldlM_step (r := fun c c' => c.symbols.Extends c'.symbols)
    (fun c => .refl c.symbols) .trans (fun hs => symbols_noted hs ▸ hf _ _) h hn
  exact ⟨t.symbols, symbols_noted ht ▸ hk⟩

-- A declaration makes known what it mentions.
theorem knows_declare (h : declare source root c d = .ok c')
    (ha : a ∈ d.mentions c.symbols.blockMacros)
    (hl : ∀ n, a = .scalar n → n.text ∉ d.locals c.symbols.blockMacros) : c'.symbols.Knows a := by
  cases d
  case vars ns =>
    obtain ⟨n, hn, rfl⟩ := List.mem_map.mp ha
    have ⟨_, hk⟩ := exists_names (fun _ _ => Extends.addVariable) h hn
    exact hk.knows (knows_addVariable List.not_mem_nil)
  case lists ns =>
    obtain ⟨n, hn, rfl⟩ := List.mem_map.mp ha
    have ⟨_, hk⟩ := exists_names (fun _ _ => Extends.addList) h hn
    exact hk.knows knows_addList
  case function name params body warp =>
    simp only [declare, bind_eq_ok, pure_eq_ok] at h
    obtain ⟨t, ht, rfl⟩ := h
    unfold addFunction at ht
    split at ht
    · contradiction
    split at ht
    · contradiction
    obtain rfl := Except.ok.inj ht
    exact knows_addMentions ha hl
  case event =>
    obtain rfl := Except.ok.inj h
    exact knows_addMentions ha fun _ _ => List.not_mem_nil
  all_goals contradiction

theorem mem_lists_declare (h : declare source root c d = .ok c') (hn : name ∈ d.filled?) :
    name.text ∈ c'.symbols.lists := by
  cases d
  case dataList n token | imageList n token format =>
    obtain rfl := Option.some.inj hn
    simp only [declare, bind_eq_ok, pure_eq_ok] at h
    obtain ⟨_, _, _, _, rfl⟩ := h
    exact Std.TreeMap.mem_insert.mpr (.inl (by simp))
  all_goals contradiction

end Collection

namespace Symbols

variable {s : Symbols} {a : Mention}

-- Each declaration of a tree is reached, with the macros that are there in the end.
theorem exists_declare (h : ofTree source root globals tree = .ok s) (hd : d ∈ tree) :
    ∃ c c' : Collection, c.symbols.blockMacros = s.blockMacros ∧
      Collection.declare source root c d = .ok c' ∧ c'.symbols.Extends s := by
  have ⟨_, _, _, _, _, hc, he⟩ := ofTree_rounds h
  have ⟨c, c', _, hd, ht⟩ := foldlM_step (r := fun c c' => c.symbols.Extends c'.symbols)
    (fun c => .refl c.symbols) .trans Collection.declare_extends hc hd
  have hm := ht.blockMacros.trans (Collection.declare_extends hd).blockMacros
  exact ⟨c, c', he ▸ hm.symm, hd, he ▸ ht⟩

theorem ofTree_knows (h : ofTree source root globals tree = .ok s) (hd : d ∈ tree)
    (ha : a ∈ d.mentions s.blockMacros)
    (hl : ∀ n, a = .scalar n → n.text ∉ d.locals s.blockMacros) : s.Knows a := by
  have ⟨_, _, hm, hc, ht⟩ := exists_declare h hd
  exact ht.knows (Collection.knows_declare hc (hm ▸ ha) (hm ▸ hl))

theorem ofTree_fills (h : ofTree source root globals tree = .ok s) (hf : tree.Fills k) :
    k ∈ s.lists := by
  obtain ⟨d, hd, n, hn, rfl⟩ := hf
  have ⟨_, _, _, hc, ht⟩ := exists_declare h hd
  exact ht.lists (Collection.mem_lists_declare hc hn)

theorem names_of_varOf (h : VarOf globals macros tree k) (hk : isLocalName k = false) :
    k ∉ globals.vars ∧ tree.NamesVar macros k := by
  cases h
  case scalar hd hn hl hg => exact ⟨hg, _, hd, _, hn, hl, rfl⟩
  case own => simp [isLocalName_localName] at hk

theorem names_of_listOf (h : ListOf globals macros tree k) :
    k ∉ globals.lists ∧ tree.NamesList macros k ∨ k ∉ globals.vars ∧ tree.Fills k := by
  cases h
  case list hd hn hg => exact .inl ⟨hg, _, hd, _, hn, rfl⟩
  case filled hd hn hg => exact .inr ⟨hg, _, hd, _, hn, rfl⟩

end Symbols

theorem Globals.mem_vars_ofStage {stage : Symbols} :
    k ∈ (ofStage stage).vars ↔ k ∈ stage.vars ∧ isLocalName k = false := by
  simp [ofStage, Std.TreeMap.mem_keys]

theorem Globals.mem_lists_ofStage {stage : Symbols} :
    k ∈ (ofStage stage).lists ↔ k ∈ stage.lists ∧ isLocalName k = false := by
  simp [ofStage, Std.TreeMap.mem_keys]

namespace Symbols

variable {stage s : Symbols} {stageTree : SpriteTree} {stageSource : FileSource} {stageRoot : Path}
  {stageGlobals : Globals} {stageText text : String}

-- A sprite has no variable with the name of a shared one, and the only lists that it has with the
-- name of a shared one are those that it fills. A shared variable does not keep a list of its name
-- from being declared, nor a shared list a variable.
theorem redeclared_iff (hs : SpriteTree.ofSource stageText = .ok stageTree)
    (hg : ofTree stageSource stageRoot stageGlobals stageTree = .ok stage)
    (ht : SpriteTree.ofSource text = .ok tree)
    (h : ofTree source root (.ofStage stage) tree = .ok s) :
    (∀ k ∈ (Globals.ofStage stage).vars,
      k ∉ s.vars ∧ (k ∈ s.lists ↔ tree.NamesList s.blockMacros k)) ∧
    (∀ k ∈ (Globals.ofStage stage).lists,
      (k ∈ s.vars ↔ tree.NamesVar s.blockMacros k ∧ ¬ tree.Fills k) ∧
      (k ∈ s.lists ↔ tree.Fills k)) := by
  have ha := ofTree_accounted ht h
  have hp {k : String} (hk : k ∈ (Globals.ofStage stage).vars) :
      k ∉ (Globals.ofStage stage).lists := fun hl =>
    (ofTree_accounted hs hg).apart k (Globals.mem_vars_ofStage.mp hk).1
      (Globals.mem_lists_ofStage.mp hl).1
  refine ⟨fun k hk => ?vars, fun k hk => ?lists⟩
  case vars =>
    have hb := (Globals.mem_vars_ofStage.mp hk).2
    have hk' : k ∉ s.vars := fun hs => (names_of_varOf (ha.varOf hs) hb).1 hk
    refine ⟨hk', fun hs => ?_, fun ⟨d, hd, n, hn, he⟩ => ?_⟩
    · have hf : ¬ (k ∉ (Globals.ofStage stage).vars ∧ tree.Fills k) := fun hf => hf.1 hk
      exact ((names_of_listOf (ha.listOf hs)).resolve_right hf).2
    · subst he
      have hn := ofTree_knows h hd hn nofun
      have hg := ha.shared ▸ hp hk
      exact (hn.resolve_left hg).resolve_left hk'
  case lists =>
    have hb := (Globals.mem_lists_ofStage.mp hk).2
    have hf : k ∈ s.lists ↔ tree.Fills k := by
      refine ⟨fun hs => ?_, ofTree_fills h⟩
      have hn : ¬ (k ∉ (Globals.ofStage stage).lists ∧ tree.NamesList s.blockMacros k) :=
        fun hn => hn.1 hk
      exact ((names_of_listOf (ha.listOf hs)).resolve_left hn).2
    refine ⟨⟨fun hs => ?_, fun ⟨⟨d, hd, n, hn, hl, he⟩, hk'⟩ => ?_⟩, hf⟩
    · exact ⟨(names_of_varOf (ha.varOf hs) hb).2, fun hk => ha.apart k hs (hf.mpr hk)⟩
    · subst he
      have hn := ofTree_knows h hd hn fun _ he => Mention.scalar.inj he ▸ hl
      have hg : n.text ∉ s.globals.vars := ha.shared ▸ fun hv => hp hv hk
      exact (hn.resolve_left hg).resolve_right fun hs => hk' (hf.mp hs)

end Symbols

def SpriteTree.sharingStage : String :=
  "variables score; lists items, words;\n"

-- Uses the names of the stage in other ways, and fills a list that is shared.
def SpriteTree.redeclaring : String :=
  "onflag \x7b items = 1; score = [1]; total = 2; \x7d\n" ++
  "datalist words \"words.txt\";\n"

namespace Symbols

theorem redeclared_redeclaring : ∃ stageTree stage tree s,
    SpriteTree.ofSource SpriteTree.sharingStage = .ok stageTree ∧
    ofTree FileSource.words ⟨"p"⟩ .none stageTree = .ok stage ∧
    SpriteTree.ofSource SpriteTree.redeclaring = .ok tree ∧
    ofTree FileSource.words ⟨"p"⟩ (.ofStage stage) tree = .ok s ∧
    s.vars.keys = ["items", "total"] ∧ s.lists.keys = ["score", "words"] ∧
    (∀ k ∈ (Globals.ofStage stage).vars,
      k ∉ s.vars ∧ (k ∈ s.lists ↔ tree.NamesList s.blockMacros k)) ∧
    (∀ k ∈ (Globals.ofStage stage).lists,
      (k ∈ s.vars ↔ tree.NamesVar s.blockMacros k ∧ ¬ tree.Fills k) ∧
      (k ∈ s.lists ↔ tree.Fills k)) := by
  have h : (do
      let stageTree ← SpriteTree.ofSource SpriteTree.sharingStage
      let stage ← ofTree FileSource.words ⟨"p"⟩ .none stageTree
      let tree ← SpriteTree.ofSource SpriteTree.redeclaring
      let s ← ofTree FileSource.words ⟨"p"⟩ (.ofStage stage) tree
      return (s.vars.keys, s.lists.keys)) = .ok (["items", "total"], ["score", "words"]) := by
    decide +kernel
  simp only [bind_eq_ok, pure_eq_ok, Prod.mk.injEq] at h
  obtain ⟨stageTree, hs, stage, hg, tree, ht, s, h, hv, hl⟩ := h
  exact ⟨stageTree, stage, tree, s, hs, hg, ht, h, hv, hl, redeclared_iff hs hg ht h⟩

-- A list that is filled hides the shared list of the same name from the sprite.
theorem hides_shared_list : ∃ stageTree stage tree s,
    SpriteTree.ofSource "lists items;" = .ok stageTree ∧
    ofTree FileSource.words ⟨"p"⟩ .none stageTree = .ok stage ∧
    SpriteTree.ofSource "datalist items \"words.txt\";" = .ok tree ∧
    ofTree FileSource.words ⟨"p"⟩ (.ofStage stage) tree = .ok s ∧
    "items" ∈ (Globals.ofStage stage).lists ∧ "items" ∈ s.lists := by
  have h : (do
      let stageTree ← SpriteTree.ofSource "lists items;"
      let stage ← ofTree FileSource.words ⟨"p"⟩ .none stageTree
      let tree ← SpriteTree.ofSource "datalist items \"words.txt\";"
      let s ← ofTree FileSource.words ⟨"p"⟩ (.ofStage stage) tree
      return ((Globals.ofStage stage).lists, s.lists.keys)) = .ok (["items"], ["items"]) := by
    decide +kernel
  simp only [bind_eq_ok, pure_eq_ok, Prod.mk.injEq] at h
  obtain ⟨stageTree, hs, stage, hg, tree, ht, s, h, hv, hl⟩ := h
  exact ⟨stageTree, stage, tree, s, hs, hg, ht, h, by simp [hv],
    Std.TreeMap.mem_keys.mp (by simp [hl])⟩

end Symbols

end BlockLang
