import BlockLang.Files.Memory
import BlockLang.Proofs.Symbols.Functions
import BlockLang.Proofs.Tree.Parser.Decl

/-!
The variables and lists of a sprite, and the ways in which its tree comes to declare them.
-/

namespace BlockLang

open Relation

variable {macros : Std.TreeMap String BlockMacro} {m : Material} {calls : CallKinds}

namespace Mention

def name : Mention → Name
  | ownLocal n | scalar n | list n => n

section MadeOf

variable {enter : Enter}

mutual

-- The names that a body mentions are among its tokens, as long as those are that calls mention.
theorem token_ofStmt (he : ∀ {n a}, a ∈ enter n → m.token a.name.identifier) :
    ∀ {s : Stmt}, s.MadeOf m calls → ∀ a ∈ ofStmt enter s, m.token a.name.identifier
  | .declareLocal _ _, ⟨hn, _⟩ | .assign _ _, ⟨hn, _⟩ | .listSet _ _, ⟨hn, _⟩ =>
    List.forall_mem_singleton.mpr hn
  | .macroCall _ _, _ => fun _ => he
  | .branch _ _ none, ⟨_, _, hb⟩ => token_ofBranches he hb
  | .branch _ _ (some _), ⟨_, _, hb, ho⟩ =>
    List.forall_mem_append.mpr ⟨token_ofBranches he hb, token_ofBody he ho⟩
  | .loopUntil _ _ _, ⟨_, _, hb⟩ | .loopTimes _ _ _, ⟨_, _, hb⟩ | .forever _ _, ⟨_, hb⟩ =>
    token_ofBody he hb
  | .call _ _ _, _ | .compound _ _ _, _ | .increment _, _ | .listAdd _ _, _ | .listDelete _ _, _
  | .listDeleteAll _, _ | .listInsert _ _ _, _ | .listReplace _ _ _ _, _ | .showMonitor _, _
  | .hideMonitor _, _ => nofun

theorem token_ofBody (he : ∀ {n a}, a ∈ enter n → m.token a.name.identifier) :
    ∀ {ss : List Stmt}, Stmt.MadeOfBody m calls ss →
      ∀ a ∈ ofBody enter ss, m.token a.name.identifier
  | [], _ => nofun
  | _ :: _, ⟨hs, hss⟩ => List.forall_mem_append.mpr ⟨token_ofStmt he hs, token_ofBody he hss⟩

theorem token_ofBranches (he : ∀ {n a}, a ∈ enter n → m.token a.name.identifier) :
    ∀ {bs : List (Expr × List Stmt)}, Stmt.MadeOfBranches m calls bs →
      ∀ a ∈ ofBranches enter bs, m.token a.name.identifier
  | [], _ => nofun
  | (_, _) :: _, ⟨⟨_, hb⟩, hbs⟩ =>
    List.forall_mem_append.mpr ⟨token_ofBody he hb, token_ofBranches he hbs⟩

end

end MadeOf

theorem token_ofMacro (hm : ∀ {n : String} {a : BlockMacro}, macros[n]? = some a →
    Stmt.MadeOfBody m calls a.body) {depth : Nat} {active : List String} {n : String}
    {a : Mention} (ha : a ∈ ofMacro macros depth active n) : m.token a.name.identifier := by
  induction depth generalizing active n a
  case zero => contradiction
  case succ depth hi =>
    unfold ofMacro at ha
    split at ha
    · contradiction
    split at ha
    · contradiction
    · exact token_ofBody hi (hm ‹_›) a ha

theorem token_all (hm : ∀ {n : String} {a : BlockMacro}, macros[n]? = some a →
    Stmt.MadeOfBody m calls a.body) {body : List Stmt} (hb : Stmt.MadeOfBody m calls body) :
    ∀ a ∈ all macros body, m.token a.name.identifier :=
  token_ofBody (token_ofMacro hm) hb

end Mention

-- What a declaration declares, whether it says so or only stores into it.
def Decl.mentions (macros : Std.TreeMap String BlockMacro) : Decl → List Mention
  | .vars ns => ns.map .scalar
  | .lists ns => ns.map .list
  | .function _ _ body _ | .event _ _ body => Mention.all macros body
  | _ => []

-- The names that stand for local variables in a declaration.
def Decl.locals (macros : Std.TreeMap String BlockMacro) : Decl → List String
  | .function _ _ body _ => Mention.locals (Mention.all macros body)
  | _ => []

-- The list that a declaration fills with the contents of a file.
def Decl.filled? : Decl → Option Name
  | .dataList n _ | .imageList n _ _ => some n
  | _ => none

theorem Decl.token_mentions (hm : ∀ {n : String} {a : BlockMacro}, macros[n]? = some a →
    Stmt.MadeOfBody m calls a.body) {d : Decl} (hd : d.MadeOf m calls) :
    ∀ a ∈ d.mentions macros, m.token a.name.identifier := by
  cases d
  case vars ns | lists ns => exact List.forall_mem_map.mpr hd.2
  case function => exact Mention.token_all hm hd.2.2
  case event => exact Mention.token_all hm hd.2.2
  all_goals exact nofun

theorem Decl.token_filled {d : Decl} {n : Name} (hd : d.MadeOf m calls) (hn : n ∈ d.filled?) :
    m.token n.identifier := by
  cases d
  case dataList | imageList => exact Option.some.inj hn ▸ hd.1
  all_goals contradiction

-- No name that a tree declares has a colon in it.
structure SpriteTree.Bare (macros : Std.TreeMap String BlockMacro) (tree : SpriteTree) : Prop where
  mentions : ∀ d ∈ tree, ∀ a ∈ d.mentions macros, isLocalName a.name.text = false
  filled   : ∀ d ∈ tree, ∀ n ∈ d.filled?, isLocalName n.text = false

namespace Symbols

variable {tree : SpriteTree} {s t : Symbols} {d : Decl} {name : Name}

-- How a name comes to be that of a variable.
inductive VarOf (globals : Globals) (macros : Std.TreeMap String BlockMacro) (tree : SpriteTree) :
    String → Prop
  | scalar {d : Decl} {n : Name} (hd : d ∈ tree) (hn : .scalar n ∈ d.mentions macros)
      (hl : n.text ∉ d.locals macros) (hg : n.text ∉ globals.vars) :
      VarOf globals macros tree n.text
  | own {f : Name} {params : List Name} {body : List Stmt} {warp : Bool} {n : Name}
      (hd : .function f params body warp ∈ tree) (hn : .ownLocal n ∈ Mention.all macros body) :
      VarOf globals macros tree (localName f.text n.text)

-- How a name comes to be that of a list.
inductive ListOf (globals : Globals) (macros : Std.TreeMap String BlockMacro) (tree : SpriteTree) :
    String → Prop
  | list {d : Decl} {n : Name} (hd : d ∈ tree) (hn : .list n ∈ d.mentions macros)
      (hg : n.text ∉ globals.lists) : ListOf globals macros tree n.text
  | filled {d : Decl} {n : Name} (hd : d ∈ tree) (hn : n ∈ d.filled?)
      (hg : n.text ∉ globals.vars) : ListOf globals macros tree n.text

theorem ListOf.bare {globals : Globals} {k : String} (h : ListOf globals macros tree k)
    (hb : tree.Bare macros) : isLocalName k = false := by
  cases h
  case list hd hn _ => exact hb.mentions _ hd _ hn
  case filled hd hn _ => exact hb.filled _ hd _ hn

-- What is done to the variables and lists of a sprite, one name at a time.
inductive Enters (macros : Std.TreeMap String BlockMacro) (tree : SpriteTree) (s : Symbols) :
    Symbols → Prop
  | scalar {d : Decl} {n : Name} (hd : d ∈ tree) (hn : .scalar n ∈ d.mentions macros) :
      Enters macros tree s (s.addVariable (d.locals macros) n)
  | list {d : Decl} {n : Name} (hd : d ∈ tree) (hn : .list n ∈ d.mentions macros) :
      Enters macros tree s (s.addList n)
  | filled {d : Decl} {n : Name} (data : List String) (hd : d ∈ tree) (hn : n ∈ d.filled?)
      (hv : n.text ∉ s.vars) (hg : n.text ∉ s.globals.vars) :
      Enters macros tree s (s.putList n data)
  | own {f : Name} {params : List Name} {body : List Stmt} {warp : Bool} {n : Name}
      (hd : .function f params body warp ∈ tree) (hn : .ownLocal n ∈ Mention.all macros body) :
      Enters macros tree s (s.putLocal f.text n)
  | other {t : Symbols} (hv : t.vars = s.vars) (hl : t.lists = s.lists)
      (hg : t.globals = s.globals) : Enters macros tree s t

theorem enters_addMentions {mentions : List Mention} (hd : d ∈ tree)
    (hm : ∀ a ∈ mentions, a ∈ d.mentions macros) :
    ReflTransGen (Enters macros tree) s (s.addMentions (d.locals macros) mentions) := by
  unfold addMentions
  induction mentions generalizing s
  case nil => exact .refl
  case cons a as hi =>
    have ⟨ha, has⟩ := List.forall_mem_cons.mp hm
    refine .head ?_ (hi has)
    cases a
    case ownLocal => exact .other rfl rfl rfl
    case scalar => exact .scalar hd ha
    case list => exact .list hd ha

theorem enters_putLocals {f : Name} {params : List Name} {body : List Stmt} {warp : Bool}
    (hd : .function f params body warp ∈ tree) {ns : List Name}
    (hn : ∀ n ∈ ns, .ownLocal n ∈ Mention.all macros body) :
    ReflTransGen (Enters macros tree) s (ns.foldl (fun s n => s.putLocal f.text n) s) := by
  induction ns generalizing s
  case nil => exact .refl
  case cons n ns hi =>
    have ⟨hn, hns⟩ := List.forall_mem_cons.mp hn
    exact .head (.own hd hn) (hi hns)

theorem enters_addFunction {params : List Name} {body : List Stmt} {warp : Bool}
    (hd : .function name params body warp ∈ tree) (hm : s.blockMacros = macros)
    (h : s.addFunction name params body warp = .ok t) :
    ReflTransGen (Enters macros tree) s t := by
  subst hm
  unfold addFunction at h
  split at h
  · contradiction
  split at h
  · contradiction
  obtain rfl := Except.ok.inj h
  have hl : ∀ n ∈ (Mention.all s.blockMacros body).filterMap Mention.localName?,
      .ownLocal n ∈ Mention.all s.blockMacros body := fun _ => mem_filterMap_localName?.mp
  let mentions := Mention.all s.blockMacros body
  let s' := (mentions.filterMap Mention.localName?).foldl (fun s n => s.putLocal name.text n) s
  have hs : ReflTransGen (Enters s.blockMacros tree) s'
      (s'.addMentions (Mention.locals mentions) mentions) := enters_addMentions hd fun _ => id
  exact ((enters_putLocals hd hl).trans hs).tail (.other rfl rfl rfl)

end Symbols

namespace Collection

open Symbols

variable {source : FileSource} {root : Path} {tree : SpriteTree} {c c' : Collection} {d : Decl}
  {name : Name}

theorem free_noteFilled (h : c.noteFilled name = .ok c') :
    name.text ∉ c'.symbols.vars ∧ name.text ∉ c'.symbols.globals.vars := by
  simp only [noteFilled, bind_eq_ok] at h
  have ⟨c₁, hn, h⟩ := h
  split at h
  · contradiction
  case isFalse hc =>
    obtain rfl := pure_eq_ok.mp h
    simpa [not_or] using hc

theorem enters_foldlM {α : Type} {f : Collection → α → Except Diagnostic Collection} {as : List α}
    (hf : ∀ a ∈ as, ∀ c c', f c a = .ok c' → Enters macros tree c.symbols c'.symbols)
    (h : as.foldlM f c = .ok c') : ReflTransGen (Enters macros tree) c.symbols c'.symbols :=
  foldlM_rel (r := fun c c' => ReflTransGen (Enters macros tree) c.symbols c'.symbols)
    (fun _ => .refl) .trans (fun a ha c c' hc => .single (hf a ha c c' hc)) h

-- All that a declaration does to variables and lists is done one name at a time.
theorem enters_declare (hd : d ∈ tree) (hm : c.symbols.blockMacros = macros)
    (h : declare source root c d = .ok c') :
    ReflTransGen (Enters macros tree) c.symbols c'.symbols := by
  cases d
  case costumes tokens =>
    refine enters_foldlM (fun token _ t t' ht => ?_) h
    simp only [bind_eq_ok, pure_eq_ok] at ht
    obtain ⟨_, _, rfl⟩ := ht
    exact .other rfl rfl rfl
  case vars ns =>
    exact enters_foldlM (fun n hn _ _ ht =>
      symbols_noted ht ▸ .scalar hd (List.mem_map_of_mem hn)) h
  case lists ns =>
    exact enters_foldlM (fun n hn _ _ ht =>
      symbols_noted ht ▸ .list hd (List.mem_map_of_mem hn)) h
  case dataList n token | imageList n token format =>
    simp only [declare, bind_eq_ok, pure_eq_ok] at h
    obtain ⟨c₁, hn, data, _, rfl⟩ := h
    obtain ⟨hv, hg⟩ := free_noteFilled hn
    exact symbols_noteFilled hn ▸ .single (.filled data hd rfl hv hg)
  case function =>
    simp only [declare, bind_eq_ok, pure_eq_ok] at h
    obtain ⟨_, ha, rfl⟩ := h
    exact enters_addFunction hd hm ha
  case event =>
    obtain rfl := Except.ok.inj h
    exact enters_addMentions hd (hm ▸ fun _ => id)
  case docComment =>
    simp only [declare, bind_eq_ok, pure_eq_ok] at h
    obtain ⟨_, _, rfl⟩ := h
    exact .single (.other rfl rfl rfl)
  case exprMacro | blockMacro =>
    obtain rfl := Except.ok.inj h
    exact .refl

end Collection

namespace Symbols

variable {source : FileSource} {root : Path} {globals : Globals} {tree : SpriteTree}
  {s t : Symbols} {k : String}

-- The macros come first, and declare nothing but themselves.
theorem ofTree_tables (h : ofTree source root globals tree = .ok s) :
    ∃ (m : Symbols) (c : Collection), m.vars = {} ∧ m.lists = {} ∧ m.globals = globals ∧
      tree.foldlM (Collection.declare source root) ⟨m, []⟩ = .ok c ∧ c.symbols = s := by
  simp only [ofTree, bind_eq_ok, pure_eq_ok] at h
  obtain ⟨m, hm, c, hc, he⟩ := h
  obtain ⟨hv, hl, hg⟩ : m.vars = {} ∧ m.lists = {} ∧ m.globals = globals := by
    refine foldlM_induction (P := fun s : Symbols => s.vars = {} ∧ s.lists = {} ∧
      s.globals = globals) ?_ hm ⟨rfl, rfl, rfl⟩
    rintro d _ t t' ht ⟨hv, hl, hg⟩
    obtain ⟨hg', _, hv', hl'⟩ := addMacro_keeps ht
    exact ⟨hv'.trans hv, hl'.trans hl, hg'.trans hg⟩
  exact ⟨m, c, hv, hl, hg, hc, he⟩

theorem ofTree_enters (h : ofTree source root globals tree = .ok s) :
    ∃ m : Symbols, m.vars = {} ∧ m.lists = {} ∧ m.globals = globals ∧
      ReflTransGen (Enters s.blockMacros tree) m s := by
  obtain ⟨m, c, hv, hl, hg, hc, rfl⟩ := ofTree_tables h
  obtain ⟨hs, hb⟩ : ReflTransGen (Enters m.blockMacros tree) m c.symbols ∧
      c.symbols.blockMacros = m.blockMacros := by
    refine foldlM_induction (P := fun c => ReflTransGen (Enters m.blockMacros tree) m c.symbols ∧
      c.symbols.blockMacros = m.blockMacros) ?_ hc ⟨.refl, rfl⟩
    rintro d hd t t' ht ⟨hs, hb⟩
    exact ⟨hs.trans (Collection.enters_declare hd hb ht),
      (Collection.declare_extends ht).blockMacros.trans hb⟩
  exact ⟨m, hv, hl, hg, hb ▸ hs⟩

-- Every variable and every list is there for a reason, under its own name, and none is both.
structure Accounted (globals : Globals) (macros : Std.TreeMap String BlockMacro)
    (tree : SpriteTree) (s : Symbols) : Prop where
  shared : s.globals = globals
  var    : ∀ {k v}, s.vars[k]? = some v → v.name = k ∧ VarOf globals macros tree k
  list   : ∀ {k l}, s.lists[k]? = some l → l.name = k ∧ ListOf globals macros tree k
  apart  : ∀ k ∈ s.vars, k ∉ s.lists

namespace Accounted

variable {v : Variable} {l : StoredList}

theorem putVariable (h : s.Accounted globals macros tree) (hn : v.name = k)
    (hv : VarOf globals macros tree k) (hk : k ∉ s.lists) :
    Accounted globals macros tree { s with vars := s.vars.insert k v } where
  shared := h.shared
  var := forall_getElem?_insert h.var ⟨hn, hv⟩
  list := h.list
  apart k' hk' := by
    cases Std.TreeMap.mem_insert.mp hk'
    case inl he => exact Std.LawfulEqCmp.eq_of_compare he ▸ hk
    case inr hk' => exact h.apart k' hk'

theorem putStored (h : s.Accounted globals macros tree) (hn : l.name = k)
    (hl : ListOf globals macros tree k) (hk : k ∉ s.vars) :
    Accounted globals macros tree { s with lists := s.lists.insert k l } where
  shared := h.shared
  var := h.var
  list := forall_getElem?_insert h.list ⟨hn, hl⟩
  apart k' hk' hm := by
    cases Std.TreeMap.mem_insert.mp hm
    case inl he => exact hk (Std.LawfulEqCmp.eq_of_compare he ▸ hk')
    case inr hm => exact h.apart k' hk' hm

theorem varOf (h : s.Accounted globals macros tree) (hk : k ∈ s.vars) :
    VarOf globals macros tree k := by
  have ⟨_, hv⟩ := Option.isSome_iff_exists.mp (Std.TreeMap.mem_iff_isSome_getElem?.mp hk)
  exact (h.var hv).2

theorem listOf (h : s.Accounted globals macros tree) (hk : k ∈ s.lists) :
    ListOf globals macros tree k := by
  have ⟨_, hl⟩ := Option.isSome_iff_exists.mp (Std.TreeMap.mem_iff_isSome_getElem?.mp hk)
  exact (h.list hl).2

-- A local variable takes the place of no list, because there are no colons in the names of lists.
theorem step (h : s.Accounted globals macros tree) (hb : tree.Bare macros)
    (he : Enters macros tree s t) : t.Accounted globals macros tree := by
  cases he
  case scalar n hd hn =>
    unfold addVariable
    split
    · exact h
    case isFalse hc =>
      simp only [Bool.or_eq_true, not_or, List.contains_iff_mem, Std.TreeMap.contains_iff_mem] at hc
      exact h.putVariable rfl (.scalar hd hn hc.1.1.2 (h.shared ▸ hc.1.1.1)) hc.2
  case list n hd hn =>
    unfold addList
    split
    · exact h
    case isFalse hc =>
      simp only [Bool.or_eq_true, not_or, List.contains_iff_mem, Std.TreeMap.contains_iff_mem] at hc
      exact h.putStored rfl (.list hd hn (h.shared ▸ hc.1.1)) hc.2
  case filled hd hn hv hg => exact h.putStored rfl (.filled hd hn (h.shared ▸ hg)) hv
  case own f _ _ _ n hd hn =>
    refine h.putVariable rfl (.own hd hn) fun hk => ?_
    have hb := (h.listOf hk).bare hb
    simp [isLocalName_localName] at hb
  case other hv hl hg =>
    exact ⟨hg.trans h.shared, hv ▸ h.var, hl ▸ h.list, hv ▸ hl ▸ h.apart⟩

theorem run (h : s.Accounted globals macros tree) (hb : tree.Bare macros)
    (hr : ReflTransGen (Enters macros tree) s t) : t.Accounted globals macros tree := by
  induction hr
  case refl => exact h
  case tail _ he hi => exact hi.step hb he

end Accounted

theorem ofTree_bare {text : String} (ht : SpriteTree.ofSource text = .ok tree)
    (h : ofTree source root globals tree = .ok s) : tree.Bare s.blockMacros := by
  have ⟨ts, hts, hm⟩ := SpriteTree.madeOf_ofSource ht
  have hw {n : Name} (hn : n.identifier ∈ ts) : isLocalName n.text = false :=
    isLocalName_of_isWordChar (Token.isWordChar_of_scan hts hn rfl)
  refine ⟨fun d hd a ha => hw (Decl.token_mentions (fun hb => ?_) (hm d hd) a ha),
    fun d hd n hn => hw (Decl.token_filled (hm d hd) hn)⟩
  have ⟨_, _, hb⟩ := (ofTree_macros h).blocks hb
  exact (hm _ hb).2.2

theorem ofTree_accounted {text : String} (ht : SpriteTree.ofSource text = .ok tree)
    (h : ofTree source root globals tree = .ok s) : s.Accounted globals s.blockMacros tree := by
  have ⟨m, hv, hl, hg, he⟩ := ofTree_enters h
  have hm : m.Accounted globals s.blockMacros tree :=
    ⟨hg, by simp [hv], by simp [hl], by simp [hv]⟩
  exact hm.run (ofTree_bare ht h) he

-- Each macro is declared under its own name.
structure MacrosKeyed (s : Symbols) : Prop where
  exprs  : Keyed (fun a : ExprMacro => a.name.text) s.exprMacros
  blocks : Keyed (fun a : BlockMacro => a.name.text) s.blockMacros

theorem MacrosKeyed.addMacro {d : Decl} (hs : s.MacrosKeyed) (h : s.addMacro d = .ok t) :
    t.MacrosKeyed := by
  obtain ⟨_, _, _, _, _, rfl⟩ | ⟨_, _, _, _, _, rfl⟩ | rfl := addMacro_cases h
  · exact ⟨hs.exprs.insert rfl, hs.blocks⟩
  · exact ⟨hs.exprs, hs.blocks.insert rfl⟩
  · exact hs

theorem ofTree_macrosKeyed (h : ofTree source root globals tree = .ok s) : s.MacrosKeyed := by
  simp only [ofTree, bind_eq_ok, pure_eq_ok] at h
  obtain ⟨m, hm, c, hc, rfl⟩ := h
  have hm : m.MacrosKeyed :=
    foldlM_induction (fun _ _ _ _ ht hs => hs.addMacro ht) hm ⟨keyed_empty, keyed_empty⟩
  exact foldlM_induction (P := (·.symbols.MacrosKeyed)) (fun _ _ _ _ hd hs =>
    have hd := Collection.declare_extends hd
    ⟨hd.exprMacros ▸ hs.exprs, hd.blockMacros ▸ hs.blocks⟩) hc hm

theorem getElem?_functions_initial : ∀ f ∈ Function.allPredefined,
    (initial globals).functions[f.name.text]? = some f := by
  change ∀ f ∈ Function.allPredefined, (Function.allPredefined.foldl
    (fun t f => t.insert f.name.text f) ({} : Std.TreeMap String Function))[f.name.text]? = some f
  decide

-- The functions that are always there stay as they are, and no function declares a local variable
-- twice.
theorem ofTree_functions (h : ofTree source root globals tree = .ok s) :
    (∀ f ∈ Function.allPredefined, s.functions[f.name.text]? = some f) ∧
      ∀ {k : String} {f : Function}, s.functions[k]? = some f → f.locals.Nodup := by
  simp only [ofTree, bind_eq_ok, pure_eq_ok] at h
  obtain ⟨m, hm, c, hc, rfl⟩ := h
  have hm : m.functions = (initial globals).functions :=
    foldlM_induction (P := fun s : Symbols => s.functions = (initial globals).functions)
      (fun _ _ _ _ ht hs => (addMacro_keeps ht).2.1.trans hs) hm rfl
  refine foldlM_induction (P := fun c : Collection =>
    (∀ f ∈ Function.allPredefined, c.symbols.functions[f.name.text]? = some f) ∧
      ∀ {k : String} {f : Function}, c.symbols.functions[k]? = some f → f.locals.Nodup)
    ?declared hc ?initial
  case initial =>
    rw [hm]
    refine ⟨getElem?_functions_initial, fun hf => ?_⟩
    have hm := (of_getElem?_table (fun f : Function => f.name.text) hf).1
    simp [locals_of_predefined _ hm]
  case declared =>
    rintro d _ c c' hd ⟨hp, hl⟩
    refine ⟨fun f hf => (Collection.declare_extends hd).functions (hp f hf), fun {k f} hf => ?_⟩
    obtain ⟨name, params, body, warp, _, ha⟩ | hk := Collection.declare_cases hd
    · exact forall_getElem?_insert (P := fun _ f => f.locals.Nodup) hl nodup_eraseDups
        (ha.functions ▸ hf)
    · exact hl (hk.2 ▸ hf)

-- The tables of a sprite, as all that comes after relies on them.
structure Consistent (s : Symbols) : Prop where
  apart      : ∀ k ∈ s.vars, k ∉ s.lists
  vars       : Keyed Variable.name s.vars
  lists      : Keyed StoredList.name s.lists
  functions  : Keyed (fun f : Function => f.name.text) s.functions
  macros     : s.MacrosKeyed
  -- A name with a colon is that of a local variable of a function.
  locals     : ∀ k, k ∈ s.vars ∧ isLocalName k ↔
    ∃ n f x, s.functions[n]? = some f ∧ x ∈ f.locals ∧ k = localName n x
  bare       : ∀ k ∈ s.lists, isLocalName k = false
  distinct   : ∀ (n : String) (f : Function), s.functions[n]? = some f →
    f.locals.Nodup ∧ (f.params.map (·.text)).Nodup
  predefined : ∀ f ∈ Function.allPredefined, s.functions[f.name.text]? = some f

theorem consistent_of_ofTree {text : String} (ht : SpriteTree.ofSource text = .ok tree)
    (h : ofTree source root globals tree = .ok s) : s.Consistent := by
  have ha := ofTree_accounted ht h
  have hb := ofTree_bare ht h
  have hp := ofTree_proper h
  have ⟨hf, hd⟩ := ofTree_functions h
  refine ⟨ha.apart, fun _ _ hv => (ha.var hv).1, fun _ _ hl => (ha.list hl).1,
    fun n f hf => (hp n f hf).1, ofTree_macrosKeyed h, fun k => ⟨?own, ?declared⟩,
    fun k hk => (ha.listOf hk).bare hb,
    fun n f hf => ⟨hd hf, (hp n f hf).2.1⟩, hf⟩
  case own =>
    intro ⟨hk, hl⟩
    cases ha.varOf hk
    case scalar hd hn _ _ =>
      have hb := hb.mentions _ hd _ hn
      simp_all [Mention.name]
    case own hd hn => exact ⟨_, _, _, (ofTree_function h hd).2, mem_locals.mpr ⟨_, hn, rfl⟩, rfl⟩
  case declared =>
    intro ⟨n, f, x, hf, hx, he⟩
    exact he ▸ ⟨(hp n f hf).2.2 x hx, isLocalName_localName⟩

end Symbols

-- Declares names in every way there is. The stage has a variable of one of the names.
def SpriteTree.manyNames : String :=
  "macro KEEP x \x7b local k = x!; total = k; seen = [x!]; \x7d\n" ++
  "onflag \x7b count = 1; shared = 2; \x7d\n" ++
  "def f a, b \x7b if $a \x7b KEEP!($b); \x7d \x7d\n" ++
  "variables n; lists xs; datalist words \"words.txt\";\n"

def FileSource.words : FileSource :=
  (MemoryTree.empty.insert ⟨"p/words.txt"⟩ "alpha\nbeta\n".toUTF8).source

namespace Symbols

theorem consistent_manyNames : ∃ tree s, SpriteTree.ofSource SpriteTree.manyNames = .ok tree ∧
    ofTree FileSource.words ⟨"p"⟩ ⟨["shared"], []⟩ tree = .ok s ∧
    s.vars.keys = ["count", "f:k", "n", "total"] ∧ s.lists.keys = ["seen", "words", "xs"] ∧
    s.Consistent := by
  have h : (do
      let tree ← SpriteTree.ofSource SpriteTree.manyNames
      let s ← ofTree FileSource.words ⟨"p"⟩ ⟨["shared"], []⟩ tree
      return (s.vars.keys, s.lists.keys)) =
      .ok (["count", "f:k", "n", "total"], ["seen", "words", "xs"]) := by
    decide +kernel
  simp only [bind_eq_ok, pure_eq_ok, Prod.mk.injEq] at h
  obtain ⟨tree, ht, s, hs, hv, hl⟩ := h
  exact ⟨tree, s, ht, hs, hv, hl, consistent_of_ofTree ht hs⟩

end Symbols

end BlockLang
