import BlockLang.Proofs.Symbols.Shared

/-!
Which of its uses decides what a name stands for, and which declarations thereby have no effect.
-/

namespace BlockLang

-- The role of a name: that of a variable, of a list, or of a local variable.
inductive Role where
  | scalar
  | list
  | own
  deriving DecidableEq, Repr

-- The roles that uses give to names, in order.
abbrev Roles := List (String × Role)

-- A use gives a name its role, unless the name is shared in that role or is that of a local
-- variable.
def Mention.roles (globals : Globals) (locals : List String) : Mention → Roles
  | .ownLocal _ => []
  | .scalar n => if n.text ∈ globals.vars ∨ n.text ∈ locals then [] else [(n.text, .scalar)]
  | .list n => if n.text ∈ globals.lists then [] else [(n.text, .list)]

namespace Decl

-- The names that a function gives to its local variables.
def ownNames (macros : Std.TreeMap String BlockMacro) : Decl → List String
  | .function f _ body _ =>
    ((Mention.all macros body).filterMap Mention.localName?).map (localName f.text ·.text)
  | _ => []

-- The roles that a declaration gives to names, those of its local variables first.
def roles (globals : Globals) (macros : Std.TreeMap String BlockMacro) (d : Decl) : Roles :=
  (d.ownNames macros).map (·, .own) ++
    ((d.mentions macros).flatMap (Mention.roles globals (d.locals macros)) ++
      d.filled?.toList.map (·.text, .list))

section

variable {globals : Globals} {macros : Std.TreeMap String BlockMacro} {ns : List Name}
  {name : Name} {params : List Name} {body : List Stmt} {warp : Bool}

theorem roles_vars : (vars ns).roles globals macros =
    ns.flatMap fun n => Mention.roles globals [] (.scalar n) := by
  simp [roles, ownNames, mentions, locals, filled?, List.flatMap_map]

theorem roles_lists : (lists ns).roles globals macros =
    ns.flatMap fun n => Mention.roles globals [] (.list n) := by
  simp [roles, ownNames, mentions, locals, filled?, List.flatMap_map]

theorem roles_function : (function name params body warp).roles globals macros =
    ((Mention.all macros body).filterMap Mention.localName?).map
        (fun n => (localName name.text n.text, .own)) ++
      (Mention.all macros body).flatMap
        (Mention.roles globals (Mention.locals (Mention.all macros body))) := by
  simp [roles, ownNames, mentions, locals, filled?]

theorem roles_event {s : Span} {e : Event} : (event s e body).roles globals macros =
    (Mention.all macros body).flatMap (Mention.roles globals []) := by
  simp [roles, ownNames, mentions, locals, filled?]

end

end Decl

def SpriteTree.roles (globals : Globals) (macros : Std.TreeMap String BlockMacro)
    (tree : SpriteTree) : Roles :=
  tree.flatMap (Decl.roles globals macros)

variable {source : FileSource} {root : Path} {globals : Globals}
  {macros : Std.TreeMap String BlockMacro} {tree : SpriteTree} {roles : Roles} {name : Name}
  {locals : List String} {k key : String} {d : Decl}

-- A further role counts for nothing if the name has one.
theorem lookup_append_singleton {c c' : Role} : (roles ++ [(key, c)]).lookup k = some c' ↔
    roles.lookup k = some c' ∨ roles.lookup k = none ∧ k = key ∧ c = c' := by
  rw [List.lookup_append, Option.or_eq_some_iff, lookup_cons_ite]
  by_cases hk : k = key <;> simp [hk]

theorem mem_insert {β : Type} {t : Std.TreeMap String β} {v : β} :
    k ∈ t.insert key v ↔ k = key ∨ k ∈ t := by
  rw [Std.TreeMap.mem_insert, Std.LawfulEqCmp.compare_eq_iff_eq, eq_comm]

-- The first role of a name decides, but local variables are always there.
structure Symbols.Follows (s : Symbols) (globals : Globals) (roles : Roles) : Prop where
  shared : s.globals = globals
  var    : ∀ k, k ∈ s.vars ↔ roles.lookup k = some .scalar ∨ (k, .own) ∈ roles
  list   : ∀ k, k ∈ s.lists ↔ roles.lookup k = some .list

namespace Symbols.Follows

variable {s t : Symbols}

theorem congr (h : s.Follows globals roles) (hg : t.globals = s.globals) (hv : t.vars = s.vars)
    (hl : t.lists = s.lists) : t.Follows globals roles :=
  ⟨hg.trans h.shared, hv ▸ h.var, hl ▸ h.list⟩

-- A name has a role if it is in one of the tables.
theorem lookup_isSome_iff (h : s.Follows globals roles) :
    (roles.lookup k).isSome ↔ k ∈ s.vars ∨ k ∈ s.lists := by
  rw [h.var, h.list]
  constructor
  case mp =>
    intro hk
    have ⟨c, hc⟩ := Option.isSome_iff_exists.mp hk
    cases c
    case scalar => exact .inl (.inl hc)
    case list => exact .inr hc
    case own => exact .inl (.inr (mem_of_lookup_eq_some hc))
  case mpr =>
    rintro ((hk | hk) | hk)
    · simp [hk]
    · exact List.lookup_isSome_iff.mpr ⟨_, hk, by simp⟩
    · simp [hk]

-- A name that has a role keeps it.
theorem taken {c : Role} (h : s.Follows globals roles) (hk : key ∈ s.vars ∨ key ∈ s.lists)
    (hc : c ≠ .own) : s.Follows globals (roles ++ [(key, c)]) := by
  have hl : ∀ k c', (roles ++ [(key, c)]).lookup k = some c' ↔ roles.lookup k = some c' := by
    intro k c'
    rw [lookup_append_singleton, or_iff_left]
    rintro ⟨hn, rfl, _⟩
    simpa [hn] using h.lookup_isSome_iff.mpr hk
  refine ⟨h.shared, fun k => ?var, fun k => ?list⟩
  case var => simp [h.var, hl, hc.symm]
  case list => rw [h.list, hl]

theorem insertVar {v : Variable} (h : s.Follows globals roles) (hv : key ∉ s.vars)
    (hl : key ∉ s.lists) :
    Follows { s with vars := s.vars.insert key v } globals (roles ++ [(key, .scalar)]) := by
  have hn : roles.lookup key = none := by
    rw [← Option.not_isSome_iff_eq_none, h.lookup_isSome_iff, not_or]
    exact ⟨hv, hl⟩
  refine ⟨h.shared, fun k => ?var, fun k => ?list⟩
  case var =>
    rw [mem_insert, h.var, lookup_append_singleton]
    by_cases hk : k = key
    case pos => simp [hk, hn]
    case neg => simp [hk]
  case list => simp [h.list, lookup_append_singleton]

-- A list takes the place of one of the same name only.
theorem insertList {l : StoredList} (h : s.Follows globals roles) (hv : key ∉ s.vars) :
    Follows { s with lists := s.lists.insert key l } globals (roles ++ [(key, .list)]) := by
  refine ⟨h.shared, fun k => ?var, fun k => ?list⟩
  case var => simp [h.var, lookup_append_singleton]
  case list =>
    rw [mem_insert, h.list, lookup_append_singleton]
    by_cases hk : k = key
    case neg => simp [hk]
    case pos =>
      have ⟨hs, ho⟩ := not_or.mp (mt (h.var key).mpr hv)
      subst hk
      cases hc : roles.lookup k
      case none => simp
      case some c =>
        cases c
        case scalar => exact absurd hc hs
        case list => simp
        case own => exact absurd (mem_of_lookup_eq_some hc) ho

theorem insertOwn {v : Variable} (h : s.Follows globals roles) :
    Follows { s with vars := s.vars.insert key v } globals (roles ++ [(key, .own)]) := by
  refine ⟨h.shared, fun k => ?var, fun k => ?list⟩
  case var =>
    rw [mem_insert, h.var, lookup_append_singleton]
    simp only [List.mem_append, List.mem_singleton, Prod.mk.injEq, and_true, reduceCtorEq,
      and_false, or_false]
    exact or_comm.trans or_assoc
  case list => simp [h.list, lookup_append_singleton]

theorem addVariable (h : s.Follows globals roles) : (s.addVariable locals name).Follows globals
    (roles ++ Mention.roles globals locals (.scalar name)) := by
  obtain rfl := h.shared
  simp only [Symbols.addVariable, Mention.roles, Bool.or_eq_true, List.contains_iff_mem,
    Std.TreeMap.contains_iff_mem]
  by_cases hs : name.text ∈ s.globals.vars ∨ name.text ∈ locals
  case pos => simpa [hs] using h
  case neg =>
    rw [if_neg hs]
    split
    case isTrue ht => exact h.taken ((or_assoc.mp ht).resolve_left hs) (by decide)
    case isFalse ht =>
      have hv : name.text ∉ s.vars := (not_or.mp (not_or.mp ht).1).2
      exact h.insertVar hv (not_or.mp ht).2

theorem addList (h : s.Follows globals roles) : (s.addList name).Follows globals
    (roles ++ Mention.roles globals locals (.list name)) := by
  obtain rfl := h.shared
  simp only [Symbols.addList, Mention.roles, Bool.or_eq_true, List.contains_iff_mem,
    Std.TreeMap.contains_iff_mem]
  by_cases hs : name.text ∈ s.globals.lists
  case pos => simpa [hs] using h
  case neg =>
    rw [if_neg hs]
    split
    case isTrue ht => exact h.taken ((or_assoc.mp ht).resolve_left hs).symm (by decide)
    case isFalse ht => exact h.insertList (not_or.mp ht).2

theorem addMentions {mentions : List Mention} (h : s.Follows globals roles) :
    (s.addMentions locals mentions).Follows globals
      (roles ++ mentions.flatMap (Mention.roles globals locals)) := by
  unfold Symbols.addMentions
  induction mentions generalizing s roles
  case nil => simpa using h
  case cons a as hi =>
    rw [List.flatMap_cons, ← List.append_assoc]
    refine hi ?_
    cases a
    case ownLocal => simpa [Mention.roles, Mention.declare] using h
    case scalar => exact h.addVariable
    case list => exact h.addList

theorem putLocals {function : String} {names : List Name} (h : s.Follows globals roles) :
    (names.foldl (fun s n => s.putLocal function n) s).Follows globals
      (roles ++ names.map fun n => (localName function n.text, .own)) := by
  induction names generalizing s roles
  case nil => simpa using h
  case cons n ns hi =>
    rw [List.map_cons, List.append_cons]
    exact hi h.insertOwn

theorem addFunction {params : List Name} {body : List Stmt} {warp : Bool}
    (h : s.Follows globals roles) (ha : s.addFunction name params body warp = .ok t) :
    t.Follows globals
      (roles ++ (Decl.function name params body warp).roles globals s.blockMacros) := by
  unfold Symbols.addFunction at ha
  split at ha
  · contradiction
  split at ha
  · contradiction
  obtain rfl := Except.ok.inj ha
  rw [Decl.roles_function, ← List.append_assoc]
  exact h.putLocals.addMentions.congr rfl rfl rfl

end Symbols.Follows

namespace Collection

open Symbols

variable {c c' : Collection}

-- What is done for each name of a declaration gives the name its role.
theorem follows_names {f : Name → Symbols → Symbols} {g : Name → Roles} {storage : Storage}
    {ns : List Name} (hf : ∀ n roles (s : Symbols), s.Follows globals roles →
      (f n s).Follows globals (roles ++ g n))
    (h : ns.foldlM (fun c n => do return (← note n storage c).update (f n)) c = .ok c')
    (hc : c.symbols.Follows globals roles) :
    c'.symbols.Follows globals (roles ++ ns.flatMap g) :=
  foldlM_flatMap (P := fun roles c => c.symbols.Follows globals roles)
    (fun n _ roles c _ hn hc => symbols_noted hn ▸ hf n roles c.symbols hc) h hc

theorem follows_declare (h : declare source root c d = .ok c')
    (hc : c.symbols.Follows globals roles) :
    c'.symbols.Follows globals (roles ++ d.roles globals c.symbols.blockMacros) := by
  cases d
  case vars ns =>
    rw [Decl.roles_vars]
    exact follows_names (fun _ _ _ hs => hs.addVariable) h hc
  case lists ns =>
    rw [Decl.roles_lists]
    exact follows_names (fun _ _ _ hs => hs.addList) h hc
  case dataList n token | imageList n token format =>
    simp only [declare, bind_eq_ok, pure_eq_ok] at h
    obtain ⟨c₁, hn, data, _, rfl⟩ := h
    rw [← symbols_noteFilled hn] at hc
    exact hc.insertList (free_noteFilled hn).1
  case function =>
    simp only [declare, bind_eq_ok, pure_eq_ok] at h
    obtain ⟨_, ha, rfl⟩ := h
    exact hc.addFunction ha
  case event =>
    obtain rfl := Except.ok.inj h
    rw [Decl.roles_event]
    exact hc.addMentions
  all_goals
    change c'.symbols.Follows globals (roles ++ [])
    rw [List.append_nil]
  case costumes tokens =>
    refine foldlM_induction (P := fun c => c.symbols.Follows globals roles) ?_ h hc
    intro token _ t t' ht hs
    simp only [bind_eq_ok, pure_eq_ok] at ht
    obtain ⟨_, _, rfl⟩ := ht
    exact hs.congr rfl rfl rfl
  case docComment =>
    simp only [declare, bind_eq_ok, pure_eq_ok] at h
    obtain ⟨_, _, rfl⟩ := h
    exact hc.congr rfl rfl rfl
  case exprMacro | blockMacro => exact Except.ok.inj h ▸ hc

end Collection

namespace Symbols

variable {s : Symbols}

-- The uses of names in a tree give them their roles, one after the other.
theorem ofTree_follows (h : ofTree source root globals tree = .ok s) :
    s.Follows globals (tree.roles globals s.blockMacros) := by
  obtain ⟨m, c, hv, hl, hg, hc, rfl⟩ := ofTree_tables h
  have hm : m.Follows globals [] := ⟨hg, by simp [hv], by simp [hl]⟩
  have ⟨hs, hb⟩ : c.symbols.Follows globals ([] ++ tree.roles globals m.blockMacros) ∧
      c.symbols.blockMacros = m.blockMacros := by
    refine foldlM_flatMap (P := fun roles c => c.symbols.Follows globals roles ∧
      c.symbols.blockMacros = m.blockMacros) ?_ hc ⟨hm, rfl⟩
    intro d _ roles t t' ht ⟨hs, hb⟩
    exact ⟨hb ▸ Collection.follows_declare ht hs,
      (Collection.declare_extends ht).blockMacros.trans hb⟩
  exact hb ▸ hs

end Symbols

-- The names that a declaration names as those of variables, and as those of lists.
def Decl.namedVars : Decl → List Name
  | .vars ns => ns
  | _ => []

def Decl.namedLists : Decl → List Name
  | .lists ns => ns
  | .dataList n _ | .imageList n _ _ => [n]
  | _ => []

namespace SpriteTree

def firstRole? (globals : Globals) (macros : Std.TreeMap String BlockMacro) (tree : SpriteTree)
    (k : String) : Option Role :=
  (tree.roles globals macros).lookup k

theorem isSome_firstRole? (hd : d ∈ tree) (hn : name ∈ d.namedVars)
    (hg : name.text ∉ globals.vars) : (tree.firstRole? globals macros name.text).isSome := by
  refine List.lookup_isSome_iff.mpr ⟨(name.text, .scalar), List.mem_flatMap.mpr ⟨d, hd, ?_⟩,
    beq_self_eq_true name.text⟩
  cases d
  case vars ns =>
    rw [Decl.roles_vars]
    exact List.mem_flatMap.mpr ⟨name, hn, by simp [Mention.roles, hg]⟩
  all_goals contradiction

end SpriteTree

namespace Symbols

variable {s : Symbols}

-- What is named as a variable is one, and what is named as a list is one, unless an earlier use
-- gives the name the other role. A list that is filled with the contents of a file is always there.
theorem named_iff (h : ofTree source root globals tree = .ok s) :
    (∀ d ∈ tree, ∀ n ∈ d.namedVars, n.text ∈ globals.vars ∨ n.text ∈ s.vars ↔
      n.text ∈ globals.vars ∨ tree.firstRole? globals s.blockMacros n.text ≠ some .list ∨
        (n.text, .own) ∈ tree.roles globals s.blockMacros) ∧
    (∀ d ∈ tree, ∀ n ∈ d.namedLists, n.text ∈ globals.lists ∨ n.text ∈ s.lists ↔
      n.text ∈ globals.lists ∨ tree.firstRole? globals s.blockMacros n.text = some .list) ∧
    (∀ d ∈ tree, ∀ n ∈ d.filled?, n.text ∈ s.lists) := by
  have hs := ofTree_follows h
  refine ⟨fun d hd n hn => or_congr_right' fun hg => ?vars, fun d hd n hn => ?lists,
    fun d hd n hn => ofTree_fills h ⟨d, hd, n, hn, rfl⟩⟩
  case vars =>
    have hc : (tree.firstRole? globals s.blockMacros n.text).isSome :=
      SpriteTree.isSome_firstRole? hd hn hg
    have ⟨c, hc⟩ := Option.isSome_iff_exists.mp hc
    rw [SpriteTree.firstRole?] at hc ⊢
    rw [hs.var, hc]
    cases c
    case scalar => simp
    case list => simp
    case own => simp [mem_of_lookup_eq_some hc]
  case lists =>
    rw [hs.list]
    rfl

end Symbols

-- Names that are used before they are declared, and names that are declared before they are used.
def SpriteTree.lateDeclarations : String :=
  "onflag \x7b a = 1; b = [1]; \x7d\n" ++
  "lists a, c;\n" ++
  "variables b, d, shared;\n" ++
  "onflag \x7b c = 1; d = [1]; \x7d\n" ++
  "datalist words \"words.txt\";\n"

namespace Symbols

theorem named_lateDeclarations : ∃ tree s,
    SpriteTree.ofSource SpriteTree.lateDeclarations = .ok tree ∧
    ofTree FileSource.words ⟨"p"⟩ ⟨["shared"], []⟩ tree = .ok s ∧
    s.vars.keys = ["a", "d"] ∧ s.lists.keys = ["b", "c", "words"] ∧
    (∀ d ∈ tree, ∀ n ∈ d.namedVars, n.text ∈ ["shared"] ∨ n.text ∈ s.vars ↔
      n.text ∈ ["shared"] ∨
        tree.firstRole? ⟨["shared"], []⟩ s.blockMacros n.text ≠ some .list ∨
        (n.text, .own) ∈ tree.roles ⟨["shared"], []⟩ s.blockMacros) ∧
    (∀ d ∈ tree, ∀ n ∈ d.namedLists, n.text ∈ [] ∨ n.text ∈ s.lists ↔
      n.text ∈ [] ∨ tree.firstRole? ⟨["shared"], []⟩ s.blockMacros n.text = some .list) ∧
    (∀ d ∈ tree, ∀ n ∈ d.filled?, n.text ∈ s.lists) := by
  have h : (do
      let tree ← SpriteTree.ofSource SpriteTree.lateDeclarations
      let s ← ofTree FileSource.words ⟨"p"⟩ ⟨["shared"], []⟩ tree
      return (s.vars.keys, s.lists.keys)) = .ok (["a", "d"], ["b", "c", "words"]) := by
    decide +kernel
  simp only [bind_eq_ok, pure_eq_ok, Prod.mk.injEq] at h
  obtain ⟨tree, ht, s, hs, hv, hl⟩ := h
  exact ⟨tree, s, ht, hs, hv, hl, named_iff hs⟩

-- The name is that of a variable from the script on, so the list that it is to name is left out.
theorem named_not_list : ∃ tree s,
    SpriteTree.ofSource "onflag \x7b a = 1; \x7d\nlists a;" = .ok tree ∧
    ofTree FileSource.words ⟨"p"⟩ .none tree = .ok s ∧
    (∃ d ∈ tree, ∃ n ∈ d.namedLists, n.text = "a") ∧
    "a" ∉ Globals.none.lists ∧ "a" ∉ s.lists ∧ "a" ∈ s.vars := by
  have h : (do
      let tree ← SpriteTree.ofSource "onflag \x7b a = 1; \x7d\nlists a;"
      let s ← ofTree FileSource.words ⟨"p"⟩ .none tree
      return (tree.flatMap Decl.namedLists, s.vars.keys, s.lists.keys)) =
      .ok ([⟨"a", ⟨2, 7, 1⟩⟩], ["a"], []) := by
    decide +kernel
  simp only [bind_eq_ok, pure_eq_ok, Prod.mk.injEq] at h
  obtain ⟨tree, ht, s, hs, hn, hv, hl⟩ := h
  obtain ⟨d, hd, hn⟩ := List.mem_flatMap.mp (hn ▸ List.mem_singleton_self (⟨"a", ⟨2, 7, 1⟩⟩ : Name))
  refine ⟨tree, s, ht, hs, ⟨d, hd, _, hn, rfl⟩, List.not_mem_nil, ?_, ?_⟩
  · simp [← Std.TreeMap.mem_keys, hl]
  · simp [← Std.TreeMap.mem_keys, hv]

end Symbols

end BlockLang
