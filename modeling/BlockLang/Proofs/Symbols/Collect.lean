import BlockLang.Symbols.Collect
import BlockLang.Proofs.Except
import BlockLang.Proofs.Lookup

/-!
The names of a sprite only become more, and functions have the parameters and the local variables
that they are declared with.
-/

namespace BlockLang

namespace Symbols

-- No name is lost, and macros do not change.
structure Extends (s t : Symbols) : Prop where
  blockMacros : t.blockMacros = s.blockMacros
  exprMacros  : t.exprMacros = s.exprMacros
  globals     : t.globals = s.globals
  functions   : ∀ {n : String} {f : Function}, s.functions[n]? = some f → t.functions[n]? = some f
  vars        : ∀ {n : String}, n ∈ s.vars → n ∈ t.vars
  lists       : ∀ {n : String}, n ∈ s.lists → n ∈ t.lists

variable {s t u : Symbols} {name : Name} {params : List Name} {body : List Stmt} {warp : Bool}
  {locals : List String}

namespace Extends

theorem refl (s : Symbols) : s.Extends s :=
  ⟨rfl, rfl, rfl, id, id, id⟩

theorem trans (h : s.Extends t) (k : t.Extends u) : s.Extends u where
  blockMacros := k.blockMacros.trans h.blockMacros
  exprMacros  := k.exprMacros.trans h.exprMacros
  globals     := k.globals.trans h.globals
  functions   := k.functions ∘ h.functions
  vars        := k.vars ∘ h.vars
  lists       := k.lists ∘ h.lists

theorem addVariable : s.Extends (s.addVariable locals name) := by
  unfold Symbols.addVariable
  split
  · exact refl s
  · exact { refl s with vars := fun h => Std.TreeMap.mem_insert.mpr (.inr h) }

theorem putList {data : List String} : s.Extends (s.putList name data) :=
  { refl s with lists := fun h => Std.TreeMap.mem_insert.mpr (.inr h) }

theorem addList : s.Extends (s.addList name) := by
  unfold Symbols.addList
  split
  · exact refl s
  · exact putList

theorem putLocal {function : String} : s.Extends (s.putLocal function name) :=
  { refl s with vars := fun h => Std.TreeMap.mem_insert.mpr (.inr h) }

theorem addMentions {mentions : List Mention} : s.Extends (s.addMentions locals mentions) := by
  unfold Symbols.addMentions
  induction mentions generalizing s
  case nil => exact refl s
  case cons m ms hi =>
    refine trans ?_ hi
    cases m
    case ownLocal => exact refl s
    case scalar => exact addVariable
    case list => exact addList

theorem putLocals {function : String} {names : List Name} :
    s.Extends (names.foldl (fun s n => s.putLocal function n) s) := by
  induction names generalizing s
  case nil => exact refl s
  case cons n ns hi => exact putLocal.trans hi

end Extends

theorem mem_vars_putLocals {function : String} {names : List Name} {n : Name} (hn : n ∈ names) :
    localName function n.text ∈ (names.foldl (fun s n => s.putLocal function n) s).vars := by
  induction names generalizing s
  case nil => contradiction
  case cons m ms hi =>
    cases List.mem_cons.mp hn
    case inl he =>
      apply (Extends.putLocals (s := s.putLocal function m)).vars
      simp [putLocal, he]
    case inr hn => exact hi hn

theorem mem_filterMap_localName? {mentions : List Mention} {n : Name} :
    n ∈ mentions.filterMap Mention.localName? ↔ .ownLocal n ∈ mentions := by
  refine ⟨fun h => ?_, fun h => List.mem_filterMap.mpr ⟨_, h, rfl⟩⟩
  obtain ⟨a, ha, he⟩ := List.mem_filterMap.mp h
  cases a <;> simp_all [Mention.localName?]

-- The names that a body mentions as local variables.
theorem mem_locals {mentions : List Mention} {n : String} :
    n ∈ Mention.locals mentions ↔ ∃ m : Name, .ownLocal m ∈ mentions ∧ m.text = n := by
  simp only [Mention.locals, List.mem_eraseDups, List.mem_map, mem_filterMap_localName?]

-- A function has the name that it is found by, no parameter twice, and variables for its locals.
def Proper (s : Symbols) : Prop :=
  ∀ (n : String) (f : Function), s.functions[n]? = some f →
    f.name.text = n ∧ (f.params.map (·.text)).Nodup ∧ ∀ x ∈ f.locals, localName n x ∈ s.vars

theorem functions_addMentions {mentions : List Mention} :
    (s.addMentions locals mentions).functions = s.functions := by
  unfold addMentions
  induction mentions generalizing s
  case nil => rfl
  case cons m ms hi =>
    rw [List.foldl_cons, hi]
    cases m
    case ownLocal => rfl
    case scalar => simp only [Mention.declare, addVariable, apply_ite functions, ite_self]
    case list => simp only [Mention.declare, addList, apply_ite functions, ite_self]

theorem functions_putLocals {function : String} {names : List Name} :
    (names.foldl (fun s n => s.putLocal function n) s).functions = s.functions := by
  induction names generalizing s
  case nil => rfl
  case cons n ns hi => exact hi

theorem nodup_of_repeated? {seen : List String} (h : repeated? seen params = none) :
    (params.map (·.text)).Nodup ∧ ∀ p ∈ params, p.text ∉ seen := by
  induction params generalizing seen
  case nil => simp
  case cons p ps hi =>
    simp only [repeated?] at h
    split at h
    · contradiction
    · rename_i hp
      have ⟨hn, hs⟩ := hi h
      refine ⟨List.nodup_cons.mpr ⟨fun hm => ?_, hn⟩, fun q hq => ?_⟩
      · have ⟨q, hq, he⟩ := List.mem_map.mp hm
        exact hs q hq (by simp [he])
      · cases List.mem_cons.mp hq
        case inl he => simpa [he] using hp
        case inr hq => exact fun hm => hs q hq (List.mem_cons_of_mem _ hm)

-- What it takes to declare a function, and what comes of it.
structure Adds (name : Name) (params : List Name) (body : List Stmt) (warp : Bool)
    (s t : Symbols) : Prop where
  grows     : s.Extends t
  distinct  : (params.map (·.text)).Nodup
  functions : t.functions = s.functions.insert name.text
    ⟨name, warp, params, Mention.locals (Mention.all s.blockMacros body), none⟩
  locals    : ∀ n, .ownLocal n ∈ Mention.all s.blockMacros body →
    localName name.text n.text ∈ t.vars

theorem adds_of_addFunction (h : s.addFunction name params body warp = .ok t) :
    Adds name params body warp s t := by
  unfold addFunction at h
  split at h
  · contradiction
  rename_i hc
  split at h
  · contradiction
  rename_i hp
  obtain rfl := Except.ok.inj h
  let mentions := Mention.all s.blockMacros body
  let s' := (mentions.filterMap Mention.localName?).foldl (fun s n => s.putLocal name.text n) s
  have he : s.Extends (s'.addMentions (Mention.locals mentions) mentions) :=
    Extends.putLocals.trans Extends.addMentions
  have hf : (s'.addMentions (Mention.locals mentions) mentions).functions = s.functions := by
    rw [functions_addMentions, functions_putLocals]
  refine ⟨{ he with functions := fun {n f} hn => ?_ }, (nodup_of_repeated? hp).1, ?_, ?_⟩
  · -- The name of the function was free, so none is replaced.
    have hne : name.text ≠ n := by
      intro he
      exact hc (he ▸ Std.TreeMap.contains_eq_isSome_getElem?.trans (by simp [hn]))
    simp only [Std.TreeMap.getElem?_insert, Std.LawfulEqCmp.compare_eq_iff_eq, hne, if_false]
    exact he.functions hn
  · exact congrArg (Std.TreeMap.insert · _ _) hf
  · intro n hn
    refine Extends.addMentions.vars (mem_vars_putLocals ?_)
    exact List.mem_filterMap.mpr ⟨_, hn, rfl⟩

theorem Adds.proper (h : Adds name params body warp s t) (hs : s.Proper) : t.Proper := by
  intro n f hf
  rw [h.functions, Std.TreeMap.getElem?_insert] at hf
  split at hf
  · rename_i he
    obtain rfl := Option.some.inj hf
    obtain rfl : name.text = n := by simpa using he
    refine ⟨rfl, h.distinct, fun x hx => ?_⟩
    have ⟨m, hm, he⟩ := mem_locals.mp hx
    exact he ▸ h.locals m hm
  · have ⟨hn, hp, hl⟩ := hs n f hf
    exact ⟨hn, hp, fun x hx => h.grows.vars (hl x hx)⟩

end Symbols

namespace Collection

variable {source : FileSource} {root : Path} {c c' : Collection} {d : Decl} {name : Name}

open Symbols

theorem symbols_note {storage : Storage} (h : c.note name storage = .ok c') :
    c'.symbols = c.symbols := by
  unfold note at h
  split at h
  · contradiction
  · exact Except.ok.inj h ▸ rfl

theorem symbols_noteFilled (h : c.noteFilled name = .ok c') : c'.symbols = c.symbols := by
  simp only [noteFilled, bind_eq_ok] at h
  have ⟨c₁, hn, h⟩ := h
  split at h
  · contradiction
  · exact pure_eq_ok.mp h ▸ symbols_note hn

theorem symbols_noted {storage : Storage} {f : Symbols → Symbols}
    (h : (do return (← c.note name storage).update f) = .ok c') : c'.symbols = f c.symbols := by
  simp only [bind_eq_ok, pure_eq_ok] at h
  obtain ⟨_, hn, rfl⟩ := h
  exact congrArg f (symbols_note hn)

-- All other declarations leave the functions alone.
def Keeps (s t : Symbols) : Prop :=
  s.Extends t ∧ t.functions = s.functions

theorem Keeps.refl (s : Symbols) : Keeps s s := ⟨.refl s, rfl⟩

theorem Keeps.trans {s t u : Symbols} (h : Keeps s t) (k : Keeps t u) : Keeps s u :=
  ⟨h.1.trans k.1, k.2.trans h.2⟩

theorem Keeps.addVariable {s : Symbols} {locals : List String} :
    Keeps s (s.addVariable locals name) :=
  ⟨.addVariable, by simp only [Symbols.addVariable, apply_ite functions, ite_self]⟩

theorem Keeps.addList {s : Symbols} : Keeps s (s.addList name) :=
  ⟨.addList, by simp only [Symbols.addList, apply_ite functions, ite_self]⟩

theorem Keeps.addMentions {s : Symbols} {locals : List String} {mentions : List Mention} :
    Keeps s (s.addMentions locals mentions) :=
  ⟨.addMentions, functions_addMentions⟩

theorem keeps_foldlM {α : Type} {f : Collection → α → Except Diagnostic Collection} {as : List α}
    (hf : ∀ a ∈ as, ∀ c c', f c a = .ok c' → Keeps c.symbols c'.symbols)
    (h : as.foldlM f c = .ok c') : Keeps c.symbols c'.symbols :=
  foldlM_rel (r := fun c c' => Keeps c.symbols c'.symbols) (fun c => .refl c.symbols) .trans hf h

theorem declare_cases (h : declare source root c d = .ok c') :
    (∃ name params body warp, d = .function name params body warp ∧
      Adds name params body warp c.symbols c'.symbols) ∨ Keeps c.symbols c'.symbols := by
  cases d
  case function name params body warp =>
    simp only [declare, bind_eq_ok, pure_eq_ok] at h
    have ⟨_, ha, h⟩ := h
    exact .inl ⟨name, params, body, warp, rfl, h ▸ adds_of_addFunction ha⟩
  case costumes tokens =>
    refine .inr (keeps_foldlM (fun token _ t t' ht => ?_) h)
    simp only [bind_eq_ok, pure_eq_ok] at ht
    obtain ⟨_, _, rfl⟩ := ht
    exact ⟨{ Extends.refl t.symbols with }, rfl⟩
  case vars names =>
    exact .inr (keeps_foldlM (fun _ _ _ _ ht => symbols_noted ht ▸ Keeps.addVariable) h)
  case lists names =>
    exact .inr (keeps_foldlM (fun _ _ _ _ ht => symbols_noted ht ▸ Keeps.addList) h)
  case dataList name token | imageList name token format =>
    simp only [declare, bind_eq_ok, pure_eq_ok] at h
    have ⟨_, hn, _, _, h⟩ := h
    exact .inr (h ▸ symbols_noteFilled hn ▸ ⟨Extends.putList, rfl⟩)
  case event s event body =>
    exact .inr (Except.ok.inj h ▸ Keeps.addMentions)
  case docComment token =>
    simp only [declare, bind_eq_ok, pure_eq_ok] at h
    have ⟨_, _, h⟩ := h
    exact .inr (h ▸ ⟨{ Extends.refl c.symbols with }, rfl⟩)
  case exprMacro | blockMacro => exact .inr (Except.ok.inj h ▸ .refl _)

theorem declare_extends (h : declare source root c d = .ok c') : c.symbols.Extends c'.symbols := by
  cases declare_cases h
  case inl h =>
    have ⟨_, _, _, _, _, h⟩ := h
    exact h.grows
  case inr h => exact h.1

theorem declare_proper (h : declare source root c d = .ok c') (hp : c.symbols.Proper) :
    c'.symbols.Proper := by
  cases declare_cases h
  case inl h =>
    have ⟨_, _, _, _, _, h⟩ := h
    exact h.proper hp
  case inr h =>
    intro n f hf
    have ⟨hn, hd, hl⟩ := hp n f (h.2 ▸ hf)
    exact ⟨hn, hd, fun x hx => h.1.vars (hl x hx)⟩

end Collection

namespace Symbols

variable {source : FileSource} {root : Path} {globals : Globals} {tree : SpriteTree} {s t : Symbols}

-- In the first round, a macro comes to be among those of its kind if its name is free there.
theorem addMacro_cases {d : Decl} (h : s.addMacro d = .ok t) :
    (∃ name params body, d = .exprMacro name params body ∧ name.text ∉ s.exprMacros ∧ t = { s with
      exprMacros := s.exprMacros.insert name.text ⟨name, params.map (·.text), body⟩ }) ∨
    (∃ name params body, d = .blockMacro name params body ∧ name.text ∉ s.blockMacros ∧ t = { s with
      blockMacros := s.blockMacros.insert name.text ⟨name, params.map (·.text), body⟩ }) ∨
    t = s := by
  cases d
  case exprMacro name params body =>
    simp only [addMacro] at h
    split at h
    case isTrue => contradiction
    case isFalse hc => exact .inl ⟨name, params, body, rfl, by simpa using hc, by cases h; rfl⟩
  case blockMacro name params body =>
    simp only [addMacro] at h
    split at h
    case isTrue => contradiction
    case isFalse hc =>
      exact .inr (.inl ⟨name, params, body, rfl, by simpa using hc, by cases h; rfl⟩)
  all_goals exact .inr (.inr (Except.ok.inj h).symm)

theorem addMacro_keeps {d : Decl} (h : s.addMacro d = .ok t) :
    t.globals = s.globals ∧ t.functions = s.functions ∧ t.vars = s.vars ∧ t.lists = s.lists := by
  obtain ⟨_, _, _, _, _, rfl⟩ | ⟨_, _, _, _, _, rfl⟩ | rfl := addMacro_cases h
  all_goals exact ⟨rfl, rfl, rfl, rfl⟩

-- All macros are those of the tree.
structure MacrosOf (tree : SpriteTree) (s : Symbols) : Prop where
  exprs  : ∀ {n : String} {m : ExprMacro}, s.exprMacros[n]? = some m →
    ∃ name params, .exprMacro name params m.body ∈ tree
  blocks : ∀ {n : String} {m : BlockMacro}, s.blockMacros[n]? = some m →
    ∃ name params, .blockMacro name params m.body ∈ tree

theorem macrosOf_initial : (initial globals).MacrosOf tree where
  exprs h := by simp [initial] at h
  blocks h := by simp [initial] at h

theorem MacrosOf.addMacro {d : Decl} (hs : s.MacrosOf tree) (hd : d ∈ tree)
    (h : s.addMacro d = .ok t) : t.MacrosOf tree := by
  obtain ⟨_, _, _, rfl, _, rfl⟩ | ⟨_, _, _, rfl, _, rfl⟩ | rfl := addMacro_cases h
  · exact ⟨forall_getElem?_insert (P := fun _ (m : ExprMacro) => ∃ name params,
      .exprMacro name params m.body ∈ tree) hs.exprs ⟨_, _, hd⟩, hs.blocks⟩
  · exact ⟨hs.exprs, forall_getElem?_insert (P := fun _ (m : BlockMacro) => ∃ name params,
      .blockMacro name params m.body ∈ tree) hs.blocks ⟨_, _, hd⟩⟩
  · exact hs

theorem locals_of_predefined : ∀ f ∈ Function.allPredefined, f.locals = [] := by
  decide

theorem initial_proper : (initial globals).Proper := by
  have hd : ∀ f ∈ Function.allPredefined, (f.params.map (·.text)).Nodup := by decide
  intro n f hf
  have ⟨hm, hn⟩ := of_getElem?_table (fun f : Function => f.name.text) hf
  exact ⟨hn, hd f hm, by simp [locals_of_predefined f hm]⟩

-- The names of a tree are collected in two rounds, the first of which declares the macros.
theorem ofTree_rounds (h : ofTree source root globals tree = .ok s) :
    ∃ (m : Symbols) (c : Collection), m.Proper ∧ m.globals = globals ∧ m.MacrosOf tree ∧
      tree.foldlM (Collection.declare source root) ⟨m, []⟩ = .ok c ∧ c.symbols = s := by
  simp only [ofTree, bind_eq_ok, pure_eq_ok] at h
  have ⟨m, hm, c, hc, he⟩ := h
  have ⟨hp, hg⟩ : m.Proper ∧ m.globals = globals := by
    refine foldlM_induction (P := fun s => s.Proper ∧ s.globals = globals) ?_ hm
      ⟨initial_proper, rfl⟩
    intro d _ t t' ht ⟨hp, hg⟩
    have ⟨hg', hf, hv, _⟩ := addMacro_keeps ht
    refine ⟨fun n f hn => ?_, hg'.trans hg⟩
    rw [hf] at hn
    rw [hv]
    exact hp n f hn
  have hm : m.MacrosOf tree :=
    foldlM_induction (fun _ hd _ _ hs hm => hm.addMacro hd hs) hm macrosOf_initial
  exact ⟨m, c, hp, hg, hm, hc, he⟩

theorem ofTree_proper (h : ofTree source root globals tree = .ok s) : s.Proper := by
  have ⟨m, c, hm, _, _, hc, he⟩ := ofTree_rounds h
  exact he ▸ foldlM_induction (P := (·.symbols.Proper))
    (fun _ _ _ _ hd hp => Collection.declare_proper hd hp) hc hm

theorem ofTree_globals (h : ofTree source root globals tree = .ok s) : s.globals = globals := by
  have ⟨m, c, _, hg, _, hc, he⟩ := ofTree_rounds h
  exact he ▸ foldlM_induction (P := (·.symbols.globals = globals))
    (fun _ _ _ _ hd hp => (Collection.declare_extends hd).globals.trans hp) hc hg

theorem ofTree_macros (h : ofTree source root globals tree = .ok s) : s.MacrosOf tree := by
  have ⟨m, c, _, _, hm, hc, he⟩ := ofTree_rounds h
  have hk : c.symbols.blockMacros = m.blockMacros ∧ c.symbols.exprMacros = m.exprMacros :=
    foldlM_induction (P := fun c => c.symbols.blockMacros = m.blockMacros ∧
      c.symbols.exprMacros = m.exprMacros) (fun _ _ _ _ hd ⟨hb, hx⟩ =>
        have hd := Collection.declare_extends hd
        ⟨hd.blockMacros.trans hb, hd.exprMacros.trans hx⟩) hc ⟨rfl, rfl⟩
  exact he ▸ ⟨fun hn => hm.exprs (hk.2 ▸ hn), fun hn => hm.blocks (hk.1 ▸ hn)⟩

-- A function of the tree is found with all that it is declared with.
theorem ofTree_function {name : Name} {params : List Name} {body : List Stmt} {warp : Bool}
    (h : ofTree source root globals tree = .ok s) (hd : .function name params body warp ∈ tree) :
    (params.map (·.text)).Nodup ∧ s.functions[name.text]? =
      some ⟨name, warp, params, Mention.locals (Mention.all s.blockMacros body), none⟩ := by
  have ⟨m, c, _, _, _, hc, he⟩ := ofTree_rounds h
  have ⟨t, t', _, ha, ht⟩ := foldlM_step (r := fun c c' => c.symbols.Extends c'.symbols)
    (fun c => .refl c.symbols) .trans Collection.declare_extends hc hd
  simp only [Collection.declare, bind_eq_ok, pure_eq_ok] at ha
  have ⟨u, hu, ha⟩ := ha
  have hu := adds_of_addFunction hu
  subst he ha
  refine ⟨hu.distinct, ht.functions ?_⟩
  rw [hu.functions, Std.TreeMap.getElem?_insert_self, ht.blockMacros, hu.grows.blockMacros]

end Symbols

end BlockLang
