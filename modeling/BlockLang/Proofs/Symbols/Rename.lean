import BlockLang.Proofs.Symbols.Tables
import BlockLang.Proofs.Tree.Rename

/-!
A sprite whose function has another name for one of its local variables declares the same names but
for this one.
-/

namespace BlockLang

-- A function with `y` for its local variable `x`.
def Function.renameLocal (f x y : String) (g : Function) : Function :=
  if g.name.text = f then { g with locals := g.locals.map (Function.update id x y) } else g

-- The variable `k` of a table is named `k'` in another one, which is the same otherwise.
structure Variable.Renamed (k k' : String) (t t' : Std.TreeMap String Variable) : Prop where
  others : ∀ n, n ≠ k → n ≠ k' → t'[n]? = t[n]?
  old    : t'[k]? = none
  new    : t'[k']? = t[k]?.map fun v => { v with name := k' }
  free   : t[k']? = none

-- The names of a sprite, and those once `x` in the function `f` is named `y`.
structure Symbols.RenamedLocal (f x y : String) (s s' : Symbols) : Prop where
  exprMacros  : s'.exprMacros = s.exprMacros
  blockMacros : s'.blockMacros = s.blockMacros
  lists       : s'.lists = s.lists
  costumes    : s'.costumes = s.costumes
  comment     : s'.comment = s.comment
  globals     : s'.globals = s.globals
  functions   : ∀ n : String, s'.functions[n]? = s.functions[n]?.map (Function.renameLocal f x y)
  vars        : Variable.Renamed (localName f x) (localName f y) s.vars s'.vars

namespace Variable.Renamed

variable {k k' n : String} {t t' : Std.TreeMap String Variable}

theorem mem_iff (h : Renamed k k' t t') (hk : n ≠ k) (hk' : n ≠ k') : n ∈ t' ↔ n ∈ t := by
  rw [Std.TreeMap.mem_iff_isSome_getElem?, Std.TreeMap.mem_iff_isSome_getElem?, h.others n hk hk']

theorem insertOther (h : Renamed k k' t t') (hk : n ≠ k) (hk' : n ≠ k') {v : Variable} :
    Renamed k k' (t.insert n v) (t'.insert n v) where
  others m hm hm' := by
    simp only [Std.TreeMap.getElem?_insert, h.others m hm hm']
  old := by simpa [Std.TreeMap.getElem?_insert, hk] using h.old
  new := by simpa [Std.TreeMap.getElem?_insert, hk, hk'] using h.new
  free := by simpa [Std.TreeMap.getElem?_insert, hk'] using h.free

theorem insertOwn (h : Renamed k k' t t') (hk : k ≠ k') (span : Span) :
    Renamed k k' (t.insert k ⟨k, span⟩) (t'.insert k' ⟨k', span⟩) where
  others m hm hm' := by
    simpa [Std.TreeMap.getElem?_insert, hm.symm, hm'.symm] using h.others m hm hm'
  old := by simpa [Std.TreeMap.getElem?_insert, hk.symm] using h.old
  new := by simp
  free := by simpa [Std.TreeMap.getElem?_insert, hk] using h.free

end Variable.Renamed

-- Only local variables of the same function can have the same full name.
theorem localName_eq_iff {f f' x x' : String} (hf : isLocalName f' = false)
    (hx : isLocalName x' = false) : localName f x = localName f' x' ↔ f = f' ∧ x = x' := by
  refine ⟨fun h => ?_, fun ⟨hf, hx⟩ => hf ▸ hx ▸ rfl⟩
  obtain rfl := localName_inj hf hx h
  simpa [localName, ← String.toList_inj, toString] using h

theorem ne_localName {f n x : String} (hn : isLocalName n = false) : n ≠ localName f x := by
  rintro rfl
  simp [isLocalName_localName] at hn

namespace Mention

-- Once names are replaced by `r`, a mention declares the same as before: nothing but what is named
-- as before, as what has another name is a local variable, before and after.
def Settled (locals locals' : List String) (r : String → String) : Mention → Prop
  | ownLocal _ => True
  | scalar n => r n.text = n.text ∧ (n.text ∈ locals' ↔ n.text ∈ locals) ∨
      n.text ∈ locals ∧ r n.text ∈ locals'
  | list n => r n.text = n.text

theorem rename_id : rename id = id := by
  funext a
  cases a <;> rfl

theorem filterMap_rename {mentions : List Mention} {r : String → String} :
    (mentions.map (rename r)).filterMap localName? =
      (mentions.filterMap localName?).map (Name.rename r) := by
  rw [List.filterMap_map, List.map_filterMap]
  congr 1
  funext a
  cases a <;> rfl

theorem settled_id {locals : List String} (a : Mention) : a.Settled locals locals id := by
  cases a
  case ownLocal => trivial
  case scalar => exact .inl ⟨rfl, Iff.rfl⟩
  case list => rfl

end Mention

theorem Name.rename_eq_self {r : String → String} {n : Name} (h : r n.text = n.text) :
    n.rename r = n := by
  rw [Name.rename, h]

namespace Symbols

variable {f x y : String} {s s' t : Symbols} {name n : Name} {locals locals' : List String}
  {r : String → String} {mentions : List Mention} {params : List Name} {body body' : List Stmt}
  {warp : Bool}

theorem addVariable_eq_self (h : n.text ∈ locals) : s.addVariable locals n = s := by
  rw [addVariable, if_pos (by simp [h])]

namespace RenamedLocal

theorem mem_vars (h : s.RenamedLocal f x y s') {k : String} (hk : isLocalName k = false) :
    k ∈ s'.vars ↔ k ∈ s.vars :=
  h.vars.mem_iff (ne_localName hk) (ne_localName hk)

theorem contains_vars (h : s.RenamedLocal f x y s') {k : String} (hk : isLocalName k = false) :
    s'.vars.contains k = s.vars.contains k := by
  rw [Bool.eq_iff_iff, Std.TreeMap.contains_iff_mem, Std.TreeMap.contains_iff_mem, h.mem_vars hk]

theorem addVariable (h : s.RenamedLocal f x y s') (hn : isLocalName n.text = false)
    (hl : n.text ∈ locals' ↔ n.text ∈ locals) :
    (s.addVariable locals n).RenamedLocal f x y (s'.addVariable locals' n) := by
  have hl : locals'.contains n.text = locals.contains n.text := by simpa using hl
  have hc : (s'.globals.vars.contains n.text || locals'.contains n.text ||
      s'.vars.contains n.text || s'.lists.contains n.text) =
      (s.globals.vars.contains n.text || locals.contains n.text ||
        s.vars.contains n.text || s.lists.contains n.text) := by
    rw [h.globals, h.lists, h.contains_vars hn, hl]
  rw [Symbols.addVariable, Symbols.addVariable, hc]
  split
  case isTrue => exact h
  case isFalse =>
    exact { h with vars := h.vars.insertOther (ne_localName hn) (ne_localName hn) }

theorem putList (h : s.RenamedLocal f x y s') {data : List String} :
    (s.putList n data).RenamedLocal f x y (s'.putList n data) :=
  { h with lists := congrArg (fun t => t.insert n.text ⟨n.text, n.span, data⟩) h.lists }

theorem addList (h : s.RenamedLocal f x y s') (hn : isLocalName n.text = false) :
    (s.addList n).RenamedLocal f x y (s'.addList n) := by
  have hc : (s'.globals.lists.contains n.text || s'.lists.contains n.text ||
      s'.vars.contains n.text) =
      (s.globals.lists.contains n.text || s.lists.contains n.text || s.vars.contains n.text) := by
    rw [h.globals, h.lists, h.contains_vars hn]
  have hp : (s.putList n []).RenamedLocal f x y (s'.putList n []) := h.putList
  rw [Symbols.addList, Symbols.addList, hc]
  split
  case isTrue => exact h
  case isFalse => exact hp

theorem addMentions (h : s.RenamedLocal f x y s')
    (hm : ∀ a ∈ mentions, isLocalName a.name.text = false ∧ a.Settled locals locals' r) :
    (s.addMentions locals mentions).RenamedLocal f x y
      (s'.addMentions locals' (mentions.map (Mention.rename r))) := by
  unfold Symbols.addMentions
  induction mentions generalizing s s'
  case nil => exact h
  case cons a as hi =>
    obtain ⟨⟨hb, ha⟩, has⟩ := List.forall_mem_cons.mp hm
    refine hi ?_ has
    cases a
    case ownLocal => exact h
    case list n =>
      have he : n.rename r = n := Name.rename_eq_self ha
      simp only [Mention.rename, he]
      exact h.addList hb
    case scalar n =>
      obtain ⟨hr, hl⟩ | ⟨hl, hl'⟩ := ha
      · simp only [Mention.rename, Name.rename_eq_self hr]
        exact h.addVariable hb hl
      · simp only [Mention.rename, Mention.declare, addVariable_eq_self hl,
          addVariable_eq_self (n := n.rename r) hl']
        exact h

-- A local variable either is the one that gets another name, or is none of the two.
theorem putLocals (h : s.RenamedLocal f x y s') (hxy : localName f x ≠ localName f y) {g : String}
    {ns : List Name} (hn : ∀ n ∈ ns, r n.text = n.text ∧ localName g n.text ≠ localName f x ∧
      localName g n.text ≠ localName f y ∨
      localName g n.text = localName f x ∧ localName g (r n.text) = localName f y) :
    (ns.foldl (fun s n => s.putLocal g n) s).RenamedLocal f x y
      ((ns.map (Name.rename r)).foldl (fun s n => s.putLocal g n) s') := by
  induction ns generalizing s s'
  case nil => exact h
  case cons n ns hi =>
    obtain ⟨hn, hns⟩ := List.forall_mem_cons.mp hn
    refine hi ?_ hns
    obtain ⟨hr, hx, hy⟩ | ⟨hx, hy⟩ := hn
    · rw [Name.rename_eq_self hr]
      exact { h with vars := h.vars.insertOther hx hy }
    · have hv := h.vars.insertOwn hxy n.span
      rw [← hx, ← hy] at hv
      exact { h with vars := hx ▸ hy ▸ hv }

theorem addFunction (h : s.RenamedLocal f x y s') (hxy : localName f x ≠ localName f y)
    (hb : Mention.all s.blockMacros body' =
      (Mention.all s.blockMacros body).map (Mention.rename r))
    (hf : Function.renameLocal f x y
        ⟨name, warp, params, Mention.locals (Mention.all s.blockMacros body), none⟩ =
      ⟨name, warp, params, Mention.locals (Mention.all s.blockMacros body'), none⟩)
    (hm : ∀ a ∈ Mention.all s.blockMacros body, isLocalName a.name.text = false ∧
      a.Settled (Mention.locals (Mention.all s.blockMacros body))
        (Mention.locals (Mention.all s.blockMacros body')) r)
    (hn : ∀ n, .ownLocal n ∈ Mention.all s.blockMacros body →
      r n.text = n.text ∧ localName name.text n.text ≠ localName f x ∧
        localName name.text n.text ≠ localName f y ∨
      localName name.text n.text = localName f x ∧
        localName name.text (r n.text) = localName f y)
    (ht : s.addFunction name params body warp = .ok t) :
    ∃ t', s'.addFunction name params body' warp = .ok t' ∧ t.RenamedLocal f x y t' := by
  have hc : s'.functions.contains name.text = s.functions.contains name.text := by
    rw [Std.TreeMap.contains_eq_isSome_getElem?, Std.TreeMap.contains_eq_isSome_getElem?,
      h.functions, Option.isSome_map]
  unfold Symbols.addFunction at ht ⊢
  rw [hc, h.blockMacros]
  split at ht
  case isTrue => contradiction
  case isFalse hd =>
    rw [if_neg hd]
    split at ht
    case h_1 => contradiction
    case h_2 =>
      obtain rfl := Except.ok.inj ht
      have hn : ∀ n ∈ (Mention.all s.blockMacros body).filterMap Mention.localName?, _ :=
        fun n hm => hn n (Symbols.mem_filterMap_localName?.mp hm)
      have hs := (h.putLocals hxy hn).addMentions hm
      rw [← Mention.filterMap_rename, ← hb] at hs
      refine ⟨_, rfl, { hs with functions := fun n => ?_ }⟩
      have hf' := hs.functions n
      simp only [Std.TreeMap.getElem?_insert]
      split
      · rw [Option.map_some, hf]
      · exact hf'

end RenamedLocal

end Symbols

theorem Function.renameLocal_eq_self {f x y : String} {g : Function} (h : g.locals = []) :
    g.renameLocal f x y = g := by
  rw [renameLocal, h, List.map_nil, ← h, ite_self]

theorem update_injOn {x y a b : String} (ha : a ≠ y) (hb : b ≠ y)
    (h : Function.update id x y a = Function.update id x y b) : a = b := by
  simp only [Function.update_apply, id] at h
  split_ifs at h <;> simp_all

namespace Mention

variable {mentions : List Mention} {r : String → String} {x y : String}

theorem locals_rename (hr : ∀ a ∈ mentions, ∀ b ∈ mentions,
    r a.name.text = r b.name.text → a.name.text = b.name.text) :
    locals (mentions.map (rename r)) = (locals mentions).map r := by
  rw [locals, filterMap_rename, List.map_map, locals, ← eraseDups_map, List.map_map]
  · rfl
  intro a ha b hb he
  obtain ⟨n, hn, rfl⟩ := List.mem_map.mp ha
  obtain ⟨n', hn', rfl⟩ := List.mem_map.mp hb
  exact hr _ (Symbols.mem_filterMap_localName?.mp hn) _ (Symbols.mem_filterMap_localName?.mp hn') he

-- A body where `y` can take the place of the local variable `x`, which is not used as a list.
structure Allow (x y : String) (mentions : List Mention) : Prop where
  own   : x ∈ locals mentions
  fresh : ∀ a ∈ mentions, a.name.text ≠ y
  list  : ∀ n, .list n ∈ mentions → n.text ≠ x

theorem Allow.locals_rename (h : Allow x y mentions) :
    locals (mentions.map (rename (Function.update id x y))) =
      (locals mentions).map (Function.update id x y) :=
  Mention.locals_rename fun a ha b hb => update_injOn (h.fresh a ha) (h.fresh b hb)

theorem Allow.settled (h : Allow x y mentions) {a : Mention} (ha : a ∈ mentions) :
    a.Settled (locals mentions) (locals (mentions.map (rename (Function.update id x y))))
      (Function.update id x y) := by
  have hy := h.fresh a ha
  cases a
  case ownLocal => trivial
  case list n => exact Function.update_of_ne (h.list n ha) ..
  case scalar n =>
    by_cases hx : n.text = x
    · refine .inr ⟨hx ▸ h.own, ?_⟩
      rw [h.locals_rename]
      exact List.mem_map_of_mem (hx ▸ h.own)
    · have hn : Function.update id x y n.text = n.text := Function.update_of_ne hx ..
      refine .inl ⟨hn, ?_⟩
      rw [h.locals_rename, List.mem_map]
      refine ⟨fun ⟨k, hk, he⟩ => ?_, fun hk => ⟨_, hk, hn⟩⟩
      obtain ⟨a', ha', rfl⟩ := Symbols.mem_locals.mp hk
      have he : a'.text = n.text := update_injOn (h.fresh _ ha') hy (he.trans hn.symm)
      exact he ▸ hk

end Mention

-- A tree where a function is declared for which `y` can take the place of the local variable `x`.
structure SpriteTree.AllowsLocal (macros : Std.TreeMap String BlockMacro) (f x y : String)
    (tree : SpriteTree) : Prop where
  names  : tree.Bare macros
  bare   : isLocalName f = false ∧ isLocalName x = false ∧ isLocalName y = false
  differ : x ≠ y
  allow  : ∀ {n params body warp}, .function n params body warp ∈ tree → n.text = f →
    Mention.Allow x y (Mention.all macros body)
  body   : ∀ {n params body warp}, .function n params body warp ∈ tree → n.text = f →
    Mention.all macros (Stmt.renameBody (Function.update id x y) body) =
      (Mention.all macros body).map (Mention.rename (Function.update id x y))

namespace SpriteTree.AllowsLocal

variable {macros : Std.TreeMap String BlockMacro} {f x y : String} {tree : SpriteTree}
  {s s' t : Symbols} {name : Name} {params : List Name} {body : List Stmt} {warp : Bool}

theorem localName_ne (h : tree.AllowsLocal macros f x y) : localName f x ≠ localName f y :=
  fun he => h.differ ((localName_eq_iff h.bare.1 h.bare.2.2).mp he).2

-- The local variable of no other function is meant, and no other one of the same function.
theorem localName_iff (h : tree.AllowsLocal macros f x y) {g n : String} :
    (localName g n = localName f x ↔ g = f ∧ n = x) ∧
      (localName g n = localName f y ↔ g = f ∧ n = y) :=
  ⟨localName_eq_iff h.bare.1 h.bare.2.1, localName_eq_iff h.bare.1 h.bare.2.2⟩

theorem addFunction (h : tree.AllowsLocal macros f x y)
    (hd : .function name params body warp ∈ tree) (hm : s.blockMacros = macros)
    (hs : s.RenamedLocal f x y s') (ht : s.addFunction name params body warp = .ok t) :
    ∃ t', s'.addFunction name params
        (if name.text = f then Stmt.renameBody (Function.update id x y) body else body) warp =
        .ok t' ∧ t.RenamedLocal f x y t' := by
  subst hm
  have hb : ∀ a ∈ Mention.all s.blockMacros body, isLocalName a.name.text = false :=
    h.names.mentions _ hd
  split
  case isTrue hf =>
    have ha := h.allow hd hf
    have he := h.body hd hf
    refine hs.addFunction h.localName_ne he ?_ (fun a hm => ⟨hb a hm, ?_⟩) (fun n hn => ?_) ht
    · rw [Function.renameLocal, if_pos hf, he, ha.locals_rename]
    · rw [he]
      exact ha.settled hm
    · by_cases hx : n.text = x
      · exact .inr ⟨by rw [hf, hx], by rw [hf, hx, Function.update_self]⟩
      · have hy : n.text ≠ y := ha.fresh _ hn
        exact .inl ⟨Function.update_of_ne hx .., mt (fun he => (h.localName_iff.1.mp he).2) hx,
          mt (fun he => (h.localName_iff.2.mp he).2) hy⟩
  case isFalse hf =>
    refine hs.addFunction (r := id) h.localName_ne ?_ ?_ (fun a hm => ⟨hb a hm, a.settled_id⟩)
      (fun n hn => .inl ⟨rfl, ?_, ?_⟩) ht
    · rw [Mention.rename_id, List.map_id]
    · exact if_neg hf
    · exact mt (fun he => (h.localName_iff.1.mp he).1) hf
    · exact mt (fun he => (h.localName_iff.2.mp he).1) hf

end SpriteTree.AllowsLocal

structure Collection.RenamedLocal (f x y : String) (c c' : Collection) : Prop where
  declared : c'.declared = c.declared
  symbols  : c.symbols.RenamedLocal f x y c'.symbols

namespace Collection

variable {source : FileSource} {root : Path} {f x y : String} {c c' t : Collection} {n : Name}
  {storage : Storage} {macros : Std.TreeMap String BlockMacro} {tree : SpriteTree} {d : Decl}

theorem RenamedLocal.note (h : c.RenamedLocal f x y c') (ht : c.note n storage = .ok t) :
    ∃ t', c'.note n storage = .ok t' ∧ t.RenamedLocal f x y t' := by
  unfold Collection.note at ht ⊢
  rw [h.declared]
  split at ht
  case isTrue => contradiction
  case isFalse hn =>
    obtain rfl := Except.ok.inj ht
    exact ⟨_, if_neg hn, rfl, h.symbols⟩

theorem RenamedLocal.noteFilled (h : c.RenamedLocal f x y c') (hn : isLocalName n.text = false)
    (ht : c.noteFilled n = .ok t) : ∃ t', c'.noteFilled n = .ok t' ∧ t.RenamedLocal f x y t' := by
  obtain ⟨u, hu, ht⟩ := bind_eq_ok.mp ht
  obtain ⟨u', hu', h⟩ := h.note hu
  split at ht
  case isTrue => contradiction
  case isFalse hc =>
    obtain rfl := pure_eq_ok.mp ht
    rw [← h.symbols.contains_vars hn, ← h.symbols.globals] at hc
    exact ⟨u', bind_eq_ok.mpr ⟨u', hu', if_neg hc⟩, h⟩

theorem RenamedLocal.update (h : c.RenamedLocal f x y c') {g : Symbols → Symbols}
    (hg : (g c.symbols).RenamedLocal f x y (g c'.symbols)) :
    (c.update g).RenamedLocal f x y (c'.update g) :=
  ⟨h.declared, hg⟩

theorem RenamedLocal.noted (h : c.RenamedLocal f x y c') {g : Symbols → Symbols}
    (hg : ∀ {s s'}, s.RenamedLocal f x y s' → (g s).RenamedLocal f x y (g s'))
    (ht : (do return (← c.note n storage).update g) = .ok t) :
    ∃ t', (do return (← c'.note n storage).update g) = .ok t' ∧ t.RenamedLocal f x y t' := by
  obtain ⟨u, hu, ht⟩ := bind_eq_ok.mp ht
  obtain rfl := pure_eq_ok.mp ht
  obtain ⟨u', hu', h⟩ := h.note hu
  exact ⟨_, bind_eq_ok.mpr ⟨u', hu', rfl⟩, h.update (hg h.symbols)⟩

theorem RenamedLocal.filled (h : c.RenamedLocal f x y c') (hn : isLocalName n.text = false)
    {data : Except Diagnostic (List String)}
    (ht : (do let c ← c.noteFilled n; let lines ← data
              return c.update (Symbols.putList n lines)) = .ok t) :
    ∃ t', (do let c ← c'.noteFilled n; let lines ← data
              return c.update (Symbols.putList n lines)) = .ok t' ∧ t.RenamedLocal f x y t' := by
  simp only [bind_eq_ok, pure_eq_ok] at ht ⊢
  obtain ⟨u, hu, lines, hl, rfl⟩ := ht
  obtain ⟨u', hu', h⟩ := h.noteFilled hn hu
  exact ⟨_, ⟨u', hu', lines, hl, rfl⟩, h.update h.symbols.putList⟩

-- What is declared stays the same but for the local variable.
theorem RenamedLocal.declare (hT : tree.AllowsLocal macros f x y) (hd : d ∈ tree)
    (hm : c.symbols.blockMacros = macros) (h : c.RenamedLocal f x y c')
    (ht : declare source root c d = .ok t) :
    ∃ t', declare source root c' (d.renameLocal f x y) = .ok t' ∧ t.RenamedLocal f x y t' := by
  cases d
  case costumes tokens =>
    refine foldlM_sim (fun token _ u u' v hu hv => ?_) h ht
    obtain ⟨more, hc, hv⟩ := bind_eq_ok.mp hv
    obtain rfl := pure_eq_ok.mp hv
    refine ⟨_, bind_eq_ok.mpr ⟨more, hc, rfl⟩, hu.update ?_⟩
    exact { hu.symbols with costumes := congrArg (· ++ more) hu.symbols.costumes }
  case vars ns =>
    have hb := hT.names.mentions _ hd
    refine foldlM_sim (fun n hn u u' v hu hv => ?_) h ht
    have hn : isLocalName n.text = false := hb _ (List.mem_map_of_mem hn)
    exact hu.noted (fun hs => hs.addVariable hn Iff.rfl) hv
  case lists ns =>
    have hb := hT.names.mentions _ hd
    refine foldlM_sim (fun n hn u u' v hu hv => ?_) h ht
    have hn : isLocalName n.text = false := hb _ (List.mem_map_of_mem hn)
    exact hu.noted (fun hs => hs.addList hn) hv
  case dataList n token | imageList n token format =>
    exact h.filled (hT.names.filled _ hd n rfl) ht
  case function name params body warp =>
    obtain ⟨s, hs, ht⟩ := bind_eq_ok.mp ht
    obtain rfl := pure_eq_ok.mp ht
    obtain ⟨s', hs', hr⟩ := hT.addFunction hd hm h.symbols hs
    exact ⟨_, bind_eq_ok.mpr ⟨s', hs', rfl⟩, h.declared, hr⟩
  case event span event body =>
    obtain rfl := Except.ok.inj ht
    refine ⟨_, rfl, h.update ?_⟩
    have ha : ∀ a ∈ Mention.all c.symbols.blockMacros body,
        isLocalName a.name.text = false ∧ a.Settled [] [] id :=
      fun a ha => ⟨hT.names.mentions _ hd a (hm ▸ ha), a.settled_id⟩
    have hs := h.symbols.addMentions ha
    rw [Mention.rename_id, List.map_id] at hs
    rw [h.symbols.blockMacros]
    exact hs
  case docComment token =>
    obtain ⟨comment, hc, ht⟩ := bind_eq_ok.mp ht
    obtain rfl := pure_eq_ok.mp ht
    refine ⟨_, bind_eq_ok.mpr ⟨comment, hc, rfl⟩, h.update ?_⟩
    exact { h.symbols with comment := rfl }
  case exprMacro | blockMacro =>
    obtain rfl := Except.ok.inj ht
    exact ⟨_, rfl, h⟩

end Collection

theorem Decl.addMacro_renameLocal {f x y : String} {s : Symbols} {d : Decl} :
    s.addMacro (d.renameLocal f x y) = s.addMacro d := by
  cases d <;> rfl

namespace Symbols

variable {source : FileSource} {root : Path} {globals : Globals} {tree : SpriteTree} {s : Symbols}
  {f x y : String}

-- Before anything has been declared, there are no local variables.
theorem renamedLocal_self (hv : s.vars = {})
    (hf : s.functions = (initial globals).functions) : s.RenamedLocal f x y s where
  exprMacros := rfl
  blockMacros := rfl
  lists := rfl
  costumes := rfl
  comment := rfl
  globals := rfl
  functions n := by
    cases hn : s.functions[n]?
    case none => rfl
    case some g =>
      have hm := (of_getElem?_table (fun f : Function => f.name.text) (hf ▸ hn)).1
      rw [Option.map_some, Function.renameLocal_eq_self (locals_of_predefined g hm)]
  vars := by
    rw [hv]
    exact ⟨fun _ _ _ => rfl, by simp, by simp, by simp⟩

-- The tree declares the same names with `y` as another name of the local variable `x`.
theorem ofTree_renameLocal (h : ofTree source root globals tree = .ok s)
    (hT : tree.AllowsLocal s.blockMacros f x y) :
    ∃ s', ofTree source root globals (tree.renameLocal f x y) = .ok s' ∧
      s.RenamedLocal f x y s' := by
  simp only [ofTree, bind_eq_ok, pure_eq_ok] at h
  obtain ⟨m, hm, c, hc, rfl⟩ := h
  have hm' : (tree.renameLocal f x y).foldlM addMacro (.initial globals) = .ok m := by
    simpa only [SpriteTree.renameLocal, List.foldlM_map, Decl.addMacro_renameLocal] using hm
  have hi : m.vars = {} ∧ m.functions = (initial globals).functions := by
    refine foldlM_induction (P := fun s : Symbols => s.vars = {} ∧
      s.functions = (initial globals).functions) ?_ hm ⟨rfl, rfl⟩
    rintro d _ t t' ht ⟨hv, hf⟩
    obtain ⟨_, hf', hv', _⟩ := addMacro_keeps ht
    exact ⟨hv'.trans hv, hf'.trans hf⟩
  have hb : c.symbols.blockMacros = m.blockMacros :=
    foldlM_induction (P := fun c => c.symbols.blockMacros = m.blockMacros)
      (fun _ _ _ _ hd hb => (Collection.declare_extends hd).blockMacros.trans hb) hc rfl
  -- The macros stay those of the first round.
  have hd : ∀ d ∈ tree, ∀ {u u' v},
      u.RenamedLocal f x y u' ∧ u.symbols.blockMacros = m.blockMacros →
      Collection.declare source root u d = .ok v →
      ∃ v', Collection.declare source root u' (d.renameLocal f x y) = .ok v' ∧
        v.RenamedLocal f x y v' ∧ v.symbols.blockMacros = m.blockMacros := by
    rintro d hd u u' v ⟨hu, hb'⟩ hv
    obtain ⟨v', hv', hr⟩ := hu.declare hT hd (hb'.trans hb.symm) hv
    exact ⟨v', hv', hr, (Collection.declare_extends hv).blockMacros.trans hb'⟩
  obtain ⟨c', hc', hr, _⟩ := foldlM_sim hd ⟨⟨rfl, renamedLocal_self hi.1 hi.2⟩, rfl⟩ hc
  refine ⟨c'.symbols, ?_, hr.symbols⟩
  simp only [ofTree, bind_eq_ok, pure_eq_ok]
  exact ⟨m, hm', c', by rwa [SpriteTree.renameLocal, List.foldlM_map], rfl⟩

end Symbols

end BlockLang
