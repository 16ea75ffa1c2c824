import Mathlib.Data.List.Induction
import BlockLang.Files.Memory
import BlockLang.Proofs.Block.Run
import BlockLang.Proofs.Sprite.Procedures.Reporter
import BlockLang.Proofs.Sprite.Scope
import BlockLang.Proofs.Sprite.Script
import BlockLang.Sprite.Script
import BlockLang.Tree.Parser.Decl

/-!
What assignments do. A variable is set to what the value comes to before. But a list is emptied
before the first item is worked out, so an item that reads the list finds only the items before it.
-/

namespace BlockLang

variable {V : Type} {m : Machine V} {s t : Store V} {scope : Scope} {name : Name} {list l : String}
  {span : Span} {is : List Input} {es items : List Expr} {e : Expr} {bs : List Block} {vs : List V}

namespace Block

theorem act?_setVariable {var : String} {i : Input} :
    ((setVariable var i).writtenAt span).act? m s = some (s.setVar var (i.value m s)) := by
  simp [act?, setVariable, plain, ofKind, withField, withInput, writtenAt, field?, input?]

theorem act?_deleteAll :
    ((ofList "data_deletealloflist" list).writtenAt span).act? m s = some (s.setList list []) := by
  simp [act?, ofList, plain, ofKind, withField, writtenAt, field?]

theorem act?_addItem {i : Input} : ((addItem list i).writtenAt span).act? m s =
    some (s.setList list (s.lists list ++ [i.value m s])) := by
  simp [act?, addItem, ofList, plain, ofKind, withField, withInput, writtenAt, field?, input?]

end Block

namespace Scope

-- The items of a list that has been empty, each worked out when those before it are there.
def added (m : Machine V) (s : Store V) (list : String) (is : List Input) : List V :=
  is.foldl (fun vs i => vs ++ [i.value m (s.setList list vs)]) []

theorem added_append {i : Input} : added m s list (is ++ [i]) =
    added m s list is ++ [i.value m (s.setList list (added m s list is))] := by
  simp [added]

theorem length_added : (added m s list is).length = is.length := by
  induction is using List.reverseRecOn
  case nil => rfl
  case append_singleton is i hi => simp [added_append, hi]

theorem getElem?_added {n : Nat} : (added m s list is)[n]? =
    is[n]?.map fun i => i.value m (s.setList list ((added m s list is).take n)) := by
  induction is using List.reverseRecOn
  case nil => rfl
  case append_singleton is i hi =>
    have hl : (added m s list is).length = is.length := length_added
    rw [added_append]
    obtain hn | hn := Nat.lt_or_ge n is.length
    · rw [List.getElem?_append_left (hl ▸ hn), List.getElem?_append_left hn,
        List.take_append_of_le_length (by omega), hi]
    · obtain rfl | hn := Nat.eq_or_lt_of_le hn
      · rw [List.getElem?_concat_length, ← hl, List.getElem?_concat_length, List.take_left]
        rfl
      · rw [List.getElem?_eq_none (by simp; omega), List.getElem?_eq_none (by simp; omega)]
        rfl

theorem run?_fill :
    Block.run? m s (fill list span is) = some (s.setList list (added m s list is)) := by
  induction is using List.reverseRecOn
  case nil => simp [Block.run?, fill, Block.act?_deleteAll, added]
  case append_singleton is i hi =>
    have hf : fill list span (is ++ [i]) =
        fill list span is ++ [(Block.addItem list i).writtenAt span] := by simp [fill]
    unfold Block.run? at hi ⊢
    rw [hf, List.foldlM_append, hi]
    simp [Block.act?_addItem, added_append]

-- A list is known by the name that it is declared with.
theorem lookup?_list {n : String} (h : scope.lookup? n = some (.list l)) : l = n := by
  unfold lookup? at h
  split at h
  case h_1 => simp at h
  case h_2 =>
    dsimp only at h
    split_ifs at h <;> cases h <;> rfl

theorem eq_of_list (h : scope.list name = .ok l) : l = name.text := by
  have hr : scope.resolve name = .ok (.list l) := resolve_of_list h
  unfold resolve at hr
  split at hr
  case h_1 hl => exact lookup?_list (Except.ok.inj hr ▸ hl)
  case h_2 => contradiction

-- Only the name of a list refers to it.
theorem Declared.sound_apart (h : scope.Declared) : scope.Sound (· ≠ list) (· ≠ .list list) where
  vocabulary := h.neat
  resolved {n r} hn hr := by
    cases r
    case var => nofun
    case list l => exact fun he => hn (lookup?_list hr ▸ Ref.list.inj he)
  params _ _ _ := nofun
  calls hf := (h.proper _ _ hf).2.1

end Scope

namespace Expr

-- What an expression comes to: the value of the input that it stands for, if it stands for one.
def value? (scope : Scope) (m : Machine V) (s : Store V) (e : Expr) : Option V :=
  (e.input scope).toOption.map (·.value m s)

theorem value?_setList (hd : scope.Declared) (hn : list ∉ e.names) :
    e.value? scope m (s.setList list vs) = e.value? scope m s := by
  cases hi : e.input scope
  case error => simp [value?, hi, Except.toOption]
  case ok i =>
    have ht : i.Tidy (· ≠ .list list) :=
      tidy_input hd.sound_apart (fun n hm he => hn (he ▸ hm)) hi
    simp [value?, hi, Except.toOption, Input.value_congr Store.agree_setList ht]

theorem bind_value? {n : Nat} (h : List.Forall₂ (fun e i => e.input scope = .ok i) es is) :
    es[n]?.bind (·.value? scope m s) = is[n]?.map (·.value m s) := by
  induction h generalizing n
  case nil => rfl
  case cons he _ hi =>
    cases n
    case zero => simp [value?, he, Except.toOption]
    case succ => exact hi

end Expr

-- What an expression comes to is what a variable is set to by an assignment of it.
theorem Stmt.run?_assign (h : (Stmt.assign name e).blocks scope = .ok bs) (m : Machine V)
    (s : Store V) : ∃ var v, scope.scalar name = .ok var ∧ e.value? scope m s = some v ∧
      Block.run? m s bs = some (s.setVar var v) := by
  simp only [Stmt.blocks, bind_eq_ok, pure_eq_ok] at h
  obtain ⟨var, hv, i, hi, rfl⟩ := h
  refine ⟨var, i.value m s, hv, by simp [Expr.value?, hi, Except.toOption], ?_⟩
  simp [Block.run?, Block.act?_setVariable]

-- What comes of a store once a list has been assigned some items.
structure Store.Refilled (s : Store V) (scope : Scope) (m : Machine V) (list : String)
    (items : List Expr) (t : Store V) : Prop where
  length   : (t.lists list).length = items.length
  -- Each item is worked out when the list holds those before it. So one that does not name the list
  -- comes to what it did before, and if none does, then all of them come to that.
  item     : ∀ n : Nat, (t.lists list)[n]? =
    items[n]?.bind (·.value? scope m (s.setList list ((t.lists list).take n)))
  kept     : ∀ (n : Nat) (e : Expr), items[n]? = some e → list ∉ e.names →
    (t.lists list)[n]? = e.value? scope m s
  replaced : (∀ e ∈ items, list ∉ e.names) →
    (t.lists list).map some = items.map (·.value? scope m s)
  vars     : t.vars = s.vars
  others   : ∀ l ≠ list, t.lists l = s.lists l

theorem Store.refilled_setList (hd : scope.Declared) (hl : vs.length = items.length)
    (hv : ∀ n : Nat, vs[n]? = items[n]?.bind (·.value? scope m (s.setList list (vs.take n)))) :
    s.Refilled scope m list items (s.setList list vs) := by
  have hk : ∀ (n : Nat) (e : Expr), items[n]? = some e → list ∉ e.names →
      vs[n]? = e.value? scope m s := by
    intro n e he hn
    rw [hv, he, Option.bind_some, Expr.value?_setList hd hn]
  constructor <;> try rw [lists_setList]
  case length => exact hl
  case item => exact hv
  case kept => exact hk
  case replaced =>
    intro hn
    refine List.ext_getElem (by simpa using hl) fun n _ he => ?_
    have he : n < items.length := by simpa using he
    have hk := hk n items[n] (List.getElem?_eq_getElem he) (hn _ (List.getElem_mem he))
    rw [List.getElem_map, List.getElem_map, ← hk, List.getElem?_eq_getElem]
  case vars => exact vars_setList
  case others => exact fun l hl => lists_setList_of_ne hl

theorem Stmt.refilled_listSet (hd : scope.Declared)
    (h : (Stmt.listSet name items).blocks scope = .ok bs) (m : Machine V) (s : Store V) :
    ∃ t, Block.run? m s bs = some t ∧ s.Refilled scope m name.text items t := by
  simp only [Stmt.blocks, bind_eq_ok, pure_eq_ok] at h
  obtain ⟨list, hl, is, hi, rfl⟩ := h
  obtain rfl := Scope.eq_of_list hl
  have hi : List.Forall₂ (fun e i => e.input scope = .ok i) items is := Expr.forall₂_inputs hi
  refine ⟨_, Scope.run?_fill, Store.refilled_setList hd ?_ fun n => ?_⟩
  · exact Scope.length_added.trans hi.length_eq.symm
  · exact Scope.getElem?_added.trans (Expr.bind_value? hi).symm

-- A machine whose values are texts. Places in a list are counted from one, and there is nothing at
-- any other.
def Machine.texts : Machine String where
  literal text := text
  whole vs     := if vs.all (·.length = 1) then String.join vs else " ".intercalate vs
  query opcode vs is :=
    match opcode, is.lookup "INDEX" with
    | "data_lengthoflist", _ => toString vs.length
    | "data_itemoflist", some index =>
      match Decimal.unsigned? 10 index.toList with
      | some (n + 1) => vs.getD n ""
      | _ => ""
    | _, _ => ""
  operator opcode _ is :=
    match operators.lookup opcode, is.lookup "NUM1", is.lookup "NUM2" with
    | some op, some l, some r => (foldBinary? op l r).getD ""
    | _, _, _ => ""
where
  operators : List (String × BinaryOp) :=
    [("operator_add", .add), ("operator_subtract", .sub), ("operator_multiply", .mul),
      ("operator_divide", .div), ("operator_mod", .mod)]

-- What is assigned to a list in a script that does nothing else.
def Decl.assigned? : Decl → Option (Name × List Expr)
  | .event _ _ [.listSet name items] => some (name, items)
  | _ => none

-- The names in a text, and what is assigned to a list in the last script of it.
def Symbols.assigned? (text : String) : Option (Symbols × Name × List Expr) := do
  let tree ← (SpriteTree.ofSource text).toOption
  let symbols ← (ofTree MemoryTree.empty.source ⟨"p"⟩ .none tree).toOption
  let (name, items) ← tree.getLast?.bind Decl.assigned?
  return (symbols, name, items)

-- The names in a text, and the last script of it.
def Symbols.script? (text : String) : Option (Symbols × List Stmt) := do
  let tree ← (SpriteTree.ofSource text).toOption
  let symbols ← (ofTree MemoryTree.empty.source ⟨"p"⟩ .none tree).toOption
  match tree.getLast? with
  | some (.event _ _ body) => return (symbols, body)
  | _ => none

theorem Symbols.declared_of_assigned? {text : String} {symbols : Symbols}
    (h : assigned? text = some (symbols, name, items)) :
    Scope.Declared ⟨symbols, .builtin, none⟩ := by
  simp only [assigned?, Option.bind_eq_bind, Option.bind_eq_some_iff] at h
  obtain ⟨tree, _, symbols', hs, _, _, he⟩ := h
  obtain ⟨rfl, _⟩ := Prod.mk.inj (Option.some.inj he)
  exact ⟨ofTree_proper (eq_ok_of_toOption hs), Vocabulary.builtin_neat, nofun⟩

-- What the items that a text assigns came to before, and what the list holds after.
def Store.assign? (s : Store String) (text : String) :
    Option (List (Option String) × List String) := do
  let (symbols, name, items) ← Symbols.assigned? text
  let scope : Scope := ⟨symbols, .builtin, none⟩
  let bs ← ((Stmt.listSet name items).blocks scope).toOption
  let t ← Block.run? .texts s bs
  return (items.map (·.value? scope .texts s), t.lists name.text)

def sampleStore : Store String where
  vars _  := "7"
  lists _ := ["a", "b"]

-- The list is to tell how many items it had, the value of a variable, and its first item. Only the
-- variable is told.
def summaryText : String :=
  "lists l;\nvariables x;\nonflag \x7b l = [l.length, x, l[1]]; \x7d\n"

theorem Stmt.refilled_summaryText : ∃ symbols name items bs t,
    Symbols.assigned? summaryText = some (symbols, name, items) ∧
      Scope.Declared ⟨symbols, .builtin, none⟩ ∧
      (Stmt.listSet name items).blocks ⟨symbols, .builtin, none⟩ = .ok bs ∧
      Block.run? .texts sampleStore bs = some t ∧
      sampleStore.Refilled ⟨symbols, .builtin, none⟩ .texts name.text items t ∧
      t.lists name.text = ["0", "7", "0"] := by
  have h : sampleStore.assign? summaryText =
      some ([some "2", some "7", some "a"], ["0", "7", "0"]) := by
    decide +kernel
  simp only [Store.assign?, Option.bind_eq_bind, Option.bind_eq_some_iff] at h
  obtain ⟨⟨symbols, name, items⟩, ha, bs, hb, t, ht, he⟩ := h
  have hl := (Prod.mk.inj (Option.some.inj he)).2
  have hd := Symbols.declared_of_assigned? ha
  have hb := eq_ok_of_toOption hb
  obtain ⟨t', ht', hr⟩ := Stmt.refilled_listSet hd hb .texts sampleStore
  obtain rfl := Option.some.inj (ht'.symm.trans ht)
  exact ⟨symbols, name, items, bs, t', ha, hd, hb, ht, hr, hl⟩

-- A list that is to keep its first item only.
def firstText : String :=
  "lists l;\nonflag \x7b l = [l[1]]; \x7d\n"

theorem Store.assign?_firstText : sampleStore.assign? firstText = some ([some "a"], [""]) := by
  decide +kernel

end BlockLang
