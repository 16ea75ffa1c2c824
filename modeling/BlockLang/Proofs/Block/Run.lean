import BlockLang.Proofs.Block.Negation
import BlockLang.Proofs.Block.Tidy

/-!
What blocks report and what they do to variables and lists.

A machine settles what texts stand for, what is told about a list, and what is worked out from other
values. Only of those machines something is asked that calculate with exact numbers.
-/

namespace BlockLang

section Run

-- The values of variables and lists by their names.
structure Store (V : Type) where
  vars  : String → V
  lists : String → List V

structure Machine (V : Type) where
  literal  : String → V
  -- A list where a single value is asked for.
  whole    : List V → V
  -- What a block of some opcode tells about a list, by its inputs.
  query    : String → List V → List (String × V) → V
  -- What any other block reports, by its fields and inputs.
  operator : String → List (String × Field) → List (String × V) → V

variable {V : Type} {m : Machine V} {s t : Store V} {R : Ref → Prop} {l list : String}
  {vs ws : List V}

namespace Store

def setVar (s : Store V) (var : String) (value : V) : Store V where
  vars v := if v = var then value else s.vars v
  lists  := s.lists

def setList (s : Store V) (list : String) (vs : List V) : Store V where
  vars    := s.vars
  lists l := if l = list then vs else s.lists l

@[simp]
theorem vars_setList : (s.setList list vs).vars = s.vars := rfl

@[simp]
theorem lists_setList : (s.setList list vs).lists list = vs := if_pos rfl

theorem lists_setList_of_ne (h : l ≠ list) : (s.setList list vs).lists l = s.lists l := if_neg h

@[simp]
theorem setList_setList : (s.setList list vs).setList list ws = s.setList list ws := by
  unfold setList
  congr
  funext l
  by_cases h : l = list <;> simp [h]

-- Two stores hold the same in all variables and lists that are among some references.
structure Agree (R : Ref → Prop) (s t : Store V) : Prop where
  vars  : ∀ v, R (.var v) → s.vars v = t.vars v
  lists : ∀ l, R (.list l) → s.lists l = t.lists l

theorem agree_setList : Agree (· ≠ .list list) (s.setList list vs) s where
  vars _ _  := rfl
  lists _ h := lists_setList_of_ne fun he => h (congrArg Ref.list he)

end Store

mutual

-- The value of an input. A stack of blocks has none.
def Input.value (m : Machine V) (s : Store V) : Input → V
  | .literal text => m.literal text
  | .var name => s.vars name
  | .list name => m.whole (s.lists name)
  | .block b => b.value m s
  | .stack _ => m.literal ""

def Block.value (m : Machine V) (s : Store V) : Block → V
  | ⟨opcode, _, inputs, fields, _, _⟩ =>
    match fields.lookup "LIST" with
    | some (.list l) => m.query opcode (s.lists l) (Input.values m s inputs)
    | _ => m.operator opcode fields (Input.values m s inputs)

def Input.values (m : Machine V) (s : Store V) : List (String × Input) → List (String × V)
  | [] => []
  | (name, i) :: is => (name, i.value m s) :: Input.values m s is

end

mutual

-- A value depends on what is referred to, and on nothing else.
theorem Input.value_congr (h : s.Agree R t) : ∀ {i : Input}, i.Tidy R → i.value m s = i.value m t
  | .literal _, _ | .stack _, _ => by simp only [Input.value]
  | .var _, hi => by
    simp only [Input.value]
    exact h.vars _ (Input.tidy_var.mp hi)
  | .list _, hi => by
    simp only [Input.value]
    exact congrArg m.whole (h.lists _ (Input.tidy_list.mp hi))
  | .block _, hi => by
    simp only [Input.value]
    exact Block.value_congr h (Input.tidy_block.mp hi)

theorem Block.value_congr (h : s.Agree R t) : ∀ {b : Block}, b.Tidy R → b.value m s = b.value m t
  | ⟨_, _, _, fields, _, _⟩, hb => by
    have ⟨hn, _, hi⟩ := Block.tidy_iff.mp hb
    simp only [Block.value, Input.values_congr h hi]
    split
    case h_1 l hl =>
      have hm : ("LIST", Field.list l) ∈ fields := by
        have ⟨_, _, he, _⟩ := List.lookup_eq_some_iff.mp hl
        simp [he]
      rw [h.lists l (hn.refs _ hm _ rfl)]
    case h_2 => rfl

theorem Input.values_congr (h : s.Agree R t) : ∀ {is : List (String × Input)},
    Input.AllTidy R is → Input.values m s is = Input.values m t is
  | [], _ => rfl
  | (_, _) :: _, hi => by
    have ⟨hi, his⟩ := Input.allTidy_cons.mp hi
    simp only [Input.values, Input.value_congr h hi, Input.values_congr h his]

end

namespace Block

-- What a block does that sets a variable, empties a list or adds an item to one.
def act? (m : Machine V) (s : Store V) (b : Block) : Option (Store V) :=
  match b.opcode with
  | "data_setvariableto" =>
    match b.field? "VARIABLE", b.input? "VALUE" with
    | some (.var v), some i => some (s.setVar v (i.value m s))
    | _, _ => none
  | "data_deletealloflist" =>
    match b.field? "LIST" with
    | some (.list l) => some (s.setList l [])
    | _ => none
  | "data_addtolist" =>
    match b.field? "LIST", b.input? "ITEM" with
    | some (.list l), some i => some (s.setList l (s.lists l ++ [i.value m s]))
    | _, _ => none
  | _ => none

-- Runs one block after the other.
def run? (m : Machine V) (s : Store V) (bs : List Block) : Option (Store V) :=
  bs.foldlM (act? m) s

end Block

end Run

section Calculate

-- A text, a number, or what a division by zero comes to.
inductive Value where
  | text (text : String)
  | number (amount : ℚ)
  | undefined

namespace Value

-- The number that a value counts as.
def amount? : Value → Option ℚ
  | text t => some (literalAmount t)
  | number x => some x
  | undefined => none

def ofAmount? : Option ℚ → Value
  | some x => number x
  | none => undefined

def sum (x y : Value) : Value :=
  ofAmount? do return (← x.amount?) + (← y.amount?)

@[simp]
theorem amount?_ofAmount? {x : Option ℚ} : (ofAmount? x).amount? = x := by
  cases x <;> rfl

end Value

namespace Block

-- The remainder has the sign of the divisor.
def operation? (opcode : String) : Option (ℚ → ℚ → Option ℚ) :=
  match opcode with
  | "operator_add" => some fun x y => some (x + y)
  | "operator_mod" => some fun x y => if y = 0 then none else some (x - y * ⌊x / y⌋)
  | opcode => exactly? opcode

-- What an arithmetic block reports, by its inputs.
def calculated? (opcode : String) (is : List (String × Value)) : Option Value := do
  let op ← operation? opcode
  let x ← is.lookup left
  let y ← is.lookup right
  return .ofAmount? do op (← x.amount?) (← y.amount?)

end Block

-- A machine that calculates, and that does everything else as another one does.
def Machine.exact (other : Machine Value) : Machine Value where
  literal                   := .text
  whole                     := other.whole
  query opcode vs is        := (Block.calculated? opcode is).getD (other.query opcode vs is)
  operator opcode fields is := (Block.calculated? opcode is).getD (other.operator opcode fields is)

variable {V : Type} {m : Machine V} {other : Machine Value} {b : Block} {i l r : Input}
  {is : List (String × Input)} {name : String}

theorem Input.lookup_values {s : Store V} :
    (Input.values m s is).lookup name = (is.lookup name).map (·.value m s) := by
  induction is
  case nil => rfl
  case cons p is hi =>
    rw [Input.values, lookup_cons_ite, lookup_cons_ite, hi]
    split <;> rfl

namespace Block

variable {s : Store Value} {op : ℚ → ℚ → Option ℚ} {opcode : String}

theorem operation?_of_exactly? (h : exactly? opcode = some op) : operation? opcode = some op := by
  unfold operation?
  split
  case h_1 | h_2 => contradiction
  case h_3 => exact h

-- Whatever fields an arithmetic block has.
theorem value_exact (ho : operation? b.opcode = some op) (hl : b.input? left = some l)
    (hr : b.input? right = some r) : b.value (.exact other) s =
      .ofAmount? ((l.value (.exact other) s).amount?.bind fun x =>
        (r.value (.exact other) s).amount?.bind fun y => op x y) := by
  have hc : calculated? b.opcode (Input.values (.exact other) s b.inputs) =
      some (.ofAmount? ((l.value (.exact other) s).amount?.bind fun x =>
        (r.value (.exact other) s).amount?.bind fun y => op x y)) := by
    rw [input?] at hl hr
    rw [calculated?, ho, Input.lookup_values, Input.lookup_values, hl, hr]
    rfl
  cases b
  rw [value]
  split
  all_goals
    unfold Machine.exact at hc ⊢
    dsimp only at hc ⊢
    rw [hc, Option.getD_some]

end Block

section Amount

variable (other) (s : Store Value)

-- What an input comes to, if what it is not calculated from comes to its value.
mutual

theorem Input.amount?_value : ∀ (i : Input), (i.value (.exact other) s).amount? =
    i.amount? fun i => (i.value (.exact other) s).amount?
  | .literal _ => by rw [Input.value, Input.amount?]; rfl
  | .var _ | .list _ | .stack _ => by rw [Input.amount?]
  | .block b => by
    rw [Input.value, Input.amount?]
    exact Block.amount?_value b

theorem Block.amount?_value : ∀ (b : Block), (b.value (.exact other) s).amount? =
    b.amount? fun i => (i.value (.exact other) s).amount?
  | ⟨opcode, kind, inputs, fields, comment, span⟩ => by
    have hi := Input.amount?_values inputs
    rw [Block.amount?_eq]
    split
    case h_1 op x y ho hl hr =>
      have ⟨l, hl, hx⟩ := Option.map_eq_some_iff.mp hl
      have ⟨r, hr, hy⟩ := Option.map_eq_some_iff.mp hr
      rw [Block.value_exact (Block.operation?_of_exactly? ho) hl hr, Value.amount?_ofAmount?,
        hi _ (mem_of_lookup_eq_some hl), hi _ (mem_of_lookup_eq_some hr), hx, hy]
      rfl
    case h_2 => rw [Input.value]

theorem Input.amount?_values : ∀ (is : List (String × Input)), ∀ p ∈ is,
    (p.2.value (.exact other) s).amount? =
      p.2.amount? fun i => (i.value (.exact other) s).amount?
  | [], _, h => nomatch h
  | (_, i) :: is, p, h => by
    cases List.mem_cons.mp h
    case inl h => exact h ▸ Input.amount?_value i
    case inr h => exact Input.amount?_values is p h

end

end Amount

-- A list with the item in some place replaced, if there is such a place.
def Store.replaceItem (s : Store Value) (list : String) (n : Option Nat) (v : Value) :
    Store Value :=
  s.setList list (n.elim (s.lists list) ((s.lists list).set · v))

-- What a block does that calculates with a variable or replaces an item, if not what any machine
-- does. `place` tells where in a list the item is that a value stands for.
def Block.effect? (other : Machine Value) (place : Value → List Value → Option Nat)
    (s : Store Value) (b : Block) : Option (Store Value) :=
  match b.opcode with
  | "data_changevariableby" =>
    match b.field? "VARIABLE", b.input? "VALUE" with
    | some (.var v), some i => some (s.setVar v ((s.vars v).sum (i.value (.exact other) s)))
    | _, _ => none
  | "data_replaceitemoflist" =>
    match b.field? "LIST", b.input? "INDEX", b.input? "ITEM" with
    | some (.list l), some i, some j =>
      let n := place (i.value (.exact other) s) (s.lists l)
      some (s.replaceItem l n (j.value (.exact other) s))
    | _, _, _ => none
  | _ => b.act? (.exact other) s

-- Has each block do that, one after the other.
def Block.perform? (other : Machine Value) (place : Value → List Value → Option Nat)
    (s : Store Value) (bs : List Block) : Option (Store Value) :=
  bs.foldlM (effect? other place) s

end Calculate

end BlockLang
