import BlockLang.Block.Basic

/-!
The flat form of scripts: one record for each block, with the numbers of other records where blocks
are nested or follow each other.
-/

namespace BlockLang

-- What an input of a record holds. Of blocks it holds the number of the first one.
inductive Slot where
  | literal (text : String)
  | var (name : String)
  | list (name : String)
  -- A block that cannot be taken out.
  | shadow (id : Nat)
  | shaped (id : Nat)
  -- A reporter, which leaves an empty text behind when it is taken out.
  | reporter (id : Nat)
  deriving DecidableEq, Repr

def Slot.id? : Slot → Option Nat
  | shadow id | shaped id | reporter id => some id
  | literal _ | var _ | list _ => none

-- What the record of a function's call or definition tells about the function. The arguments are
-- the inputs of the record.
structure Mutation where
  code : String
  arguments : List String
  warp : Bool
  defines : Bool
  deriving DecidableEq, Repr

structure Record where
  id : Nat
  opcode : String
  -- The block that runs after this one.
  next : Option Nat
  -- The block before this one, or the one that it is plugged into.
  parent : Option Nat
  slots : List (String × Slot)
  fields : List (String × Field)
  shadow : Bool
  -- The place on the canvas. Only the starts of scripts have one.
  place : Option (Nat × Nat)
  mutation : Option Mutation
  comment : Option String
  deriving DecidableEq, Repr

namespace Block

def isMenu (b : Block) : Bool :=
  b.opcode = "sensing_of_object_menu"

def isShadowArgument (b : Block) : Bool :=
  match b.kind with
  | .argument shadow => shadow
  | _ => false

def isShadow (b : Block) : Bool :=
  b.isMenu || b.isShadowArgument ||
    match b.kind with
    | .prototype _ _ => true
    | _ => false

def place? (b : Block) : Option (Nat × Nat) :=
  match b.kind with
  | .hat _ place => some place
  | _ => none

def mutation? (b : Block) : Option Mutation :=
  let names := b.inputs.map (·.1)
  match b.kind with
  | .call code warp => some ⟨code, names, warp, false⟩
  | .prototype code warp => some ⟨code, names, warp, true⟩
  | _ => none

def slot (name : String) (b : Block) (id : Nat) : Slot :=
  if b.isCondition then .shaped id
  else if b.isMenu || name = "custom_block" || b.isShadowArgument then .shadow id
  else .reporter id

def record (b : Block) (id : Nat) (next parent : Option Nat) (slots : List (String × Slot)) :
    Record where
  id
  opcode := b.opcode
  next
  parent
  slots
  fields := b.fields
  shadow := b.isShadow
  place := b.place?
  mutation := b.mutation?
  comment := b.comment

end Block

end BlockLang
