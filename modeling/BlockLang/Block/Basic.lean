import BlockLang.Diagnostic
import BlockLang.Prototype.Basic

/-!
Blocks: the nested form of the scripts of a sprite.
-/

namespace BlockLang

inductive Field where
  | literal (text : String)
  | var (name : String)
  | list (name : String)
  deriving DecidableEq, Repr, Inhabited

mutual

inductive Input where
  | literal (text : String)
  | var (name : String)
  | list (name : String)
  | block (block : Block)
  | stack (blocks : List Block)

inductive BlockKind where
  | plain
  -- A reporter that answers yes or no.
  | condition
  -- The start of a script, with what follows it and with its place on the canvas.
  | hat (body : List Block) (place : Nat × Nat)
  -- A parameter. In the head of a definition it is a shadow.
  | argument (shadow : Bool)
  -- A call of the function with a code.
  | call (code : String) (warp : Bool)
  -- The head of the definition of the function with a code.
  | prototype (code : String) (warp : Bool)

structure Block where
  opcode : String
  kind : BlockKind
  inputs : List (String × Input)
  fields : List (String × Field)
  comment : Option String
  span : Option Span

end

deriving instance Repr for Input, BlockKind, Block

instance : Inhabited BlockKind := ⟨.plain⟩
instance : Inhabited Input := ⟨.literal ""⟩

namespace Block

def ofKind (kind : BlockKind) (opcode : String) : Block :=
  ⟨opcode, kind, [], [], none, none⟩

def plain (opcode : String) : Block :=
  ofKind .plain opcode

def condition (opcode : String) : Block :=
  ofKind .condition opcode

def hat (opcode : String) (body : List Block) : Block :=
  ofKind (.hat body (0, 0)) opcode

instance : Inhabited Block := ⟨plain ""⟩

def withInput (name : String) (input : Input) (b : Block) : Block :=
  { b with inputs := b.inputs ++ [(name, input)] }

def withField (name : String) (field : Field) (b : Block) : Block :=
  { b with fields := b.fields ++ [(name, field)] }

def writtenAt (span : Span) (b : Block) : Block :=
  { b with span := some span }

def input? (name : String) (b : Block) : Option Input :=
  b.inputs.lookup name

def field? (name : String) (b : Block) : Option Field :=
  b.fields.lookup name

def eraseInput (name : String) (b : Block) : Block :=
  { b with inputs := b.inputs.eraseP (·.1 = name) }

def isCondition (b : Block) : Bool :=
  match b.kind with
  | .condition => true
  | _ => false

def isHat (b : Block) : Bool :=
  match b.kind with
  | .hat _ _ => true
  | _ => false

def argument (name : String) (shadow : Bool) : Block :=
  (ofKind (.argument shadow) "argument_reporter_string_number").withField "VALUE" (.literal name)

def call (code : String) (warp : Bool) (inputs : List (String × Input)) : Block :=
  { ofKind (.call code warp) "procedures_call" with inputs }

def definition (code : String) (warp : Bool) (params : List String) (body : List Block) : Block :=
  let inputs := params.map fun p => (p, Input.block (argument p true))
  let head := { ofKind (.prototype code warp) "procedures_prototype" with inputs }
  (hat "procedures_definition" body).withInput "custom_block" (.block head)

-- The block that a prototype stands for. Its own inputs and fields follow the arguments.
def ofPrototype (p : Prototype) (args : List Input) : Block where
  opcode := p.opcode
  kind := if p.condition then .condition else .plain
  inputs := p.params.zip args ++ p.inputs.map fun (name, value) => (name, .literal value)
  fields := p.fields.map fun (name, value) => (name, .literal value)
  comment := none
  span := none

def isForever (b : Block) : Bool :=
  b.opcode = "control_forever"

-- The first block of a stack that cannot stand before others but does so.
def misplaced? : List Block → Option Block
  | [] => none
  | b :: bs => if b.isForever && !bs.isEmpty then some b else misplaced? bs

def stacked (blocks : List Block) : Except Diagnostic (List Block) :=
  match misplaced? blocks with
  | none => .ok blocks
  | some b =>
    match b.span with
    | some s => .error (.span s .foreverNotLast)
    | none => .error (.file .foreverNotLast)

end Block

def Input.literal? : Input → Option String
  | literal text => some text
  | _ => none

def Input.isCondition : Input → Bool
  | block b => b.isCondition
  | _ => false

mutual

def Input.count : Input → Nat
  | .block b => b.count
  | .stack bs => Block.countAll bs
  | .literal _ | .var _ | .list _ => 0

def Block.count : Block → Nat
  | ⟨_, kind, inputs, _, _, _⟩ => 1 + Input.countAll inputs + kind.count

def BlockKind.count : BlockKind → Nat
  | .hat body _ => Block.countAll body
  | .plain | .condition | .argument _ | .call _ _ | .prototype _ _ => 0

def Block.countAll : List Block → Nat
  | [] => 0
  | b :: bs => b.count + Block.countAll bs

def Input.countAll : List (String × Input) → Nat
  | [] => 0
  | (_, i) :: is => i.count + Input.countAll is

end

end BlockLang
