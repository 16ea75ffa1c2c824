import BlockLang.Block.Basic
import BlockLang.Block.Fold

/-!
Negation, and what counts as true: inputs changed so that few blocks are needed.
-/

namespace BlockLang

namespace Block

def left : String := "NUM1"

def right : String := "NUM2"

def minus (i : Input) : Block :=
  ((plain "operator_subtract").withInput left (.literal "0")).withInput right i

def isDifference (b : Block) : Bool :=
  b.opcode = "operator_subtract"

def isProduct (b : Block) : Bool :=
  b.opcode = "operator_multiply" || b.opcode = "operator_divide"

def eraseOperands (b : Block) : Block :=
  (b.eraseInput left).eraseInput right

-- A difference with its operands swapped, which are put before all other inputs.
def swapped? (b : Block) : Option Block :=
  match b.input? left, b.input? right with
  | some l, some r =>
    some { b with inputs := (left, r) :: (right, l) :: b.eraseOperands.inputs }
  | _, _ => none

end Block

mutual

def Input.negated? : Input → Option Input
  | .literal text => (number? text).map fun x => .literal (formatNumber (-x))
  | .block b => b.negated?.map .block
  | .var _ | .list _ | .stack _ => none

-- The negation of a block, if it needs no further block: a difference is turned around, and a
-- product or a quotient has one operand negated.
def Block.negated? : Block → Option Block
  | ⟨opcode, kind, inputs, fields, comment, span⟩ =>
    let b : Block := ⟨opcode, kind, inputs, fields, comment, span⟩
    if b.isDifference then b.swapped?
    else if b.isProduct then
      match Input.negatedAt? Block.left inputs with
      | some inputs => some { b with inputs }
      | none => (Input.negatedAt? Block.right inputs).map fun inputs => { b with inputs }
    else none

-- Inputs with the one of a name negated, if that needs no further block.
def Input.negatedAt? (name : String) : List (String × Input) → Option (List (String × Input))
  | [] => none
  | (n, i) :: is =>
    if n = name then i.negated?.map fun i => (n, i) :: is
    else (Input.negatedAt? name is).map ((n, i) :: ·)

end

namespace Input

-- What `0 - i` is built from. A difference loses the operands that could not be swapped.
def subtrahend : Input → Input
  | block b => block (if b.isDifference then b.eraseOperands else b)
  | i => i

-- The negation of an input, and whether it is the same expression turned around rather than a
-- difference from zero.
def negate (i : Input) : Input × Bool :=
  match i.negated? with
  | some i => (i, true)
  | none => (block (Block.minus i.subtrahend), false)

end Input

namespace Block

def inverse (b : Block) : Block :=
  (condition "operator_not").withInput "OPERAND" (.block b)

def isInverse (b : Block) : Bool :=
  b.opcode = "operator_not"

def equalsZero (i : Input) : Block :=
  ((condition "operator_equals").withInput "OPERAND1" (.literal "0")).withInput "OPERAND2" i

def lengthOf (list : String) : Block :=
  (plain "data_lengthoflist").withField "LIST" (.list list)

-- What is compared with zero in order to tell whether an input counts as true.
def counted : Input → Input
  | .list name => .block (lengthOf name)
  | .literal text =>
    .literal (if text = "true" then "1" else if text = "false" then "0" else text)
  | i => i

def ofTruth (i : Input) (opposite : Bool) : Block :=
  match i with
  | .block b =>
    if b.isCondition then if opposite then b.inverse else b else compared
  | _ => compared
where
  -- An input that is no condition is true if it is not zero.
  compared : Block :=
    let zero := equalsZero (counted i)
    if opposite then zero else zero.inverse

def operand (b : Block) : Block :=
  match b.input? "OPERAND" with
  | some (.block inner) => inner
  | some i => ofTruth i false
  | none => b

def connect (both : Bool) (l r : Block) : Block :=
  ((condition (if both then "operator_and" else "operator_or")).withInput "OPERAND1"
    (.block l)).withInput "OPERAND2" (.block r)

-- Whether both of two inputs count as true, or one of them does. For two opposites it is the
-- opposite of the other question.
def logical (both : Bool) (l r : Input) : Block :=
  let l := ofTruth l false
  let r := ofTruth r false
  if l.isInverse && r.isInverse then (connect (!both) l.operand r.operand).inverse
  else connect both l r

end Block

-- The opposite of an input. A literal is decided, and the opposite of an opposite is left out.
def Input.not : Input → Input
  | literal text => literal (boolLiteral !(truthy text))
  | i =>
    let b := Block.ofTruth i false
    if b.isInverse then block b.operand else block b.inverse

end BlockLang
