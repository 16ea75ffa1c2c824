import BlockLang.Number.Layout
import BlockLang.Text.Blank
import BlockLang.Text.Lowercase
import BlockLang.Tree.Basic

/-!
Operators over literals, worked out ahead of time.

A literal is a text. It counts as a number where the text reads as one.
-/

namespace BlockLang

-- Whole numbers in base sixteen have to fit in this many bits, one of them for the sign.
def hexBits : Nat := 64

def hexNumber? (digits : List Char) : Option Float :=
  (Decimal.signed? 16 digits).bind fun n =>
    let bound : Int := Nat.pow 2 (hexBits - 1)
    if -bound ≤ n && n < bound then
      some (Decimal.toFloat (.finite (n < 0) n.natAbs 0))
    else none

-- The number that a text stands for. Blank texts and numbers that are not finite stand for none.
def number? (text : String) : Option Float :=
  let read := match (Text.trim text).toList with
    | '0' :: mark :: digits =>
      if mark = 'x' || mark = 'X' then hexNumber? digits
      else (Decimal.ofList? ('0' :: mark :: digits)).map Decimal.toFloat
    | digits => (Decimal.ofList? digits).map Decimal.toFloat
  read.filter Float.isFinite

-- The text of a number. Zero has no sign.
def formatNumber (x : Float) : String :=
  if x == 0.0 then "0" else NumberLayout.plain.write x

-- The order of two numbers. A number that is none is as large as any.
def compareFloat (x y : Float) : Ordering :=
  if x < y then .lt else if y < x then .gt else .eq

-- The order of two literals: by value if both are numbers, as texts in lower case otherwise.
def compareLiterals (l r : String) : Ordering :=
  match number? l, number? r with
  | some x, some y => compareFloat x y
  | _, _ => compare (Text.lowercase l) (Text.lowercase r)

def truthy (text : String) : Bool :=
  !(text = "" || text = "0" || text.toList.map Char.toLower = "false".toList)

def boolLiteral (b : Bool) : String :=
  if b then "true" else "false"

def BinaryOp.ordering? : BinaryOp → Option Ordering
  | eq => some .eq
  | lt => some .lt
  | gt => some .gt
  | _ => none

-- Arithmetic. There is no division by zero. The remainder has the sign of the divisor.
def BinaryOp.arith? (op : BinaryOp) (x y : Float) : Option Float :=
  match op with
  | add => some (x + y)
  | sub => some (x - y)
  | mul => some (x * y)
  | div => if y == 0.0 then none else some (x / y)
  | mod => if y == 0.0 then none else some (x - y * (x / y).floor)
  | _ => none

-- The value of an operator over two literals, if it has one that is known ahead of time.
def foldBinary? (op : BinaryOp) (l r : String) : Option String :=
  if op = .join then some (l ++ r)
  else match op.ordering? with
    | some o => some (boolLiteral (compareLiterals l r = o))
    | none => do
      let x ← number? l
      let y ← number? r
      let z ← op.arith? x y
      if z.isFinite then some (formatNumber z) else none

def foldSqrt? (text : String) : Option String := do
  let x ← number? text
  if 0.0 ≤ x then some (formatNumber x.sqrt) else none

end BlockLang
