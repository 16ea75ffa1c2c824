import BlockLang.Prototype.Basic
import BlockLang.Text.Blank

/-!
Prototypes as rows of a table: the name, the parameters and the opcode, with bars between them.

A question mark after the name makes the block a condition. After the opcode, a point comes before
fields and an exclamation mark before inputs that the block always has.
-/

namespace BlockLang

namespace Prototype

def cells (mark : Char) (s : String) : List String :=
  (Text.splitBy (· = mark) s.toList).map fun cs => Text.trim (String.ofList cs)

def assignment? (cell : String) : Option (String × String) :=
  (Text.splitOnce '=' cell.toList).map fun (key, value) =>
    (Text.trim (String.ofList key), Text.trim (String.ofList value))

def assignments? (cs : List Char) : Option (List (String × String)) :=
  (cells ',' (String.ofList cs)).mapM assignment?

-- An opcode with the fields and the inputs that come with it. The first point decides that there
-- are fields.
def opcode? (cell : String) :
    Option (String × List (String × String) × List (String × String)) :=
  match Text.splitOnce '.' cell.toList with
  | some (opcode, rest) => (assignments? rest).map (String.ofList opcode, ·, [])
  | none =>
    match Text.splitOnce '!' cell.toList with
    | some (opcode, rest) => (assignments? rest).map (String.ofList opcode, [], ·)
    | none => some (cell, [], [])

def ofRow? (row : String) : Option Prototype :=
  match cells '|' row with
  | [name, params, opcode] =>
    if name = "" || opcode = "" then none
    else
      (opcode? opcode).map fun (opcode, fields, inputs) => {
        name := String.ofList (Text.dropEndWhile (· = '?') name.toList)
        params := (cells ',' params).filter (· ≠ "")
        opcode
        fields
        inputs
        condition := name.toList.getLast? = some '?'
      }
  | _ => none

end Prototype

end BlockLang
