import Std.Data.TreeMap.Basic
import BlockLang.Diagnostic
import BlockLang.Prototype.Builtin
import BlockLang.Prototype.Row
import BlockLang.Text.Lines

/-!
The vocabulary of the language: its statements and reporters by their names.
-/

namespace BlockLang

-- The statements and the reporters that can be called.
structure Vocabulary where
  statements : Std.TreeMap String Prototype
  reporters : Std.TreeMap String Prototype

namespace Vocabulary

-- Prototypes by name. Of several with one name the last one counts.
def table (prototypes : List Prototype) : Std.TreeMap String Prototype :=
  prototypes.foldl (fun t p => t.insert p.name p) {}

def builtin : Vocabulary :=
  ⟨table Prototype.builtinStatements, table Prototype.builtinReporters⟩

-- The prototypes in the rows of a table. Blank rows and rows that start with a hash hold none.
-- `name` is what the table is called in errors, and `n` the number of its first row.
def prototypes (name : String) (n : Nat) : List String → Except Diagnostic (List Prototype)
  | [] => .ok []
  | row :: rows => do
    let row := Text.trim row
    if row = "" || row.toList.head? = some '#' then prototypes name (n + 1) rows
    else
      match Prototype.ofRow? row with
      | none => .error (.project (.malformedPrototype name n row))
      | some p => return p :: (← prototypes name (n + 1) rows)

def ofText (statements reporters : String) : Except Diagnostic Vocabulary := do
  let statements ← prototypes "statements" 1 (Text.lines statements)
  let reporters ← prototypes "reporters" 1 (Text.lines reporters)
  return ⟨table statements, table reporters⟩

end Vocabulary

end BlockLang
