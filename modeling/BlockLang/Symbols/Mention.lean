import BlockLang.Symbols.Basic

/-!
Names that the statements of a body declare by storing into them.

The bodies of block macros count as if they stood in place of the calls. A macro is not entered from
within itself.
-/

namespace BlockLang

inductive Mention where
  | ownLocal (name : Name)
  | scalar (name : Name)
  | list (name : Name)
  deriving DecidableEq, Repr

namespace Mention

abbrev Enter := String → List Mention

mutual

def ofStmt (enter : Enter) : Stmt → List Mention
  | .declareLocal name _ => [ownLocal name]
  | .assign name _ => [scalar name]
  | .listSet name _ => [list name]
  | .macroCall name _ => enter name.text
  | .branch _ branches none => ofBranches enter branches
  | .branch _ branches (some body) => ofBranches enter branches ++ ofBody enter body
  | .loopUntil _ _ body | .loopTimes _ _ body | .forever _ body => ofBody enter body
  | _ => []

def ofBody (enter : Enter) : List Stmt → List Mention
  | [] => []
  | s :: ss => ofStmt enter s ++ ofBody enter ss

def ofBranches (enter : Enter) : List (Expr × List Stmt) → List Mention
  | [] => []
  | (_, body) :: rest => ofBody enter body ++ ofBranches enter rest

end

-- What the body of a macro mentions. `active` are the macros on the way there, and at most `depth`
-- more are entered.
def ofMacro (macros : Std.TreeMap String BlockMacro) : Nat → List String → Enter
  | 0, _, _ => []
  | depth + 1, active, name =>
    if active.contains name then []
    else match macros[name]? with
      | none => []
      | some m => ofBody (ofMacro macros depth (name :: active)) m.body

def all (macros : Std.TreeMap String BlockMacro) (body : List Stmt) : List Mention :=
  ofBody (ofMacro macros macros.size []) body

def localName? : Mention → Option Name
  | ownLocal name => some name
  | _ => none

def locals (mentions : List Mention) : List String :=
  ((mentions.filterMap localName?).map (·.text)).eraseDups

def declare (locals : List String) (s : Symbols) : Mention → Symbols
  | ownLocal _ => s
  | scalar name => s.addVariable locals name
  | list name => s.addList name

end Mention

end BlockLang
