import Std.Data.TreeMap.Basic
import BlockLang.Path
import BlockLang.Tree.Basic

/-!
What the names of a sprite stand for.
-/

namespace BlockLang

-- A variable. A local one is named by its function and its own name, with a colon between them.
structure Variable where
  name : String
  span : Span
  deriving DecidableEq, Repr, Inhabited

structure StoredList where
  name : String
  span : Span
  data : List String
  deriving DecidableEq, Repr, Inhabited

-- A function. The code that names it in a project is made from its parameters, unless it is fixed.
structure Function where
  name : Name
  -- Does it run without waiting for the screen?
  warp : Bool
  params : List Name
  locals : List String
  fixedCode : Option String
  deriving DecidableEq, Repr, Inhabited

-- A macro, whose body is an expression or a list of statements.
structure Macro (β : Type) where
  name : Name
  params : List String
  body : β
  deriving Repr

abbrev ExprMacro := Macro Expr

abbrev BlockMacro := Macro (List Stmt)

-- The file of a costume, and the name of the costume if it is not that of the file.
structure CostumeFile where
  path : Path
  givenName : Option String
  deriving DecidableEq, Repr, Inhabited

def CostumeFile.name (c : CostumeFile) : String :=
  c.givenName.getD (c.path.stem?.getD "")

-- The names of the variables and lists that all sprites share.
structure Globals where
  vars : List String
  lists : List String
  deriving DecidableEq, Repr, Inhabited

def Globals.none : Globals := ⟨[], []⟩

structure Symbols where
  functions : Std.TreeMap String Function
  exprMacros : Std.TreeMap String ExprMacro
  blockMacros : Std.TreeMap String BlockMacro
  vars : Std.TreeMap String Variable
  lists : Std.TreeMap String StoredList
  costumes : List CostumeFile
  comment : Option String
  globals : Globals

def localName (function name : String) : String :=
  s!"{function}:{name}"

def isLocalName (name : String) : Bool :=
  name.toList.contains ':'

def Globals.ofStage (stage : Symbols) : Globals where
  vars := stage.vars.keys.filter fun name => !isLocalName name
  lists := stage.lists.keys.filter fun name => !isLocalName name

namespace Function

-- The mark before and after the name in the code of a function that is always there.
def codeMark : String := "\u200b\u200b"

def placeholders (count : Nat) : String :=
  String.join (List.replicate count " %s")

def predefined (name : String) (params : List String) : Function where
  name := ⟨name, .none⟩
  warp := false
  params := params.map (⟨·, .none⟩)
  locals := []
  fixedCode := some (codeMark ++ name ++ codeMark ++ placeholders params.length)

def allPredefined : List Function := [
  predefined "breakpoint" [], predefined "log" ["message"], predefined "warn" ["message"],
  predefined "error" ["message"]]

def code (f : Function) : String :=
  f.fixedCode.getD (f.name.text ++ placeholders f.params.length)

end Function

namespace Symbols

def initial (globals : Globals) : Symbols where
  functions := Function.allPredefined.foldl (fun t f => t.insert f.name.text f) {}
  exprMacros := {}
  blockMacros := {}
  vars := {}
  lists := {}
  costumes := []
  comment := none
  globals

-- Declares a variable, unless its name is taken. `locals` are the names that stand for local
-- variables where the name is written.
def addVariable (locals : List String) (name : Name) (s : Symbols) : Symbols :=
  if s.globals.vars.contains name.text || locals.contains name.text ||
      s.vars.contains name.text || s.lists.contains name.text then s
  else { s with vars := s.vars.insert name.text ⟨name.text, name.span⟩ }

def addList (name : Name) (s : Symbols) : Symbols :=
  if s.globals.lists.contains name.text || s.lists.contains name.text ||
      s.vars.contains name.text then s
  else { s with lists := s.lists.insert name.text ⟨name.text, name.span, []⟩ }

def putList (name : Name) (data : List String) (s : Symbols) : Symbols :=
  { s with lists := s.lists.insert name.text ⟨name.text, name.span, data⟩ }

def putLocal (function : String) (name : Name) (s : Symbols) : Symbols :=
  let qualified := localName function name.text
  { s with vars := s.vars.insert qualified ⟨qualified, name.span⟩ }

end Symbols

end BlockLang
