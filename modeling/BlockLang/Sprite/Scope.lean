import BlockLang.Symbols.Basic
import BlockLang.Text.Distance
import BlockLang.Block.Basic
import BlockLang.Vocabulary

/-!
What the names in a script refer to.
-/

namespace BlockLang

-- What a script can refer to: the names of its sprite, the vocabulary of the language, and the
-- function that it defines, if it defines one.
structure Scope where
  symbols : Symbols
  vocabulary : Vocabulary
  function : Option Function

inductive Reference where
  | var (name : String)
  | list (name : String)
  deriving DecidableEq, Repr

namespace Scope

-- What a name refers to: a local variable before the variables and lists of the sprite, and these
-- before those that all sprites share.
def lookup? (scope : Scope) (name : String) : Option Reference :=
  let s := scope.symbols
  match scope.function.filter fun f => f.locals.contains name with
  | some f => some (.var (localName f.name.text name))
  | none =>
    if s.vars.contains name then some (.var name)
    else if s.lists.contains name then some (.list name)
    else if s.globals.vars.contains name then some (.var name)
    else if s.globals.lists.contains name then some (.list name)
    else none

-- The name that may have been meant. Variables are preferred to lists, and these to local
-- variables.
def unknownHelp (scope : Scope) (name : String) : Option String :=
  let s := scope.symbols
  let vars := s.vars.keys.filter (fun n => !isLocalName n) ++ s.globals.vars
  let lists := s.lists.keys ++ s.globals.lists
  let locals := (scope.function.map (·.locals)).getD []
  let help (what : String) (names : List String) : Option String :=
    (Text.suggest name names).map fun found => s!"Did you mean the {what} `{found}`?"
  help "variable" vars <|> help "list" lists <|> help "local variable" locals

def resolve (scope : Scope) (name : Name) : Except Diagnostic Reference :=
  match scope.lookup? name.text with
  | some r => .ok r
  | none =>
    .error (.span name.span (.undefinedIdentifier name.text) (scope.unknownHelp name.text))

def scalar (scope : Scope) (name : Name) : Except Diagnostic String := do
  match ← scope.resolve name with
  | .var v => return v
  | .list _ => .error (.span name.span .notVariable)

def list (scope : Scope) (name : Name) : Except Diagnostic String := do
  match ← scope.resolve name with
  | .list l => return l
  | .var _ => .error (.span name.span .notList)

def checkCount (callee : Callee) (name : Name) (params : List String) (given : Nat) :
    Except Diagnostic Unit :=
  if params.length < given then
    let expected := Diagnostic.counted params.length "argument"
    .error (.span name.span (.tooManyArguments callee name.text) s!"expected {expected}")
  else if given < params.length then
    let missing := ", ".intercalate (params.drop given)
    .error (.span name.span (.tooFewArguments callee name.text) s!"missing arguments: {missing}")
  else .ok ()

def operator (scope : Scope) (name : String) (args : List Input) : Except Diagnostic Block :=
  match scope.vocabulary.reporters[name]? with
  | some p => .ok (.ofPrototype p args)
  | none => .error (.project (.missingOperator name))

end Scope

end BlockLang
