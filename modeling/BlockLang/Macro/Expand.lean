import BlockLang.Symbols.Basic
import BlockLang.Text.Distance
import BlockLang.Tree.Substitution

/-!
Macro calls replaced by what they stand for.

A macro is never expanded within itself, so no chain of calls is longer than there are macros.
-/

namespace BlockLang

namespace Macro

variable {β : Type}

def checkCount (kind : MacroKind) (name : Name) (params : List String) (given : Nat) :
    Except Diagnostic Unit :=
  let shown := ", ".intercalate
  if given < params.length then
    .error (.span name.span (.macroTooFewArguments kind) s!"Missing {shown (params.drop given)}")
  else if params.length < given then
    .error (.span name.span (.macroTooManyArguments kind)
      (if params.isEmpty then "Expected no arguments" else s!"Expected {shown params}"))
  else .ok ()

def find (macros : Std.TreeMap String (Macro β)) (kind : MacroKind) (name : Name) (given : Nat) :
    Except Diagnostic (Macro β) :=
  match macros[name.text]? with
  | none => .error (.span name.span (.undefinedMacro name.text)
      (Diagnostic.didYouMean (Text.suggest name.text macros.keys)))
  | some m => do
    checkCount kind name m.params given
    return m

def recursive {α : Type} (name : Name) : Except Diagnostic α :=
  .error (.span name.span (.recursiveMacro name.text) (some "A macro cannot expand into itself"))

def argument (params : List String) (args : List Expr) (name : Name) : Except Diagnostic Expr :=
  match (params.zip args).lookup name.text with
  | some e => .ok e
  | none => .error (.span name.span (.undefinedMacroParameter name.text)
      ((Text.suggest name.text params).map fun similar => s!"Did you mean `{similar}!`?"))

-- Puts the arguments in place of the parameters. Nothing is replaced within an argument.
def substitution (params : List String) (args : List Expr) : Substitution where
  param := argument params args
  allow _ _ := .ok ()
  call name args := .ok (.macroCall name args)

def expansion (macros : Std.TreeMap String ExprMacro)
    (call : Name → List Expr → Except Diagnostic Expr) : Substitution where
  param name := .ok (.macroVar name)
  allow name given := do
    let _ ← find macros .expression name given
  call := call

-- What a call stands for. `active` are the macros on the way there.
def expandCall (macros : Std.TreeMap String ExprMacro) :
    Nat → List String → Name → List Expr → Except Diagnostic Expr
  | 0, _, name, _ => recursive name
  | depth + 1, active, name, args => do
    let m ← find macros .expression name args.length
    if active.contains name.text then recursive name
    else
      let further := expandCall macros depth (name.text :: active)
      let body ← m.body.substitute (expansion macros further)
      body.substitute (substitution m.params args)

-- What a call of a block macro stands for. `active` are the macros on the way there.
def spliceCall (macros : Std.TreeMap String BlockMacro) : Nat → List String → Splice
  | 0, _, name, _ => recursive name
  | depth + 1, active, name, args => do
    let m ← find macros .block name args.length
    if active.contains name.text then recursive name
    else
      let body ← Stmt.spliceBody (spliceCall macros depth (name.text :: active)) m.body
      Stmt.substituteBody (substitution m.params args) body

end Macro

namespace SpriteTree

def expandBlocks (macros : Std.TreeMap String BlockMacro) (d : Decl) : Except Diagnostic Decl :=
  let call := Macro.spliceCall macros (macros.size + 1) []
  match d with
  | .function name params body warp => do
    return .function name params (← Stmt.spliceBody call body) warp
  | .event s event body => do return .event s event (← Stmt.spliceBody call body)
  | d => .ok d

def expandExprs (macros : Std.TreeMap String ExprMacro) (d : Decl) : Except Diagnostic Decl :=
  let r := Macro.expansion macros (Macro.expandCall macros (macros.size + 1) [])
  match d with
  | .function name params body warp => do
    return .function name params (← Stmt.substituteBody r body) warp
  | .event s event body => do
    let event ← event.substitute r
    return .event s event (← Stmt.substituteBody r body)
  | d => .ok d

def expandBlockMacros (macros : Std.TreeMap String BlockMacro) (tree : SpriteTree) :
    Except Diagnostic SpriteTree :=
  tree.mapM (expandBlocks macros)

def expandExprMacros (macros : Std.TreeMap String ExprMacro) (tree : SpriteTree) :
    Except Diagnostic SpriteTree :=
  tree.mapM (expandExprs macros)

-- Expands all macros. Block macros come first, as their bodies can call expression macros.
def expandMacros (s : Symbols) (tree : SpriteTree) : Except Diagnostic SpriteTree := do
  expandExprMacros s.exprMacros (← expandBlockMacros s.blockMacros tree)

end SpriteTree

end BlockLang
