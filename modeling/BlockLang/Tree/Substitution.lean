import BlockLang.Diagnostic
import BlockLang.Tree.Basic

/-!
Expressions and statements with something else in place of macro parameters and of macro calls.
-/

namespace BlockLang

-- What takes the place of macro parameters and of calls of expression macros. Arguments are
-- substituted in before the call that they belong to, but the call can be refused before that.
structure Substitution where
  param : Name → Except Diagnostic Expr
  allow : Name → Nat → Except Diagnostic Unit
  call : Name → List Expr → Except Diagnostic Expr

mutual

def Expr.substitute (r : Substitution) : Expr → Except Diagnostic Expr
  | .literal t => .ok (.literal t)
  | .argument t => .ok (.argument t)
  | .var n => .ok (.var n)
  | .macroVar n => r.param n
  | .macroCall n args => do
    r.allow n args.length
    r.call n (← substituteAll r args)
  | .reporter n args => do return .reporter n (← substituteAll r args)
  | .unary op s e => do return .unary op s (← e.substitute r)
  | .binary op s left right => do return .binary op s (← left.substitute r) (← right.substitute r)
  | .index s e i => do return .index s (← e.substitute r) (← i.substitute r)
  | .listLength l => .ok (.listLength l)
  | .listIndex l e => do return .listIndex l (← e.substitute r)
  | .listContains l e => do return .listContains l (← e.substitute r)
  | .sensingOf t n => .ok (.sensingOf t n)

def Expr.substituteAll (r : Substitution) : List Expr → Except Diagnostic (List Expr)
  | [] => .ok []
  | e :: es => do return (← e.substitute r) :: (← substituteAll r es)

end

mutual

def Stmt.substitute (r : Substitution) : Stmt → Except Diagnostic Stmt
  | .call n args c => do return .call n (← Expr.substituteAll r args) c
  | .macroCall n args => do return .macroCall n (← Expr.substituteAll r args)
  | .branch s branches none => do return .branch s (← substituteBranches r branches) none
  | .branch s branches (some body) => do
    return .branch s (← substituteBranches r branches) (some (← substituteBody r body))
  | .loopUntil s e body => do return .loopUntil s (← e.substitute r) (← substituteBody r body)
  | .loopTimes s e body => do return .loopTimes s (← e.substitute r) (← substituteBody r body)
  | .forever s body => do return .forever s (← substituteBody r body)
  | .declareLocal n e => do return .declareLocal n (← e.substitute r)
  | .assign n e => do return .assign n (← e.substitute r)
  | .compound n op e => do return .compound n op (← e.substitute r)
  | .increment n => .ok (.increment n)
  | .listSet n es => do return .listSet n (← Expr.substituteAll r es)
  | .listAdd n e => do return .listAdd n (← e.substitute r)
  | .listDelete n e => do return .listDelete n (← e.substitute r)
  | .listDeleteAll n => .ok (.listDeleteAll n)
  | .listInsert n i e => do return .listInsert n (← i.substitute r) (← e.substitute r)
  | .listReplace n i op e => do return .listReplace n (← i.substitute r) op (← e.substitute r)
  | .showMonitor n => .ok (.showMonitor n)
  | .hideMonitor n => .ok (.hideMonitor n)

def Stmt.substituteBody (r : Substitution) : List Stmt → Except Diagnostic (List Stmt)
  | [] => .ok []
  | s :: ss => do return (← s.substitute r) :: (← substituteBody r ss)

def Stmt.substituteBranches (r : Substitution) :
    List (Expr × List Stmt) → Except Diagnostic (List (Expr × List Stmt))
  | [] => .ok []
  | (e, body) :: rest => do
    let e ← e.substitute r
    let body ← substituteBody r body
    return (e, body) :: (← substituteBranches r rest)

end

def Event.substitute (r : Substitution) : Event → Except Diagnostic Event
  | .loudness e => do return .loudness (← e.substitute r)
  | .timer e => do return .timer (← e.substitute r)
  | event => .ok event

abbrev Splice := Name → List Expr → Except Diagnostic (List Stmt)

mutual

def Stmt.splice (call : Splice) : Stmt → Except Diagnostic (List Stmt)
  | .macroCall n args => call n args
  | .branch s branches none => do return [.branch s (← spliceBranches call branches) none]
  | .branch s branches (some body) => do
    return [.branch s (← spliceBranches call branches) (some (← spliceBody call body))]
  | .loopUntil s e body => do return [.loopUntil s e (← spliceBody call body)]
  | .loopTimes s e body => do return [.loopTimes s e (← spliceBody call body)]
  | .forever s body => do return [.forever s (← spliceBody call body)]
  | s => .ok [s]

def Stmt.spliceBody (call : Splice) : List Stmt → Except Diagnostic (List Stmt)
  | [] => .ok []
  | s :: ss => do return (← s.splice call) ++ (← spliceBody call ss)

def Stmt.spliceBranches (call : Splice) :
    List (Expr × List Stmt) → Except Diagnostic (List (Expr × List Stmt))
  | [] => .ok []
  | (e, body) :: rest => do
    let body ← spliceBody call body
    return (e, body) :: (← spliceBranches call rest)

end

end BlockLang
