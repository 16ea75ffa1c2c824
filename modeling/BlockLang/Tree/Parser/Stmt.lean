import BlockLang.Tree.Parser.Expr

/-!
Statements from tokens.
-/

namespace BlockLang

-- The assignment that a token stands for, if it combines the old value with a new one.
def AssignOp.ofToken? (t : Token) : Option AssignOp :=
  if t.kind = .op then
    match t.text with
    | "+=" => some add
    | "-=" => some sub
    | "*=" => some mul
    | "/=" => some div
    | "%=" => some mod
    | "++=" => some join
    | _ => none
  else none

-- Gives a call the comment before it, unless it has one after it.
def Stmt.withComment (comment : Option Token) : Stmt → Stmt
  | call name args none => call name args comment
  | s => s

namespace Parser

variable (stop : Token)

def endStatement : Reads (Option Token) := fun s =>
  (expectKind stop .semicolon "';' after statement" s).map fun x => (x.map Lexeme.trailing).upto

def lastExpression : Reads Expr := do
  let e ← anyExpression stop
  let _ ← endStatement stop
  return e

def indexEnd : Reads Expr := do
  let e ← anyExpression stop
  skipKind stop .rbracket "']' after index"
  return e

def localStmt : Reads Stmt := do
  let n ← name stop "variable name after 'local'"
  skip stop (·.isOp "=") "'=' after local variable name"
  let e ← lastExpression stop
  return .declareLocal n e

def addStmt : Reads Stmt := do
  let item ← anyExpression stop
  skip stop (·.isKeyword "to") "'to' in 'add ... to list'"
  let list ← name stop "list name after 'to'"
  let _ ← endStatement stop
  return .listAdd list item

def deleteStmt : Reads Stmt := do
  let list ← name stop "list name after 'delete'"
  if startsWith stop .lbracket (← .upcoming) then
    skipKind stop .lbracket "'[' after list name"
    let index ← indexEnd stop
    let _ ← endStatement stop
    return .listDelete list index
  else
    let _ ← endStatement stop
    return .listDeleteAll list

def insertStmt : Reads Stmt := do
  let item ← anyExpression stop
  skip stop (·.isKeyword "at") "'at' in 'insert ... at list[index]'"
  let list ← name stop "list name after 'at'"
  skipKind stop .lbracket "'[' after list name"
  let index ← indexEnd stop
  let _ ← endStatement stop
  return .listInsert list index item

def listItems : Reads (List Expr) := do
  skipKind stop .lbracket "'[' after list name"
  let items ← if startsWith stop .rbracket (← .upcoming) then pure []
    else .ofAfter (expressions stop)
  skipKind stop .rbracket "']' to close list literal"
  return items

def assignStmt (target : Name) : Reads Stmt := do
  if startsWith stop .lbracket (← .upcoming) then
    let items ← listItems stop
    let _ ← endStatement stop
    return .listSet target items
  else
    let e ← lastExpression stop
    return .assign target e

def replaceOp : Reads (Option AssignOp) := fun s =>
  match s with
  | [] => fail stop [] (.expected "'=' or a compound assignment after list index")
  | l :: ls =>
    if l.token.isOp "=" then .ok (After.one l ls none).upto
    else match AssignOp.ofToken? l.token with
      | some op => .ok (After.one l ls (some op)).upto
      | none => fail stop (l :: ls) (.expected "'=' or a compound assignment after list index")

-- What follows the name and the opening bracket of an assignment to an item of a list.
def replaceStmt (list : Name) : Reads Stmt := do
  let index ← indexEnd stop
  let op ← replaceOp stop
  let item ← lastExpression stop
  return .listReplace list index op item

def callStmt (callee : Name) : Reads Stmt := do
  let args ← if startsWith stop .semicolon (← .upcoming) then pure []
    else .ofAfter (expressions stop)
  let comment ← endStatement stop
  return .call callee args comment

def namedStmt (target : Name) : Reads Stmt := fun s =>
  match s with
  | [] => callStmt stop target []
  | l :: ls =>
    let further (read : Reads Stmt) : Result (Upto (l :: ls) Stmt) :=
      (read ls).map (·.tail.upto)
    if l.token.isOp "=" then further (assignStmt stop target)
    else if let some op := AssignOp.ofToken? l.token then
      further (.compound target op <$> lastExpression stop)
    else if l.token.isOp "++" && startsWith stop .semicolon ls then
      further ((fun _ => .increment target) <$> endStatement stop)
    else if l.token.kind = .lbracket then further (replaceStmt stop target)
    else if (target.text = "show" || target.text = "hide") && l.token.kind = .ident &&
        startsWith stop .semicolon ls then
      let shown : Name := ⟨l.token.text, l.token.span⟩
      let monitor := if target.text = "show" then Stmt.showMonitor shown else .hideMonitor shown
      further ((fun _ => monitor) <$> endStatement stop)
    else callStmt stop target (l :: ls)

def macroStmt (callee : Name) : Reads Stmt := do
  let args ← .ofAfter (arguments stop)
  let _ ← endStatement stop
  return .macroCall callee args

mutual

def statement (s : List Lexeme) : Result (After s Stmt) :=
  match s with
  | [] => fail stop [] (.expected "a statement")
  | l :: ls =>
    let t := l.token
    match t.kind with
    | .keyword =>
      match t.text with
      | "if" => do
        let ⟨condition, r, h⟩ ← expression stop 1 ls
        let ⟨body, r, h₁⟩ ← block r
        let x ← branches r
        return ((x.since h₁).since h).tail.map fun (more, otherwise) =>
          .branch t.span ((condition, body) :: more) otherwise
      | "until" => do
        let ⟨condition, r, h⟩ ← expression stop 1 ls
        let x ← block r
        return (x.since h).tail.map (.loopUntil t.span condition)
      | "repeat" => do
        let ⟨times, r, h⟩ ← expression stop 1 ls
        let x ← block r
        return (x.since h).tail.map (.loopTimes t.span times)
      | "forever" => do
        let x ← block ls
        return x.tail.map (.forever t.span)
      | "local" => (localStmt stop ls).map Upto.tail
      | "add" => (addStmt stop ls).map Upto.tail
      | "delete" => (deleteStmt stop ls).map Upto.tail
      | "insert" => (insertStmt stop ls).map Upto.tail
      | other => fail stop (l :: ls) (.unexpectedKeyword other)
    | .macroVar =>
      if startsWith stop .lparen ls then (macroStmt stop t.macroName ls).map Upto.tail
      else fail stop (l :: ls) (.expected "a statement")
    | .ident => (namedStmt stop ⟨t.text, t.span⟩ ls).map Upto.tail
    | _ => fail stop (l :: ls) (.expected "a statement")
termination_by 4 * s.length
decreasing_by all_goals simp only [List.length_cons]; omega

def branches (s : List Lexeme) :
    Result (Upto s (List (Expr × List Stmt) × Option (List Stmt))) :=
  match s with
  | [] => .ok (.nothing [] ([], none))
  | l :: ls =>
    if l.token.isKeyword "elif" then do
      let ⟨condition, r, h⟩ ← expression stop 1 ls
      let ⟨body, r, h₁⟩ ← block r
      let x ← branches r
      return (((x.since h₁).since h).tail.map fun (more, otherwise) =>
        ((condition, body) :: more, otherwise)).upto
    else if l.token.isKeyword "else" then do
      let x ← block ls
      return (x.tail.map fun body => ([], some body)).upto
    else .ok (.nothing (l :: ls) ([], none))
termination_by 4 * s.length
decreasing_by all_goals simp only [List.length_cons]; omega

def block (s : List Lexeme) : Result (After s (List Stmt)) := do
  let ⟨_, r, h⟩ ← expectKind stop .lbrace "'\x7b'" s
  let x ← statements r
  return x.since h
termination_by 4 * s.length
decreasing_by all_goals omega

def statements (s : List Lexeme) : Result (After s (List Stmt)) :=
  match s with
  | [] => fail stop [] .unterminatedBlock
  | l :: ls =>
    if l.token.kind = .rbrace then .ok (.one l ls [])
    else if l.token.kind = .eof then fail stop (l :: ls) .unterminatedBlock
    else do
      let ⟨st, r, h⟩ ← statement (l :: ls)
      let x ← statements r
      return (x.since h).map (st.withComment l.leading :: ·)
termination_by 4 * s.length + 1
decreasing_by all_goals simp_all only [List.length_cons]; omega

end

end Parser

end BlockLang
