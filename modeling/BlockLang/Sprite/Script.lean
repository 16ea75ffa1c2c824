import BlockLang.Sprite.Reporter

/-!
Statements as stacks of blocks.
-/

namespace BlockLang

namespace Block

def setVariable (name : String) (value : Input) : Block :=
  ((plain "data_setvariableto").withInput "VALUE" value).withField "VARIABLE" (.var name)

def changeVariable (name : String) (value : Input) : Block :=
  ((plain "data_changevariableby").withInput "VALUE" value).withField "VARIABLE" (.var name)

def addItem (list : String) (item : Input) : Block :=
  (ofList "data_addtolist" list).withInput "ITEM" item

-- Runs one stack if a condition holds, and another one otherwise if there is one.
def choice (condition : Block) (body : List Block) (otherwise : Option (List Block)) : Block :=
  match otherwise with
  | none => ((plain "control_if").withInput "CONDITION" (.block condition)).withInput "SUBSTACK"
      (.stack body)
  | some other => (((plain "control_if_else").withInput "CONDITION" (.block condition)).withInput
      "SUBSTACK" (.stack body)).withInput "SUBSTACK2" (.stack other)

end Block

def AssignOp.reporter : AssignOp → String
  | add => "add"
  | sub => "sub"
  | mul => "mul"
  | div => "div"
  | mod => "mod"
  | join => "join"

namespace Scope

variable (scope : Scope)

-- Combines the value of a variable with another one. Sums and differences change the variable, and
-- so does doubling it.
def combine (name : String) (op : AssignOp) (value : Input) : Except Diagnostic Block :=
  let doubles := (value.literal?.bind number?).any (· == 2.0)
  match op with
  | .add => .ok (.changeVariable name value)
  | .sub => .ok (.changeVariable name value.negate.1)
  | op =>
    if op = .mul && doubles then .ok (.changeVariable name (.var name))
    else do
      return .setVariable name (.block (← scope.operator op.reporter [.var name, value]))

-- Replaces an item of a list, by itself combined with a value if there is an operator.
def replaceItem (list : String) (index : Input) (op : Option AssignOp) (value : Input) :
    Except Diagnostic Block := do
  let value ← match op with
    | none => pure value
    | some op =>
      let old := (Block.ofList "data_itemoflist" list).withInput "INDEX" index
      pure (.block (← scope.operator op.reporter [.block old, value]))
  let block := Block.ofList "data_replaceitemoflist" list
  return (block.withInput "INDEX" index).withInput "ITEM" value

def visibility (action : String) (name : Name) : Except Diagnostic Block := do
  match ← scope.resolve name with
  | .list l => return (Block.ofList s!"data_{action}list" l).writtenAt name.span
  | .var v =>
    let block := Block.plain s!"data_{action}variable"
    return (block.withField "VARIABLE" (.var v)).writtenAt name.span

-- What a statement of some name calls: a function, or else a statement of the vocabulary.
def callee (name : Name) : Except Diagnostic (Function ⊕ Prototype) :=
  match scope.symbols.functions[name.text]?, scope.vocabulary.statements[name.text]? with
  | some f, _ => .ok (.inl f)
  | none, some p => .ok (.inr p)
  | none, none => .error (.span name.span (.undefinedStatement name.text)
      (Diagnostic.didYouMean (Text.suggest name.text
        (scope.vocabulary.statements.keys ++ scope.symbols.functions.keys))))

def call (name : Name) (args : List Expr) : Except Diagnostic Block := do
  match ← scope.callee name with
  | .inl f =>
    let params := f.params.map (·.text)
    checkCount .procedure name params args.length
    return (Block.call f.code f.warp (params.zip (← Expr.inputs scope args))).writtenAt name.span
  | .inr p =>
    checkCount .statement name p.params args.length
    return (Block.ofPrototype p (arguments p (← Expr.inputs scope args))).writtenAt name.span

def localVariable (name : Name) : Except Diagnostic String :=
  match scope.function with
  | some f => .ok (localName f.name.text name.text)
  | none => .error (.span name.span .localOutside (some "switch to a non-local variable"))

def fill (list : String) (span : Span) (items : List Input) : List Block :=
  ((Block.ofList "data_deletealloflist" list) :: items.map (Block.addItem list)).map
    (Block.writtenAt span)

end Scope

mutual

def Stmt.blocks (scope : Scope) : Stmt → Except Diagnostic (List Block)
  | .call name args comment => do
    let comment ← comment.mapM Token.literal
    let b ← scope.call name args
    return [{ b with comment }]
  | .macroCall name _ => .error (.span name.span (.unexpandedMacro name.text))
  | .branch _ [] none => .ok []
  | .branch _ [] (some body) => Stmt.allBlocks scope body
  | .branch s (first :: rest) none => do
    return ((← Stmt.chain scope (.ok none) (first :: rest)).getD []).map (·.writtenAt s)
  | .branch s (first :: rest) (some body) => do
    let otherwise := do return some (← Block.stacked (← Stmt.allBlocks scope body))
    return ((← Stmt.chain scope otherwise (first :: rest)).getD []).map (·.writtenAt s)
  | .loopUntil s condition body => do
    let condition := Block.ofTruth (← condition.input scope) false
    let body ← Block.stacked (← Stmt.allBlocks scope body)
    let block := (Block.plain "control_repeat_until").withInput "CONDITION" (.block condition)
    return [(block.withInput "SUBSTACK" (.stack body)).writtenAt s]
  | .loopTimes s times body => do
    let times ← times.input scope
    let body ← Block.stacked (← Stmt.allBlocks scope body)
    let block := (Block.plain "control_repeat").withInput "TIMES" times
    return [(block.withInput "SUBSTACK" (.stack body)).writtenAt s]
  | .forever s body => do
    let body ← Block.stacked (← Stmt.allBlocks scope body)
    return [((Block.plain "control_forever").withInput "SUBSTACK" (.stack body)).writtenAt s]
  | .declareLocal name e => do
    let v ← scope.localVariable name
    return [(Block.setVariable v (← e.input scope)).writtenAt name.span]
  | .assign name e => do
    let v ← scope.scalar name
    return [(Block.setVariable v (← e.input scope)).writtenAt name.span]
  | .compound name op e => do
    let v ← scope.scalar name
    let value ← e.input scope
    return [(← scope.combine v op value).writtenAt name.span]
  | .increment name => do
    return [(Block.changeVariable (← scope.scalar name) (.literal "1")).writtenAt name.span]
  | .listSet name items => do
    let list ← scope.list name
    return Scope.fill list name.span (← Expr.inputs scope items)
  | .listAdd name e => do
    let list ← scope.list name
    return [(Block.addItem list (← e.input scope)).writtenAt name.span]
  | .listDelete name i => do
    let list ← scope.list name
    return [((Block.ofList "data_deleteoflist" list).withInput "INDEX" (← i.input scope)).writtenAt
      name.span]
  | .listDeleteAll name => do
    return [(Block.ofList "data_deletealloflist" (← scope.list name)).writtenAt name.span]
  | .listInsert name i e => do
    let list ← scope.list name
    let index ← i.input scope
    let item ← e.input scope
    return [(((Block.ofList "data_insertatlist" list).withInput "INDEX" index).withInput "ITEM"
      item).writtenAt name.span]
  | .listReplace name i op e => do
    let list ← scope.list name
    let index ← i.input scope
    let item ← e.input scope
    return [(← scope.replaceItem list index op item).writtenAt name.span]
  | .showMonitor name => do return [← scope.visibility "show" name]
  | .hideMonitor name => do return [← scope.visibility "hide" name]

def Stmt.allBlocks (scope : Scope) : List Stmt → Except Diagnostic (List Block)
  | [] => .ok []
  | s :: ss => do
    let bs ← s.blocks scope
    return bs ++ (← Stmt.allBlocks scope ss)

-- What runs if no branch before these ones has run: the next choice, or `otherwise` if there is
-- none.
def Stmt.chain (scope : Scope) (otherwise : Except Diagnostic (Option (List Block))) :
    List (Expr × List Stmt) → Except Diagnostic (Option (List Block))
  | [] => otherwise
  | (condition, body) :: rest => do
    let condition := Block.ofTruth (← condition.input scope) false
    let body ← Block.stacked (← Stmt.allBlocks scope body)
    return some [Block.choice condition body (← Stmt.chain scope otherwise rest)]

end

def Stmt.stack (scope : Scope) (body : List Stmt) : Except Diagnostic (List Block) := do
  Block.stacked (← Stmt.allBlocks scope body)

def Event.hat (scope : Scope) (event : Event) (body : List Block) : Except Diagnostic Block := do
  match event with
  | .flag => return .hat "event_whenflagclicked" body
  | .click => return .hat "event_whenthisspriteclicked" body
  | .clone => return .hat "control_start_as_clone" body
  | .message token =>
    return (Block.hat "event_whenbroadcastreceived" body).withField "BROADCAST_OPTION"
      (.var (← token.literal))
  | .key token =>
    return (Block.hat "event_whenkeypressed" body).withField "KEY_OPTION"
      (.literal (← token.literal))
  | .backdrop token =>
    return (Block.hat "event_whenbackdropswitchesto" body).withField "BACKDROP_OPTION"
      (.literal (← token.literal))
  | .loudness e => return exceeds (← e.input scope) "LOUDNESS"
  | .timer e => return exceeds (← e.input scope) "TIMER"
where
  -- Starts when something exceeds a threshold.
  exceeds (threshold : Input) (what : String) : Block :=
    ((Block.hat "event_whengreaterthan" body).withInput "VALUE" threshold).withField
      "WHENGREATERTHANMENU" (.literal what)

end BlockLang
