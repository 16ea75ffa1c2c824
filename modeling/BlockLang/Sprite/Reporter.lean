import BlockLang.Block.Logic
import BlockLang.Sprite.Scope
import BlockLang.Token.Literal

/-!
Expressions as inputs of blocks.
-/

namespace BlockLang

def Reference.input : Reference → Input
  | var name => .var name
  | list name => .list name

def Block.ofList (opcode list : String) : Block :=
  (plain opcode).withField "LIST" (.list list)

def Block.listContains (list : String) (item : Input) : Block :=
  ((condition "data_listcontainsitem").withInput "ITEM" item).withField "LIST" (.list list)

def sensedProperty : String → String
  | "x_position" => "x position"
  | "y_position" => "y position"
  | "costume_number" => "costume #"
  | "costume_name" => "costume name"
  | "backdrop_number" => "backdrop #"
  | "backdrop_name" => "backdrop name"
  | property => property

def Block.sensed (object : String) (property : Name) : Block :=
  let object := if object = "Stage" then "_stage_" else object
  let menu := (plain "sensing_of_object_menu").withField "OBJECT" (.literal object)
  (((plain "sensing_of").withInput "OBJECT" (.block menu)).withField "PROPERTY"
    (.literal (sensedProperty property.text))).writtenAt property.span

namespace Scope

variable (scope : Scope)

def folded (op : BinaryOp) (reporter : String) (l r : Input) : Except Diagnostic Input :=
  let known := do foldBinary? op (← l.literal?) (← r.literal?)
  match known with
  | some text => .ok (.literal text)
  | none => do return .block (← scope.operator reporter [l, r])

def member (item container : Input) : Except Diagnostic Input := do
  match container with
  | .list name => return .block (.listContains name item)
  | text => return .block (← scope.operator "contains" [text, item])

def binary (op : BinaryOp) (l r : Input) : Except Diagnostic Input :=
  match op with
  | .add => scope.folded .add "add" l r
  | .sub => scope.folded .sub "sub" l r
  | .mul => scope.folded .mul "mul" l r
  | .div => scope.folded .div "div" l r
  | .mod => scope.folded .mod "mod" l r
  | .join => scope.folded .join "join" l r
  | .eq => scope.folded .eq "eq" l r
  | .lt => scope.folded .lt "lt" l r
  | .gt => scope.folded .gt "gt" l r
  | .ne => do return (← scope.folded .eq "eq" l r).not
  | .le => do return (← scope.folded .gt "gt" l r).not
  | .ge => do return (← scope.folded .lt "lt" l r).not
  | .and => .ok (.block (.logical true l r))
  | .or => .ok (.block (.logical false l r))
  | .mem => scope.member l r

def item (target index : Input) : Except Diagnostic Input := do
  match target with
  | .list name => return .block ((Block.ofList "data_itemoflist" name).withInput "INDEX" index)
  | text => return .block (← scope.operator "letter" [index, text])

def argument (token : Token) : Except Diagnostic Input :=
  match scope.function with
  | none => .error (.span token.span .argumentOutside)
  | some f => do
    let name ← token.literal
    let params := f.params.map (·.text)
    if params.contains name then return .block ((Block.argument name false).writtenAt token.span)
    else .error (.span token.span .undefinedArgument
      ((Text.suggest name params).map fun found => s!"Did you mean `${found}`?"))

-- The reporter of a name, which has to be given as many arguments as it takes.
def reporterOf (name : Name) (given : Nat) : Except Diagnostic Prototype :=
  match scope.vocabulary.reporters[name.text]? with
  | none => .error (.span name.span (.undefinedReporter name.text)
      (Diagnostic.didYouMean (Text.suggest name.text scope.vocabulary.reporters.keys)))
  | some p => do
    checkCount .reporter name p.params given
    return p

-- The arguments of a prototype. A parameter that is a condition takes a block that answers yes or
-- no.
def arguments (p : Prototype) (args : List Input) : List Input :=
  (p.params.zip args).map fun (param, i) =>
    if param = "CONDITION" then .block (.ofTruth i false) else i

def foldedRoot? (b : Block) : Option String :=
  if b.opcode = "operator_mathop" && b.field? "OPERATOR" = some (.literal "sqrt") then
    (b.input? "NUM").bind (·.literal?) |>.bind foldSqrt?
  else none

def report (name : Name) (p : Prototype) (args : List Input) : Input :=
  let b := (Block.ofPrototype p (arguments p args)).writtenAt name.span
  match foldedRoot? b with
  | some text => .literal text
  | none => .block b

end Scope

mutual

def Expr.input (scope : Scope) : Expr → Except Diagnostic Input
  | .literal token => do return .literal (← token.literal)
  | .argument token => scope.argument token
  | .var name => do return (← scope.resolve name).input
  | .macroVar name => .error (.span name.span (.macroParameterOutside name.text))
  | .macroCall name _ => .error (.span name.span (.unexpandedMacro name.text))
  | .reporter name args => do
    let p ← scope.reporterOf name args.length
    return Scope.report name p (← Expr.inputs scope args)
  | .unary .neg _ e => do return (← e.input scope).negate.1
  | .unary .not _ e => do return (← e.input scope).not
  | .binary op _ l r => do
    let l ← l.input scope
    let r ← r.input scope
    scope.binary op l r
  | .index _ e i => do
    let i ← i.input scope
    let e ← e.input scope
    scope.item e i
  | .listLength name => do return .block (.lengthOf (← scope.list name))
  | .listIndex name e => do
    let list ← scope.list name
    return .block ((Block.ofList "data_itemnumoflist" list).withInput "ITEM" (← e.input scope))
  | .listContains name e => do
    let list ← scope.list name
    return .block (.listContains list (← e.input scope))
  | .sensingOf token name => do return .block (.sensed (← token.literal) name)

def Expr.inputs (scope : Scope) : List Expr → Except Diagnostic (List Input)
  | [] => .ok []
  | e :: es => do
    let i ← e.input scope
    return i :: (← Expr.inputs scope es)

end

end BlockLang
