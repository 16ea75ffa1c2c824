import BlockLang.Text.Blank
import BlockLang.Tree.Parser.Reads

/-!
Expressions from tokens.

Binary operators group to the left. From the loosest to the tightest there are `or`, `and`, the
comparisons with `in`, `++`, the sums and the products; then the operators before an operand, and
then the index after one.
-/

namespace BlockLang

def BinaryOp.precedence : BinaryOp → Nat
  | or => 1
  | and => 2
  | eq | ne | lt | gt | le | ge | mem => 3
  | join => 4
  | add | sub => 5
  | mul | div | mod => 6

def BinaryOp.ofToken? (t : Token) : Option BinaryOp :=
  match t.kind with
  | .keyword => match t.text with
    | "or" => some or
    | "and" => some and
    | "in" => some mem
    | _ => none
  | .op => match t.text with
    | "==" => some eq
    | "!=" => some ne
    | "<" => some lt
    | ">" => some gt
    | "<=" => some le
    | ">=" => some ge
    | "++" => some join
    | "+" => some add
    | "-" => some sub
    | "*" => some mul
    | "/" => some div
    | "%" => some mod
    | _ => none
  | _ => none

def UnaryOp.ofToken? (t : Token) : Option UnaryOp :=
  if t.isOp "-" then some neg
  else if t.isKeyword "not" then some not
  else none

def Token.macroName (t : Token) : Name :=
  let text := Text.dropEndWhile (· = '!') t.text.toList
  ⟨String.ofList text, { t.span with length := text.length }⟩

namespace Parser

variable (stop : Token)

def noArguments (s : List Lexeme) : Result (Upto s Unit) :=
  match s with
  | [] => .ok (.nothing [] ())
  | l :: ls =>
    if l.token.kind = .lparen then do
      let x ← expectKind stop .rparen "')' after 'length('" ls
      return (x.tail.as ()).upto
    else .ok (.nothing (l :: ls) ())

mutual

-- An expression whose operators bind at least as tightly as `least`.
def expression (least : Nat) (s : List Lexeme) : Result (After s Expr) := do
  let ⟨left, r, h⟩ ← unary s
  let x ← operators least left r
  return x.since h
termination_by 16 * s.length + 7
decreasing_by all_goals omega

def operators (least : Nat) (left : Expr) (s : List Lexeme) : Result (Upto s Expr) :=
  match s with
  | [] => .ok (.nothing [] left)
  | l :: ls =>
    match BinaryOp.ofToken? l.token with
    | some op =>
      if op.precedence < least then .ok (.nothing (l :: ls) left)
      else do
        let ⟨right, r, h⟩ ← expression (op.precedence + 1) ls
        let x ← operators least (.binary op l.token.span left right) r
        return (x.since h).tail.upto
    | none => .ok (.nothing (l :: ls) left)
termination_by 16 * s.length
decreasing_by all_goals simp only [List.length_cons]; omega

def unary (s : List Lexeme) : Result (After s Expr) :=
  match s with
  | [] => fail stop [] (.expected "an expression")
  | l :: ls =>
    match UnaryOp.ofToken? l.token with
    | some op => do
      let x ← unary ls
      return x.tail.map (.unary op l.token.span)
    | none => postfixed (l :: ls)
termination_by 16 * s.length + 6
decreasing_by all_goals simp only [List.length_cons]; omega

def postfixed (s : List Lexeme) : Result (After s Expr) := do
  let ⟨e, r, h⟩ ← primary s
  let x ← indices e r
  return x.since h
termination_by 16 * s.length + 5
decreasing_by all_goals omega

def indices (target : Expr) (s : List Lexeme) : Result (Upto s Expr) :=
  match s with
  | [] => .ok (.nothing [] target)
  | l :: ls =>
    if l.token.kind = .lbracket then do
      let ⟨index, r, h⟩ ← expression 1 ls
      let ⟨_, r, h₁⟩ ← expectKind stop .rbracket "']' after index" r
      let x ← indices (.index l.token.span target index) r
      return ((x.since h₁).since h).tail.upto
    else .ok (.nothing (l :: ls) target)
termination_by 16 * s.length
decreasing_by all_goals simp only [List.length_cons]; omega

def primary (s : List Lexeme) : Result (After s Expr) :=
  match s with
  | [] => fail stop [] (.expected "an expression")
  | l :: ls =>
    let t := l.token
    match t.kind with
    | .number | .float => .ok (.one l ls (.literal t))
    | .keyword =>
      if t.text = "true" || t.text = "false" then .ok (.one l ls (.literal t))
      else fail stop (l :: ls) (.expected "an expression")
    | .string =>
      match ls with
      | d :: ls =>
        if d.token.kind = .dot then do
          let x ← name stop "property name after '.'" ls
          return (x.map (.sensingOf t)).tail.tail
        else .ok (.one l (d :: ls) (.literal t))
      | [] => .ok (.one l [] (.literal t))
    | .argument => .ok (.one l ls (.argument t))
    | .macroVar =>
      if startsWith stop .lparen ls then do
        let x ← arguments ls
        return x.tail.map (.macroCall t.macroName)
      else .ok (.one l ls (.macroVar t.macroName))
    | .ident =>
      if startsWith stop .lparen ls then do
        let x ← arguments ls
        return x.tail.map (.reporter ⟨t.text, t.span⟩)
      else match ls with
        | d :: ls =>
          if d.token.kind = .dot then do
            let x ← listQuery ⟨t.text, t.span⟩ ls
            return x.tail.tail
          else .ok (.one l (d :: ls) (.var ⟨t.text, t.span⟩))
        | [] => .ok (.one l [] (.var ⟨t.text, t.span⟩))
    | .lparen => do
      let ⟨e, r, h⟩ ← expression 1 ls
      let x ← expectKind stop .rparen "')' to close expression" r
      return (x.since h).tail.as e
    | _ => fail stop (l :: ls) (.expected "an expression")
termination_by 16 * s.length + 4
decreasing_by all_goals simp only [List.length_cons]; omega

def listQuery (list : Name) (s : List Lexeme) : Result (After s Expr) := do
  let ⟨method, r, h⟩ ← expectKind stop .ident "'length', 'index' or 'contains' after '.'" s
  match method.token.text with
  | "length" =>
    let x ← noArguments stop r
    return (x.since h).as (.listLength list)
  | "index" =>
    let x ← methodArgument r
    return (x.since h).map (.listIndex list)
  | "contains" =>
    let x ← methodArgument r
    return (x.since h).map (.listContains list)
  | other => .error ⟨.unknownListMethod other, method.token.span⟩
termination_by 16 * s.length + 1
decreasing_by all_goals omega

def methodArgument (s : List Lexeme) : Result (After s Expr) := do
  let ⟨_, r, h⟩ ← expectKind stop .lparen "'(' after list method name" s
  let ⟨item, r, h₁⟩ ← expression 1 r
  let x ← expectKind stop .rparen "')' after list method argument" r
  return ((x.since h₁).since h).as item
termination_by 16 * s.length
decreasing_by all_goals omega

def arguments (s : List Lexeme) : Result (After s (List Expr)) := do
  let ⟨_, r, h⟩ ← expectKind stop .lparen "'('" s
  if startsWith stop .rparen r then
    let x ← expectKind stop .rparen "')' after arguments" r
    return (x.since h).as []
  else
    let ⟨args, r, h₁⟩ ← expressions r
    let x ← expectKind stop .rparen "')' after arguments" r
    return ((x.since h₁).since h).as args
termination_by 16 * s.length
decreasing_by all_goals omega

def expressions (s : List Lexeme) : Result (After s (List Expr)) := do
  let ⟨e, r, h⟩ ← expression 1 s
  let x ← moreExpressions r
  return (x.since h).map (e :: ·)
termination_by 16 * s.length + 8
decreasing_by all_goals omega

def moreExpressions (s : List Lexeme) : Result (Upto s (List Expr)) :=
  match s with
  | [] => .ok (.nothing [] [])
  | l :: ls =>
    if l.token.kind = .comma then do
      let x ← expressions ls
      return x.tail.upto
    else .ok (.nothing (l :: ls) [])
termination_by 16 * s.length
decreasing_by all_goals simp only [List.length_cons]; omega

end

def anyExpression : Reads Expr :=
  .ofAfter (expression stop 1)

end Parser

end BlockLang
