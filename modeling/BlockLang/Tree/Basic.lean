import BlockLang.Token.Basic

/-!
The program of one sprite as a tree.
-/

namespace BlockLang

inductive UnaryOp where
  | neg
  | not
  deriving DecidableEq, Repr

inductive BinaryOp where
  | add
  | sub
  | mul
  | div
  | mod
  | join
  | eq
  | ne
  | lt
  | gt
  | le
  | ge
  | and
  | or
  | mem
  deriving DecidableEq, Repr

-- Operators that an assignment combines the old value with.
inductive AssignOp where
  | add
  | sub
  | mul
  | div
  | mod
  | join
  deriving DecidableEq, Repr

inductive Expr where
  | literal (token : Token)
  | argument (token : Token)
  | var (name : Name)
  | macroVar (name : Name)
  | macroCall (name : Name) (args : List Expr)
  | reporter (name : Name) (args : List Expr)
  | unary (op : UnaryOp) (span : Span) (operand : Expr)
  | binary (op : BinaryOp) (span : Span) (left right : Expr)
  | index (span : Span) (target index : Expr)
  | listLength (list : Name)
  | listIndex (list : Name) (item : Expr)
  | listContains (list : Name) (item : Expr)
  | sensingOf (object : Token) (property : Name)
  deriving Repr, Inhabited

-- Where an expression is reported: its own token, or that of its operator.
def Expr.span : Expr → Span
  | literal token | argument token => token.span
  | var name | macroVar name | macroCall name _ | reporter name _ => name.span
  | unary _ span _ | binary _ span _ _ | index span _ _ => span
  | listLength list | listIndex list _ | listContains list _ => list.span
  | sensingOf object _ => object.span

inductive Stmt where
  | call (name : Name) (args : List Expr) (comment : Option Token)
  | macroCall (name : Name) (args : List Expr)
  | branch (span : Span) (branches : List (Expr × List Stmt)) (otherwise : Option (List Stmt))
  | loopUntil (span : Span) (condition : Expr) (body : List Stmt)
  | loopTimes (span : Span) (times : Expr) (body : List Stmt)
  | forever (span : Span) (body : List Stmt)
  | declareLocal (name : Name) (value : Expr)
  | assign (name : Name) (value : Expr)
  | compound (name : Name) (op : AssignOp) (value : Expr)
  | increment (name : Name)
  | listSet (name : Name) (items : List Expr)
  | listAdd (list : Name) (item : Expr)
  | listDelete (list : Name) (index : Expr)
  | listDeleteAll (list : Name)
  | listInsert (list : Name) (index item : Expr)
  | listReplace (list : Name) (index : Expr) (op : Option AssignOp) (item : Expr)
  | showMonitor (name : Name)
  | hideMonitor (name : Name)
  deriving Repr, Inhabited

inductive Event where
  | flag
  | click
  | clone
  | message (token : Token)
  | key (token : Token)
  | backdrop (token : Token)
  | loudness (threshold : Expr)
  | timer (threshold : Expr)
  deriving Repr

inductive Decl where
  | costumes (paths : List Token)
  | vars (names : List Name)
  | lists (names : List Name)
  | dataList (name : Name) (path : Token)
  | imageList (name : Name) (path : Token) (format : Option Name)
  | function (name : Name) (params : List Name) (body : List Stmt) (warp : Bool)
  | exprMacro (name : Name) (params : List Name) (body : Expr)
  | blockMacro (name : Name) (params : List Name) (body : List Stmt)
  | event (span : Span) (kind : Event) (body : List Stmt)
  | docComment (token : Token)
  deriving Repr

abbrev SpriteTree := List Decl

end BlockLang
