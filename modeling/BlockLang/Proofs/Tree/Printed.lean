import BlockLang.Tree.Basic
import BlockLang.Tree.Parser.Stmt

/-!
Trees without the places that they were read from, and the tokens that a tree is written with, which
have no places either.

An operand stands in parentheses if its operator binds less tightly than the place where it stands
asks for. With `wrap`, all operands of operators and all arguments stand in parentheses.
-/

namespace BlockLang

def Token.bare (t : Token) : Token :=
  { t with span := .none }

def Name.bare (n : Name) : Name :=
  { n with span := .none }

mutual

def Expr.bare : Expr → Expr
  | .literal t => .literal t.bare
  | .argument t => .argument t.bare
  | .var n => .var n.bare
  | .macroVar n => .macroVar n.bare
  | .macroCall n args => .macroCall n.bare (Expr.bareAll args)
  | .reporter n args => .reporter n.bare (Expr.bareAll args)
  | .unary op _ e => .unary op .none e.bare
  | .binary op _ l r => .binary op .none l.bare r.bare
  | .index _ e i => .index .none e.bare i.bare
  | .listLength n => .listLength n.bare
  | .listIndex n e => .listIndex n.bare e.bare
  | .listContains n e => .listContains n.bare e.bare
  | .sensingOf t n => .sensingOf t.bare n.bare

def Expr.bareAll : List Expr → List Expr
  | [] => []
  | e :: es => e.bare :: Expr.bareAll es

end

mutual

def Stmt.bare : Stmt → Stmt
  | .call n args comment => .call n.bare (args.map Expr.bare) (comment.map Token.bare)
  | .macroCall n args => .macroCall n.bare (args.map Expr.bare)
  | .branch _ branches none => .branch .none (Stmt.bareBranches branches) none
  | .branch _ branches (some body) =>
    .branch .none (Stmt.bareBranches branches) (some (Stmt.bareBody body))
  | .loopUntil _ e body => .loopUntil .none e.bare (Stmt.bareBody body)
  | .loopTimes _ e body => .loopTimes .none e.bare (Stmt.bareBody body)
  | .forever _ body => .forever .none (Stmt.bareBody body)
  | .declareLocal n e => .declareLocal n.bare e.bare
  | .assign n e => .assign n.bare e.bare
  | .compound n op e => .compound n.bare op e.bare
  | .increment n => .increment n.bare
  | .listSet n items => .listSet n.bare (items.map Expr.bare)
  | .listAdd n e => .listAdd n.bare e.bare
  | .listDelete n i => .listDelete n.bare i.bare
  | .listDeleteAll n => .listDeleteAll n.bare
  | .listInsert n i e => .listInsert n.bare i.bare e.bare
  | .listReplace n i op e => .listReplace n.bare i.bare op e.bare
  | .showMonitor n => .showMonitor n.bare
  | .hideMonitor n => .hideMonitor n.bare

def Stmt.bareBody : List Stmt → List Stmt
  | [] => []
  | s :: ss => s.bare :: Stmt.bareBody ss

def Stmt.bareBranches : List (Expr × List Stmt) → List (Expr × List Stmt)
  | [] => []
  | (e, body) :: rest => (e.bare, Stmt.bareBody body) :: Stmt.bareBranches rest

end

def Event.bare : Event → Event
  | .message t => .message t.bare
  | .key t => .key t.bare
  | .backdrop t => .backdrop t.bare
  | .loudness e => .loudness e.bare
  | .timer e => .timer e.bare
  | event => event

def Decl.bare : Decl → Decl
  | .costumes paths => .costumes (paths.map Token.bare)
  | .vars ns => .vars (ns.map Name.bare)
  | .lists ns => .lists (ns.map Name.bare)
  | .dataList n path => .dataList n.bare path.bare
  | .imageList n path format => .imageList n.bare path.bare (format.map Name.bare)
  | .function n params body warp =>
    .function n.bare (params.map Name.bare) (Stmt.bareBody body) warp
  | .exprMacro n params e => .exprMacro n.bare (params.map Name.bare) e.bare
  | .blockMacro n params body => .blockMacro n.bare (params.map Name.bare) (Stmt.bareBody body)
  | .event _ kind body => .event .none kind.bare (Stmt.bareBody body)
  | .docComment t => .docComment t.bare

def SpriteTree.bare (tree : SpriteTree) : SpriteTree :=
  tree.map Decl.bare

@[simp]
theorem Expr.bareAll_eq {es : List Expr} : bareAll es = es.map bare := by
  induction es <;> simp_all [bareAll]

@[simp]
theorem Stmt.bareBody_eq {ss : List Stmt} : bareBody ss = ss.map bare := by
  induction ss <;> simp_all [bareBody]

namespace Token

def word (kind : TokenKind) (text : String) : Token :=
  ⟨kind, text, .none⟩

def keyword (text : String) : Token := word .keyword text
def ident (text : String) : Token := word .ident text
def op (text : String) : Token := word .op text
def lparen : Token := word .lparen "("
def rparen : Token := word .rparen ")"
def lbracket : Token := word .lbracket "["
def rbracket : Token := word .rbracket "]"
def lbrace : Token := word .lbrace "\x7b"
def rbrace : Token := word .rbrace "\x7d"
def comma : Token := word .comma ","
def semicolon : Token := word .semicolon ";"
def dot : Token := word .dot "."

theorem bare_eq_bare {t u : Token} : t.bare = u.bare ↔ t.kind = u.kind ∧ t.text = u.text := by
  simp [bare]

theorem bare_eq_word {t : Token} {k : TokenKind} {x : String} :
    t.bare = word k x ↔ t.kind = k ∧ t.text = x := by
  cases t
  simp [bare, word]

theorem isOp_of_bare {t u : Token} {x : String} (h : u.bare = t) : u.isOp x = t.isOp x :=
  h ▸ rfl

theorem assignOp_of_bare {t u : Token} (h : u.bare = t) :
    AssignOp.ofToken? u = AssignOp.ofToken? t :=
  h ▸ rfl

-- Can the token go on with an expression that ends before it?
def Continues (t : Token) : Prop :=
  (BinaryOp.ofToken? t).isSome ∨ t.kind = .lbracket ∨ t.kind = .lparen ∨ t.kind = .dot

instance {t : Token} : Decidable t.Continues :=
  inferInstanceAs (Decidable (_ ∨ _ ∨ _ ∨ _))

def grouped (group : Bool) (ts : List Token) : List Token :=
  if group then lparen :: (ts ++ [rparen]) else ts

end Token

open Token

def Name.token (n : Name) : Token :=
  ident n.text

-- The token of a macro call and of a macro parameter.
def Name.macroToken (n : Name) : Token :=
  word .macroVar (n.text ++ "!")

def UnaryOp.token : UnaryOp → Token
  | neg => op "-"
  | not => keyword "not"

def BinaryOp.token : BinaryOp → Token
  | add => op "+"
  | sub => op "-"
  | mul => op "*"
  | div => op "/"
  | mod => op "%"
  | join => op "++"
  | eq => op "=="
  | ne => op "!="
  | lt => op "<"
  | gt => op ">"
  | le => op "<="
  | ge => op ">="
  | and => keyword "and"
  | or => keyword "or"
  | mem => keyword "in"

def AssignOp.token : AssignOp → Token
  | add => op "+="
  | sub => op "-="
  | mul => op "*="
  | div => op "/="
  | mod => op "%="
  | join => op "++="

-- The binary operators, from those that bind most loosely to those that bind most tightly.
def BinaryOp.table : List (List BinaryOp) :=
  [[or], [and], [eq, ne, lt, gt, le, ge, mem], [join], [add, sub], [mul, div, mod]]

-- The row of an operator in the table.
def BinaryOp.level (op : BinaryOp) : Nat :=
  table.findIdx (op ∈ ·) + 1

theorem BinaryOp.level_eq_precedence {op : BinaryOp} : op.level = op.precedence := by
  cases op <;> rfl

theorem BinaryOp.precedence_le {op : BinaryOp} : op.precedence ≤ 6 := by
  cases op <;> decide

-- How tightly an expression holds together: as its operator binds, and more than all of them if it
-- has none. Operators before an operand bind more tightly than those between operands, and an index
-- binds more tightly than they do.
def Expr.level : Expr → Nat
  | .binary op _ _ _ => op.level
  | .unary _ _ _ => 7
  | .index _ _ _ => 8
  | _ => 9

mutual

-- The tokens of an expression, without parentheses around all of it.
def Expr.bareTokens (wrap : Bool) : Expr → List Token
  | .literal t | .argument t => [t.bare]
  | .var n => [n.token]
  | .macroVar n => [n.macroToken]
  | .macroCall n args =>
    n.macroToken :: lparen :: ((Expr.commaTokens wrap 1 args).tail ++ [rparen])
  | .reporter n args => n.token :: lparen :: ((Expr.commaTokens wrap 1 args).tail ++ [rparen])
  | .unary op _ e => op.token :: grouped (wrap || e.level < 7) (e.bareTokens wrap)
  | .binary op _ l r =>
    grouped (wrap || l.level < op.level) (l.bareTokens wrap) ++
      op.token :: grouped (wrap || r.level < op.level + 1) (r.bareTokens wrap)
  | .index _ e i =>
    grouped (wrap || e.level < 8) (e.bareTokens wrap) ++
      lbracket :: (grouped (wrap || i.level < 1) (i.bareTokens wrap) ++ [rbracket])
  | .listLength n => [n.token, dot, ident "length"]
  | .listIndex n e =>
    n.token :: dot :: ident "index" :: lparen ::
      (grouped (wrap || e.level < 1) (e.bareTokens wrap) ++ [rparen])
  | .listContains n e =>
    n.token :: dot :: ident "contains" :: lparen ::
      (grouped (wrap || e.level < 1) (e.bareTokens wrap) ++ [rparen])
  | .sensingOf t n => [t.bare, dot, n.token]

-- The tokens of expressions, with a comma before each of them.
def Expr.commaTokens (wrap : Bool) (least : Nat) : List Expr → List Token
  | [] => []
  | e :: es =>
    comma :: (grouped (wrap || e.level < least) (e.bareTokens wrap) ++
      Expr.commaTokens wrap least es)

end

-- The tokens of an expression where operators have to bind at least as tightly as `least`.
def Expr.tokens (wrap : Bool) (least : Nat) (e : Expr) : List Token :=
  grouped (wrap || e.level < least) (e.bareTokens wrap)

-- The tokens of expressions with commas between them.
def Expr.items (wrap : Bool) (least : Nat) (es : List Expr) : List Token :=
  (Expr.commaTokens wrap least es).tail

theorem Expr.items_singleton {wrap : Bool} {least : Nat} {e : Expr} :
    Expr.items wrap least [e] = e.tokens wrap least :=
  List.append_nil _

theorem Expr.items_cons {wrap : Bool} {least : Nat} {e e' : Expr} {es : List Expr} :
    Expr.items wrap least (e :: e' :: es) =
      e.tokens wrap least ++ comma :: Expr.items wrap least (e' :: es) :=
  rfl

-- The tokens of an expression in parentheses.
def Expr.operand (wrap : Bool) (e : Expr) : List Token :=
  grouped true (e.bareTokens wrap)

-- The tokens of expressions in parentheses with commas between them.
def Expr.operands (wrap : Bool) : List Expr → List Token :=
  Expr.items wrap 10

theorem Expr.level_le {e : Expr} : e.level ≤ 9 := by
  unfold level
  split
  case h_1 => exact Nat.le_trans (BinaryOp.level_eq_precedence ▸ BinaryOp.precedence_le) (by decide)
  all_goals decide

theorem Expr.operand_eq_tokens {wrap : Bool} {e : Expr} : e.operand wrap = e.tokens wrap 10 := by
  have hl : e.level < 10 := Nat.lt_succ_of_le level_le
  simp [operand, tokens, hl]

theorem Expr.head?_operands {wrap : Bool} {e : Expr} {es : List Expr} {ts : List Token} :
    (Expr.operands wrap (e :: es) ++ ts).head? = some lparen := by
  have hl : e.level < 10 := Nat.lt_succ_of_le level_le
  simp [operands, items, commaTokens, hl, grouped]

-- The tokens of an item on its own, and of others with a comma before each of them.
def Token.series (ts : List Token) : List Token :=
  ts.take 1 ++ ts.tail.flatMap fun t => [comma, t]

mutual

-- The tokens of a statement. Its expressions stand in parentheses.
def Stmt.tokens (wrap : Bool) : Stmt → List Token
  | .call n args _ => n.token :: (Expr.operands wrap args ++ [semicolon])
  | .macroCall n args =>
    n.macroToken :: lparen :: (Expr.operands wrap args ++ [rparen, semicolon])
  | .branch _ branches none => Stmt.branchTokens wrap "if" branches
  | .branch _ branches (some body) =>
    Stmt.branchTokens wrap "if" branches ++ keyword "else" :: lbrace :: Stmt.bodyTokens wrap body
  | .loopUntil _ e body =>
    keyword "until" :: (e.operand wrap ++ lbrace :: Stmt.bodyTokens wrap body)
  | .loopTimes _ e body =>
    keyword "repeat" :: (e.operand wrap ++ lbrace :: Stmt.bodyTokens wrap body)
  | .forever _ body => keyword "forever" :: lbrace :: Stmt.bodyTokens wrap body
  | .declareLocal n e => keyword "local" :: n.token :: op "=" :: (e.operand wrap ++ [semicolon])
  | .assign n e => n.token :: op "=" :: (e.operand wrap ++ [semicolon])
  | .compound n o e => n.token :: o.token :: (e.operand wrap ++ [semicolon])
  | .increment n => [n.token, op "++", semicolon]
  | .listSet n items =>
    n.token :: op "=" :: lbracket :: (Expr.operands wrap items ++ [rbracket, semicolon])
  | .listAdd n e =>
    keyword "add" :: (e.operand wrap ++ [keyword "to", n.token, semicolon])
  | .listDelete n i =>
    keyword "delete" :: n.token :: lbracket :: (i.operand wrap ++ [rbracket, semicolon])
  | .listDeleteAll n => [keyword "delete", n.token, semicolon]
  | .listInsert n i e =>
    keyword "insert" :: (e.operand wrap ++
      keyword "at" :: n.token :: lbracket :: (i.operand wrap ++ [rbracket, semicolon]))
  | .listReplace n i o e =>
    n.token :: lbracket :: (i.operand wrap ++
      rbracket :: (o.elim (op "=") AssignOp.token :: (e.operand wrap ++ [semicolon])))
  | .showMonitor n => [ident "show", n.token, semicolon]
  | .hideMonitor n => [ident "hide", n.token, semicolon]

-- The tokens of statements and of the brace after them.
def Stmt.bodyTokens (wrap : Bool) : List Stmt → List Token
  | [] => [rbrace]
  | s :: ss => s.tokens wrap ++ Stmt.bodyTokens wrap ss

-- The tokens of conditions with their statements. All but the first one stand after `elif`.
def Stmt.branchTokens (wrap : Bool) (start : String) : List (Expr × List Stmt) → List Token
  | [] => []
  | (e, body) :: rest =>
    keyword start :: ((e.operand wrap ++ lbrace :: Stmt.bodyTokens wrap body) ++
      Stmt.branchTokens wrap "elif" rest)

end

def Event.tokens (wrap : Bool) : Event → List Token
  | .flag => [keyword "onflag"]
  | .click => [keyword "onclick"]
  | .clone => [keyword "onclone"]
  | .message t => [keyword "on", t.bare]
  | .key t => [keyword "onkey", t.bare]
  | .backdrop t => [keyword "onbackdrop", t.bare]
  | .loudness e => keyword "onloudness" :: e.operand wrap
  | .timer e => keyword "ontimer" :: e.operand wrap

def Decl.tokens (wrap : Bool) : Decl → List Token
  | .costumes paths => keyword "costumes" :: (series (paths.map Token.bare) ++ [semicolon])
  | .vars ns => keyword "variables" :: (series (ns.map Name.token) ++ [semicolon])
  | .lists ns => keyword "lists" :: (series (ns.map Name.token) ++ [semicolon])
  | .dataList n path => [keyword "datalist", n.token, path.bare, semicolon]
  | .imageList n path format =>
    keyword "imagelist" :: n.token :: path.bare :: (format.toList.map Name.token ++ [semicolon])
  | .function n params body true =>
    keyword "def" :: n.token ::
      (series (params.map Name.token) ++ lbrace :: Stmt.bodyTokens wrap body)
  | .function n params body false =>
    keyword "nowarp" :: keyword "def" :: n.token ::
      (series (params.map Name.token) ++ lbrace :: Stmt.bodyTokens wrap body)
  | .exprMacro n params e =>
    keyword "macro" :: n.token ::
      (series (params.map Name.token) ++ op "->" :: (e.operand wrap ++ [semicolon]))
  | .blockMacro n params body =>
    keyword "macro" :: n.token ::
      (series (params.map Name.token) ++ lbrace :: Stmt.bodyTokens wrap body)
  | .event _ kind body => kind.tokens wrap ++ lbrace :: Stmt.bodyTokens wrap body
  | .docComment _ => []

def SpriteTree.tokens (wrap : Bool) (tree : SpriteTree) : List Token :=
  tree.flatMap (Decl.tokens wrap)

mutual

-- There are no comments in a statement.
def Stmt.CommentFree : Stmt → Prop
  | .call _ _ comment => comment = none
  | .branch _ branches none => Stmt.BranchesCommentFree branches
  | .branch _ branches (some body) =>
    Stmt.BranchesCommentFree branches ∧ Stmt.BodyCommentFree body
  | .loopUntil _ _ body | .loopTimes _ _ body | .forever _ body => Stmt.BodyCommentFree body
  | .macroCall _ _ | .declareLocal _ _ | .assign _ _ | .compound _ _ _ | .increment _
  | .listSet _ _ | .listAdd _ _ | .listDelete _ _ | .listDeleteAll _ | .listInsert _ _ _
  | .listReplace _ _ _ _ | .showMonitor _ | .hideMonitor _ => True

def Stmt.BodyCommentFree : List Stmt → Prop
  | [] => True
  | s :: ss => s.CommentFree ∧ Stmt.BodyCommentFree ss

def Stmt.BranchesCommentFree : List (Expr × List Stmt) → Prop
  | [] => True
  | (_, body) :: rest => Stmt.BodyCommentFree body ∧ Stmt.BranchesCommentFree rest

end

mutual

def Stmt.decideCommentFree : (s : Stmt) → Decidable s.CommentFree
  | .call _ _ comment => inferInstanceAs (Decidable (comment = none))
  | .branch _ branches none => Stmt.decideBranchesCommentFree branches
  | .branch _ branches (some body) =>
    @instDecidableAnd _ _ (Stmt.decideBranchesCommentFree branches)
      (Stmt.decideBodyCommentFree body)
  | .loopUntil _ _ body | .loopTimes _ _ body | .forever _ body => Stmt.decideBodyCommentFree body
  | .macroCall _ _ | .declareLocal _ _ | .assign _ _ | .compound _ _ _ | .increment _
  | .listSet _ _ | .listAdd _ _ | .listDelete _ _ | .listDeleteAll _ | .listInsert _ _ _
  | .listReplace _ _ _ _ | .showMonitor _ | .hideMonitor _ => .isTrue trivial

def Stmt.decideBodyCommentFree : (ss : List Stmt) → Decidable (Stmt.BodyCommentFree ss)
  | [] => .isTrue trivial
  | s :: ss => @instDecidableAnd _ _ s.decideCommentFree (Stmt.decideBodyCommentFree ss)

def Stmt.decideBranchesCommentFree :
    (bs : List (Expr × List Stmt)) → Decidable (Stmt.BranchesCommentFree bs)
  | [] => .isTrue trivial
  | (_, body) :: rest =>
    @instDecidableAnd _ _ (Stmt.decideBodyCommentFree body) (Stmt.decideBranchesCommentFree rest)

end

-- There are no comments in a declaration, and it is none itself.
def Decl.CommentFree : Decl → Prop
  | .function _ _ body _ | .blockMacro _ _ body | .event _ _ body => Stmt.BodyCommentFree body
  | .docComment _ => False
  | .costumes _ | .vars _ | .lists _ | .dataList _ _ | .imageList _ _ _ | .exprMacro _ _ _ => True

instance : DecidablePred Decl.CommentFree
  | .function _ _ body _ | .blockMacro _ _ body | .event _ _ body =>
    Stmt.decideBodyCommentFree body
  | .docComment _ => .isFalse id
  | .costumes _ | .vars _ | .lists _ | .dataList _ _ | .imageList _ _ _ | .exprMacro _ _ _ =>
    .isTrue trivial

def SpriteTree.CommentFree (tree : SpriteTree) : Prop :=
  ∀ d ∈ tree, d.CommentFree

instance : DecidablePred SpriteTree.CommentFree :=
  fun tree => inferInstanceAs (Decidable (∀ d ∈ tree, d.CommentFree))

end BlockLang
