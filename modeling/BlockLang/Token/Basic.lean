import BlockLang.Span

/-!
The words of the language.
-/

namespace BlockLang

inductive TokenKind where
  | keyword
  | ident
  | number
  | float
  | string
  | argument
  | macroVar
  | comment
  | op
  | lparen
  | rparen
  | lbrace
  | rbrace
  | lbracket
  | rbracket
  | comma
  | semicolon
  | dot
  | eof
  deriving DecidableEq, Repr, Inhabited

-- A word as it is written, quotes and marks included.
structure Token where
  kind : TokenKind
  text : String
  span : Span
  deriving DecidableEq, Repr, Inhabited

namespace Token

def isOp (t : Token) (op : String) : Bool :=
  t.kind = .op && t.text = op

def isKeyword (t : Token) (keyword : String) : Bool :=
  t.kind = .keyword && t.text = keyword

def keywords : List String := [
  "add", "and", "at", "costumes", "datalist", "def", "delete", "elif", "else", "false", "forever",
  "if", "imagelist", "in", "insert", "lists", "local", "macro", "not", "nowarp", "on",
  "onbackdrop", "onclick", "onclone", "onflag", "onkey", "onloudness", "ontimer", "or", "repeat",
  "to", "true", "until", "variables"]

-- The operators, each before the shorter ones that it starts with.
def operators : List String := [
  "++=", "==", "!=", "<=", ">=", "+=", "-=", "*=", "/=", "%=", "++", "->", "=", "<", ">", "+",
  "-", "*", "/", "%"]

def punctuation? : Char → Option TokenKind
  | '(' => some .lparen
  | ')' => some .rparen
  | '{' => some .lbrace
  | '}' => some .rbrace
  | '[' => some .lbracket
  | ']' => some .rbracket
  | ',' => some .comma
  | ';' => some .semicolon
  | '.' => some .dot
  | _ => none

end Token

end BlockLang
