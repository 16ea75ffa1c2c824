import BlockLang.Diagnostic
import BlockLang.Token.Lexer
import BlockLang.Tree.Parser.Stmt

/-!
Declarations, and whole sprites, from tokens and from source text.
-/

namespace BlockLang

namespace Parser

variable (stop : Token)

def costumesDecl : Reads Decl := do
  let path ← string stop "costume path string"
  let paths ← afterCommas (string stop "costume path string")
  skipKind stop .semicolon "';' after costumes"
  return .costumes (path :: paths)

def namesDecl (what : String) : Reads (List Name) := do
  let ns ← names stop
  skipKind stop .semicolon what
  return ns

def dataListDecl : Reads Decl := do
  let n ← name stop "list name after 'datalist'"
  let path ← string stop "data file path string"
  skipKind stop .semicolon "';' after datalist"
  return .dataList n path

def imageListDecl : Reads Decl := do
  let n ← name stop "list name after 'imagelist'"
  let path ← string stop "image file path string"
  let format ← if startsWith stop .ident (← .upcoming) then some <$> name stop "image format"
    else pure none
  skipKind stop .semicolon "';' after imagelist"
  return .imageList n path format

-- The parameters before the body of a procedure or macro, which may be none.
def parameters (bodyNext : Bool) : Reads (List Name) :=
  if bodyNext then pure [] else names stop

def body : Reads (List Stmt) :=
  .ofAfter (block stop)

def functionDecl (warp : Bool) : Reads Decl := do
  let n ← name stop "function name"
  let params ← parameters stop (startsWith stop .lbrace (← .upcoming))
  let b ← body stop
  return .function n params b warp

def macroDecl : Reads Decl := do
  let n ← name stop "macro name"
  let s ← .upcoming
  let params ← parameters stop (startsWith stop .lbrace s || (current stop s).isOp "->")
  let s ← .upcoming
  if (current stop s).isOp "->" then
    skip stop (·.isOp "->") "'->'"
    let e ← anyExpression stop
    skipKind stop .semicolon "';' after macro body"
    return .exprMacro n params e
  else if startsWith stop .lbrace s then
    let b ← body stop
    return .blockMacro n params b
  else
    fun s => fail stop s (.expected "'->' or '\x7b' after macro parameters")

def script (span : Span) (event : Event) : Reads Decl :=
  .event span event <$> body stop

def stringEvent (span : Span) (what : String) (event : Token → Event) : Reads Decl := do
  let t ← string stop what
  script stop span (event t)

def thresholdEvent (span : Span) (event : Expr → Event) : Reads Decl := do
  let e ← anyExpression stop
  script stop span (event e)

def afterKeyword (t : Token) : Option (Reads Decl) :=
  match t.text with
  | "costumes" => some (costumesDecl stop)
  | "variables" => some (.vars <$> namesDecl stop "';' after variables")
  | "lists" => some (.lists <$> namesDecl stop "';' after lists")
  | "datalist" => some (dataListDecl stop)
  | "imagelist" => some (imageListDecl stop)
  | "nowarp" => some do
    skip stop (·.isKeyword "def") "'def' after 'nowarp'"
    functionDecl stop false
  | "def" => some (functionDecl stop true)
  | "macro" => some (macroDecl stop)
  | "onflag" => some (script stop t.span .flag)
  | "onclick" => some (script stop t.span .click)
  | "onclone" => some (script stop t.span .clone)
  | "on" => some (stringEvent stop t.span "message string after 'on'" .message)
  | "onkey" => some (stringEvent stop t.span "key name string after 'onkey'" .key)
  | "onbackdrop" =>
    some (stringEvent stop t.span "backdrop name string after 'onbackdrop'" .backdrop)
  | "onloudness" => some (thresholdEvent stop t.span .loudness)
  | "ontimer" => some (thresholdEvent stop t.span .timer)
  | _ => none

def declaration (s : List Lexeme) : Result (After s Decl) :=
  let what := "a declaration: costumes, variables, lists, def, macro or an event"
  match s with
  | [] => fail stop [] (.expected what)
  | l :: ls =>
    match if l.token.kind = .keyword then afterKeyword stop l.token else none with
    | some read => (read ls).map Upto.tail
    | none => fail stop (l :: ls) (.expected what)

def docComment (comment : Option Token) : List Decl :=
  (comment.map Decl.docComment).toList

def declarations (stop : Lexeme) (s : List Lexeme) : Result (List Decl) :=
  match s with
  | [] => .ok (docComment stop.leading)
  | l :: ls =>
    if l.token.kind = .eof then .ok (docComment l.leading)
    else do
      let ⟨d, r, _h⟩ ← declaration stop.token (l :: ls)
      let ds ← declarations stop r
      return docComment l.leading ++ d :: ds
termination_by s.length
decreasing_by exact _h

end Parser

namespace SpriteTree

def ofTokens (tokens : List Token) : Except SyntaxError SpriteTree :=
  let lexemes := Lexemes.ofTokens tokens
  Parser.declarations lexemes.stop lexemes.items

def ofSource (source : String) : Except Diagnostic SpriteTree :=
  match Token.ofSource source with
  | .ok tokens => (ofTokens tokens).mapError .ofSyntax
  | .error e => .error (.ofSyntax e)

end SpriteTree

end BlockLang
