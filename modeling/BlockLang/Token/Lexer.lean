import BlockLang.Text.Blank
import BlockLang.Text.Lines
import BlockLang.Fault
import BlockLang.Token.Basic

/-!
Source text as tokens.

What stands at the head of a text is decided by `Scan.head`, which looks at its first character and
says how many of the characters after it belong to the same word.
-/

namespace BlockLang

-- What stands at the head of a text, by the characters after the first one that belong to it.
inductive Scan where
  | skip (body : List Char)
  | token (kind : TokenKind) (body : List Char)
  | fault (fault : Fault) (length : Nat)
  deriving DecidableEq, Repr

namespace Scan

def isWordChar (c : Char) : Bool :=
  c.isAlphanum || c = '_'

def isDigitChar (c : Char) : Bool :=
  c.isDigit || c = '_'

-- The rest of a string, and whether it is closed. A backslash takes the character after it along. A
-- string ends with its line.
def stringBody : List Char → List Char × Bool
  | [] => ([], false)
  | '\\' :: c :: cs =>
    if c = '\n' then (['\\'], false)
    else
      let (body, closed) := stringBody cs
      ('\\' :: c :: body, closed)
  | c :: cs =>
    if c = '\n' then ([], false)
    else if c = '"' then ([c], true)
    else
      let (body, closed) := stringBody cs
      (c :: body, closed)

def commentBody? : List Char → Option (List Char)
  | [] => none
  | '*' :: '/' :: _ => some ['*', '/']
  | c :: cs => (commentBody? cs).map (c :: ·)

def isRadixDigit (mark c : Char) : Bool :=
  if mark.toLower = 'x' then c.isDigit || ('a' ≤ c && c ≤ 'f') || ('A' ≤ c && c ≤ 'F')
  else if mark.toLower = 'b' then c = '0' || c = '1'
  else '0' ≤ c && c ≤ '7'

def number (c : Char) (cs : List Char) : Scan :=
  match cs with
  | mark :: rest =>
    if c = '0' && "xXbBoO".toList.contains mark then
      token .number (mark :: rest.takeWhile fun d => isRadixDigit mark d || d = '_')
    else decimal cs
  | [] => decimal cs
where
  -- A number in base ten. A point belongs to it if a digit follows.
  decimal (cs : List Char) : Scan :=
    let whole := cs.takeWhile isDigitChar
    match cs.dropWhile isDigitChar with
    | '.' :: d :: rest =>
      if d.isDigit then token .float (whole ++ '.' :: d :: rest.takeWhile isDigitChar)
      else token .number whole
    | _ => token .number whole

-- A keyword, a name, or a name with the mark of a macro. The mark is no part of `!=`.
def word (c : Char) (cs : List Char) : Scan :=
  let body := cs.takeWhile isWordChar
  let plain :=
    token (if Token.keywords.contains (String.ofList (c :: body)) then .keyword else .ident) body
  match cs.dropWhile isWordChar with
  | '!' :: '=' :: _ => plain
  | '!' :: _ => token .macroVar (body ++ ['!'])
  | _ => plain

def operator? (cs : List Char) : Option String :=
  Token.operators.find? fun op => op.toList.isPrefixOf cs

def head (c : Char) (cs : List Char) : Scan :=
  if Text.isInvisible c || Text.isBlank c then skip []
  else if c = '#' || (c = '/' && cs.head? = some '/') then skip (cs.takeWhile (· ≠ '\n'))
  else if c = '/' && cs.head? = some '*' then
    match commentBody? cs.tail with
    | some body => token .comment ('*' :: body)
    | none => fault .unterminatedComment 2
  else if c = '"' then
    match stringBody cs with
    | (body, true) => token .string body
    | (body, false) => fault .unterminatedString (body.length + 1)
  else if c.isDigit then number c cs
  else if c = '$' then
    match cs.takeWhile isWordChar with
    | [] => fault .argumentWithoutName 1
    | body => token .argument body
  else if c.isAlpha || c = '_' then word c cs
  else
    match Token.punctuation? c, operator? (c :: cs) with
    | some kind, _ => token kind []
    | none, some op => token .op op.toList.tail
    | none, none => fault (.unexpectedCharacter c) 1

end Scan

namespace Token

-- The number of characters that a token's span covers. Of a comment it covers the first line.
def spanLength (kind : TokenKind) (text : List Char) : Nat :=
  if kind = .comment then (Text.firstLine text).length else text.length

-- The tokens of a text that starts at `p`, with the end of the text as the last one.
def scan (p : Position) (cs : List Char) : Except SyntaxError (List Token) :=
  match cs with
  | [] => .ok [⟨.eof, "", p.span 1⟩]
  | c :: cs =>
    match Scan.head c cs with
    | .skip body => scan (p.after (c :: body)) (cs.drop body.length)
    | .token kind body => do
      let text := c :: body
      let rest ← scan (p.after text) (cs.drop body.length)
      return ⟨kind, String.ofList text, p.span (spanLength kind text)⟩ :: rest
    | .fault fault length => .error ⟨fault, p.span length⟩
termination_by cs.length
decreasing_by all_goals simp only [List.length_drop, List.length_cons]; omega

def ofSource (source : String) : Except SyntaxError (List Token) :=
  scan .start source.toList

end Token

end BlockLang
