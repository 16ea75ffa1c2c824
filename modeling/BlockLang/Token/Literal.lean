import BlockLang.Diagnostic
import BlockLang.Number.Layout
import BlockLang.Token.Basic

/-!
The values that tokens stand for, as the text that a block stores.
-/

namespace BlockLang

namespace Token

def unquote? : List Char → Option (List Char)
  | '"' :: cs => match cs.reverse with
    | '"' :: body => some body.reverse
    | _ => none
  | _ => none

-- Takes the backslashes off that stand before quotes and backslashes. All others stay.
def unescape : List Char → List Char
  | [] => []
  | '\\' :: c :: cs =>
    if c = '\\' || c = '"' then c :: unescape cs else '\\' :: c :: unescape cs
  | c :: cs => c :: unescape cs

-- The base of a number, by the mark that it starts with, and its digits.
def splitRadix : List Char → Nat × List Char
  | '0' :: mark :: cs =>
    if mark = 'x' || mark = 'X' then (16, cs)
    else if mark = 'b' || mark = 'B' then (2, cs)
    else if mark = 'o' || mark = 'O' then (8, cs)
    else (10, '0' :: mark :: cs)
  | cs => (10, cs)

def exactBound : Nat := Nat.pow 2 128

-- The decimal numeral of a whole number. One in base ten that is too large, or none at all, is read
-- as a number of any size.
def decodeInteger? (text : String) : Option String :=
  let (base, digits) := splitRadix (text.toList.filter (· ≠ '_'))
  match Decimal.unsigned? base digits with
  | some n => if n < exactBound then some (toString n) else rounded? base digits
  | none => rounded? base digits
where
  -- The numeral of the nearest binary number.
  rounded? (base : Nat) (digits : List Char) : Option String :=
    if base = 10 then (Decimal.ofList? digits).map fun d => NumberLayout.plain.write d.toFloat
    else none

def commentText (text : String) : String :=
  let inner := match text.toList with
    | '/' :: '*' :: cs => match cs.reverse with
      | '/' :: '*' :: body => body.reverse
      | _ => text.toList
    | cs => cs
  Text.trim (String.ofList inner)

def literal (t : Token) : Except Diagnostic String :=
  match t.kind with
  | .string =>
    match unquote? t.text.toList with
    | some body => .ok (String.ofList (unescape body))
    | none => .error (.span t.span .malformedString)
  | .number =>
    match decodeInteger? t.text with
    | some n => .ok n
    | none => .error (.span t.span (.malformedNumber t.text))
  | .float =>
    match Decimal.ofList? (t.text.toList.filter (· ≠ '_')) with
    | some d => .ok (NumberLayout.fractional.write d.toFloat)
    | none => .error (.span t.span (.malformedNumber t.text))
  | .argument => .ok (String.ofList (t.text.toList.dropWhile (· = '$')))
  | .macroVar => .ok (String.ofList (Text.dropEndWhile (· = '!') t.text.toList))
  | .comment => .ok (commentText t.text)
  | .keyword =>
    if t.text = "true" then .ok "1"
    else if t.text = "false" then .ok "0"
    else .error (.span t.span .notLiteral)
  | _ => .error (.span t.span .notLiteral)

end Token

end BlockLang
