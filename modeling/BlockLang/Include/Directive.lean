import BlockLang.Text.Blank
import BlockLang.Span

/-!
Include directives: lines that stand for the contents of other files.
-/

namespace BlockLang

-- An include directive: the files that it names, and the column of the quote before them.
structure Directive where
  pattern : String
  column : Nat
  deriving DecidableEq, Repr

namespace Directive

-- A directive has its mark in the first column. Further in, the mark is an operator.
def marks (line : String) : Bool :=
  line.toList.head? = some '%'

-- Drops the white space at the start, of which there has to be some.
def afterBlanks? (cs : List Char) : Option (List Char) :=
  match cs with
  | [] => none
  | c :: cs => if Text.isBlank c then some (cs.dropWhile Text.isBlank) else none

-- Does nothing follow but blanks, perhaps with one semicolon among them?
def ends (cs : List Char) : Bool :=
  match cs.dropWhile Text.isBlank with
  | ';' :: cs => cs.all Text.isBlank
  | cs => cs.isEmpty

-- The directive on a line: the mark, the word `use` and a quoted pattern.
def ofLine? (line : String) : Option Directive :=
  match line.toList with
  | '%' :: cs =>
    match cs.dropWhile Text.isBlank with
    | 'u' :: 's' :: 'e' :: cs => do
      let '"' :: cs ← afterBlanks? cs | none
      let (pattern, rest) ← Text.splitOnce '"' cs
      if ends rest then some ⟨String.ofList pattern, line.length - cs.length⟩ else none
    | _ => none
  | _ => none

def span (d : Directive) (line : Nat) : Span :=
  ⟨line, d.column, d.pattern.length + 2⟩

end Directive

end BlockLang
