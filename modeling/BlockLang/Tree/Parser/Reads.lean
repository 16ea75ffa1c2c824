import BlockLang.Fault
import BlockLang.Rest
import BlockLang.Tree.Parser.Lexeme

/-!
The steps that a parser takes over lexemes.

A parser reads from the head of a list of lexemes. The end of the source is kept apart from the
list, so that there is always a token to report.
-/

namespace BlockLang

namespace Parser

variable {α β : Type}

abbrev Result (α : Type) := Except SyntaxError α

def Reads (α : Type) := (s : List Lexeme) → Result (Upto s α)

namespace Reads

def nothing (a : α) : Reads α := fun s =>
  .ok (.nothing s a)

def andThen (read : Reads α) (next : α → Reads β) : Reads β := fun s =>
  match read s with
  | .error e => .error e
  | .ok ⟨a, r, h⟩ => (next a r).map (·.within h)

instance : Monad Reads where
  pure := nothing
  bind := andThen

-- What comes next. It is not read yet.
def upcoming : Reads (List Lexeme) := fun s =>
  .ok (.nothing s s)

def ofAfter (read : (s : List Lexeme) → Result (After s α)) : Reads α := fun s =>
  (read s).map After.upto

end Reads

variable (stop : Token)

def current (s : List Lexeme) : Token :=
  match s with
  | [] => stop
  | l :: _ => l.token

def startsWith (kind : TokenKind) (s : List Lexeme) : Bool :=
  (current stop s).kind = kind

def fail (s : List Lexeme) (fault : Fault) : Result α :=
  .error ⟨fault, (current stop s).span⟩

def expect (p : Token → Bool) (what : String) (s : List Lexeme) : Result (After s Lexeme) :=
  match s with
  | [] => fail stop [] (.expected what)
  | l :: ls => if p l.token then .ok (.one l ls l) else fail stop (l :: ls) (.expected what)

def expectKind (kind : TokenKind) (what : String) (s : List Lexeme) : Result (After s Lexeme) :=
  expect stop (·.kind = kind) what s

def skip (p : Token → Bool) (what : String) : Reads Unit := fun s =>
  (expect stop p what s).map fun x => (x.as ()).upto

def skipKind (kind : TokenKind) (what : String) : Reads Unit :=
  skip stop (·.kind = kind) what

def string (what : String) : Reads Token := fun s =>
  (expectKind stop .string what s).map fun x => (x.map Lexeme.token).upto

def name (what : String) : Reads Name := fun s =>
  (expectKind stop .ident what s).map fun x =>
    (x.map fun l => ⟨l.token.text, l.token.span⟩).upto

def afterCommas (read : Reads α) (s : List Lexeme) : Result (Upto s (List α)) :=
  match s with
  | [] => .ok (.nothing [] [])
  | l :: ls =>
    if l.token.kind = .comma then do
      let ⟨a, r, h⟩ ← read ls
      let x ← afterCommas read r
      return ((x.within h).tail.map (a :: ·)).upto
    else .ok (.nothing (l :: ls) [])
termination_by s.length
decreasing_by simp only [List.length_cons]; omega

def names : Reads (List Name) := do
  let n ← name stop "a name"
  let ns ← afterCommas (name stop "a name after ','")
  return n :: ns

end Parser

end BlockLang
