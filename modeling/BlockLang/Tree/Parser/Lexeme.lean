import BlockLang.Tree.Basic

/-!
Tokens with their comments.
-/

namespace BlockLang

-- A token, with the comment on lines of its own before it, and with the comment on its line after
-- it. Only semicolons have a comment after them.
structure Lexeme where
  token : Token
  leading : Option Token
  trailing : Option Token
  deriving DecidableEq, Repr, Inhabited

structure Lexemes where
  items : List Lexeme
  stop : Lexeme

namespace Lexemes

def stopAfter (last : Option Lexeme) (leading : Option Token) : Lexeme :=
  ⟨⟨.eof, "", (last.map (·.token.span)).getD ⟨1, 1, 1⟩⟩, leading, none⟩

-- Gives each comment to the token that it belongs to: to the semicolon before it on the same line,
-- or else to the token after it. Of several comments in one place the last one counts.
def attach (last : Option Lexeme) (leading : Option Token) : List Token → Lexemes
  | [] => match last with
    | some l => if l.token.kind = .eof then ⟨[], l⟩ else ⟨[l], stopAfter last leading⟩
    | none => ⟨[], stopAfter none leading⟩
  | t :: ts =>
    if t.kind = .comment then
      match last with
      | some l =>
        if l.token.kind = .semicolon && l.token.span.line = t.span.line then
          attach (some { l with trailing := some t }) leading ts
        else attach last (some t) ts
      | none => attach none (some t) ts
    else
      let rest := attach (some ⟨t, leading, none⟩) none ts
      { rest with items := last.toList ++ rest.items }

def ofTokens (tokens : List Token) : Lexemes :=
  attach none none tokens

end Lexemes

end BlockLang
