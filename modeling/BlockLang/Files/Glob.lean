/-!
File patterns. A star stands for any run of characters within one segment of a path, a question
mark for one of them, and two stars for any run of characters at all.
-/

namespace BlockLang

namespace Glob

inductive Piece where
  | char (c : Char)
  -- One character other than a slash.
  | one
  -- Characters other than slashes.
  | run
  -- Characters other than line feeds.
  | deep
  -- Nothing, or characters other than line feeds and a slash after them.
  | directories
  deriving DecidableEq, Repr

def pieces : List Char → List Piece
  | [] => []
  | '*' :: '*' :: '/' :: cs => .directories :: pieces cs
  | '*' :: '*' :: cs => .deep :: pieces cs
  | '*' :: cs => .run :: pieces cs
  | '?' :: cs => .one :: pieces cs
  | c :: cs => .char c :: pieces cs

def dropHere : List Char → List Char
  | '.' :: '/' :: cs => dropHere cs
  | cs => cs

-- What is left of a text after some of its first characters, all of which satisfy `p`.
def restsWhile (p : Char → Bool) : List Char → List (List Char)
  | [] => [[]]
  | c :: cs => (c :: cs) :: if p c then restsWhile p cs else []

def restsAfterSlash : List Char → List (List Char)
  | [] => []
  | c :: cs => (if c = '/' then [cs] else []) ++ if c = '\n' then [] else restsAfterSlash cs

def matchPieces : List Piece → List Char → Bool
  | [], cs => cs.isEmpty
  | .char c :: ps, cs => match cs with
    | d :: ds => d = c && matchPieces ps ds
    | [] => false
  | .one :: ps, cs => match cs with
    | d :: ds => d ≠ '/' && matchPieces ps ds
    | [] => false
  | .run :: ps, cs => (restsWhile (· ≠ '/') cs).any (matchPieces ps)
  | .deep :: ps, cs => (restsWhile (· ≠ '\n') cs).any (matchPieces ps)
  | .directories :: ps, cs => matchPieces ps cs || (restsAfterSlash cs).any (matchPieces ps)

end Glob

def globMatches (pattern path : String) : Bool :=
  Glob.matchPieces (Glob.pieces (Glob.dropHere pattern.toList)) path.toList

end BlockLang
