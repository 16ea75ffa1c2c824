/-!
Lines of a text.
-/

namespace BlockLang.Text

-- A line ends at a line feed, and a carriage return right before the line feed is part of the
-- line's end. What follows the last line feed is a line too, unless it is empty.
def linesOf (cs : List Char) : List (List Char) :=
  go [] cs
where
  -- The list `line` holds the characters of the line so far, the last one first.
  go (line : List Char) : List Char → List (List Char)
    | [] => if line.isEmpty then [] else [line.reverse]
    | c :: cs =>
      if c = '\n' then
        (match line with
          | '\r' :: line => line.reverse
          | line => line.reverse) :: go [] cs
      else go (c :: line) cs

def lines (s : String) : List String :=
  (linesOf s.toList).map String.ofList

def firstLine (cs : List Char) : List Char :=
  (linesOf cs).headD []

end BlockLang.Text
