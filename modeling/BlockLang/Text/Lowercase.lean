import BlockLang.Text.CaseTable

/-!
Lower case for the whole character set.
-/

namespace BlockLang.Text

-- The lower-case letters of one character on its own. Only the dotted capital I has two.
def lowerChar (c : Char) : List Char :=
  if c.toNat < 128 then [c.toLower]
  else if c = '\u0130' then ['i', '\u0307']
  else [(lowerShifts.findSome? (·.move? c)).getD c]

-- Does a word, read away from a sigma, reach a cased letter first, marks apart?
def meetsCased (cs : List Char) : Bool :=
  match cs.dropWhile caseIgnorableRanges.has with
  | [] => false
  | c :: _ => casedRanges.has c

-- Lower case of a list of characters. A sigma that ends a word is written in its final form.
-- `before` holds what precedes, the nearest character first.
def lowerList (before : List Char) : List Char → List Char
  | [] => []
  | c :: cs =>
    (if c = 'Σ' then
      [if meetsCased before && !meetsCased cs then 'ς' else 'σ']
    else lowerChar c) ++ lowerList (c :: before) cs

def lowercase (s : String) : String :=
  String.ofList (lowerList [] s.toList)

end BlockLang.Text
