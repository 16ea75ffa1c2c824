/-!
How far apart two texts are, and which of some names is meant by a name that is none of them.
-/

namespace BlockLang.Text

-- The next row of distances. `b` runs along the row, `above` and `before` are the rows for one and
-- for two characters less of the other text, and `p` and `c` are that text's last two characters.
def nextRow (p : Option Char) (c : Char) (b : List Char) (before above : List Nat) : List Nat :=
  match above with
  | [] => []
  | corner :: above => (corner + 1) :: go none b (corner + 1) none before corner above
where
  -- Here `left` is the distance just found, `corner` stands over it. `swapCost` is the distance two
  -- back in the row `before`, and `q` the character of `b` there.
  go (q : Option Char) (b : List Char) (left : Nat) (swapCost : Option Nat)
      (before : List Nat) (corner : Nat) (above : List Nat) : List Nat :=
    match b, above with
    | d :: b, up :: above =>
      let plain := min (min (up + 1) (left + 1)) (corner + if c = d then 0 else 1)
      let best := match swapCost with
        | some cost => if p = some d && q = some c then min plain (cost + 1) else plain
        | none => plain
      best :: go (some d) b best before.head? before.tail up above
    | _, _ => []

-- The rows of distances from `b` to longer and longer parts of a text, the last one alone.
def lastRow (b : List Char) (p : Option Char) (before above : List Nat) : List Char → List Nat
  | [] => above
  | c :: a => lastRow b (some c) above (nextRow p c b before above) a

-- The least number of insertions, deletions, replacements and swaps of neighbours that make one
-- text of the other, where nothing is changed between two characters that are swapped.
def distance (a b : String) : Nat :=
  let b := b.toList
  ((lastRow b none [] (List.range (b.length + 1)) a.toList).getLast?).getD 0

-- A candidate that may be meant, with its distance: it differs, and by less than the whole of it.
-- At most four in ten characters of the longer text may be changed.
def near? (name candidate : String) : Option (Nat × String) :=
  let d := distance name candidate
  if candidate = name || max name.length candidate.length * 4 < d * 10 then none
  else some (d, candidate)

-- The better of two candidates: the nearer one, then the lesser text.
def better (x y : Nat × String) : Nat × String :=
  if y.1 < x.1 || (y.1 = x.1 && y.2 < x.2) then y else x

-- The name that is meant by `name`, if one of the candidates is near enough.
def suggest (name : String) (candidates : List String) : Option String :=
  (candidates.filterMap (near? name)).foldl
    (fun best c => some (match best with
      | none => c
      | some b => better b c)) none |>.map (·.2)

end BlockLang.Text
