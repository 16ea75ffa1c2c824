import BlockLang.Text.Blank

/-!
Paths: texts that name files, and the components that a path goes through.

Two texts can have the same components, as `a//b` and `a/./b` do. Such paths are shown differently
but are equal wherever paths are compared.
-/

namespace BlockLang

inductive Component where
  | root
  | here
  | up
  | name (s : String)
  deriving DecidableEq, Repr, Inhabited

namespace Component

-- Components in the order in which paths are sorted: names come last, by their characters.
protected def compare : Component → Component → Ordering
  | name a, name b => compare a b
  | a, b => compare (rank a) (rank b)
where
  rank : Component → Nat
    | root => 0
    | here => 1
    | up => 2
    | name _ => 3

instance : Ord Component := ⟨Component.compare⟩

def text : Component → String
  | root => "/"
  | here => "."
  | up => ".."
  | name s => s

end Component

structure Path where
  text : String
  deriving DecidableEq, Repr, Inhabited

namespace Path

def isAbsolute (p : Path) : Bool :=
  p.text.toList.head? = some '/'

-- The parts of the text between slashes, without the slash of the root.
def segments (p : Path) : List String :=
  (Text.splitBy (· = '/') (if p.isAbsolute then p.text.toList.tail else p.text.toList)).map
    String.ofList

-- The component that a segment stands for, if it stands for one. Empty segments do not, and a dot
-- does so only at the start of a relative path.
def component? (first : Bool) (segment : String) : Option Component :=
  if segment = "" then none
  else if segment = "." then if first then some .here else none
  else if segment = ".." then some .up
  else some (.name segment)

def components (p : Path) : List Component :=
  if p.isAbsolute then .root :: p.segments.filterMap (component? false)
  else match p.segments with
    | [] => []
    | s :: ss => (component? true s).toList ++ ss.filterMap (component? false)

def textOf : List Component → String
  | .root :: cs => "/" ++ "/".intercalate (cs.map Component.text)
  | cs => "/".intercalate (cs.map Component.text)

def ofComponents (cs : List Component) : Path :=
  ⟨textOf cs⟩

protected def compare (p q : Path) : Ordering :=
  compare p.components q.components

instance : Ord Path := ⟨Path.compare⟩

-- The path `q`, seen from `p`. An absolute path is the same from everywhere.
def join (p q : Path) : Path :=
  if q.isAbsolute || p.text = "" then q
  else if p.text.toList.getLast? = some '/' then ⟨p.text ++ q.text⟩
  else ⟨p.text ++ "/" ++ q.text⟩

def child (p : Path) (name : String) : Path :=
  p.join ⟨name⟩

def fileName? (p : Path) : Option String :=
  match p.components.getLast? with
  | some (.name name) => some name
  | _ => none

-- A file name before and after its last dot. A dot that begins the name does not count.
def splitExtension (name : String) : String × Option String :=
  match Text.splitOnce '.' name.toList.reverse with
  | some (after, before) =>
    if before.isEmpty then (name, none)
    else (String.ofList before.reverse, some (String.ofList after.reverse))
  | none => (name, none)

def stem? (p : Path) : Option String :=
  p.fileName?.map fun name => (splitExtension name).1

def extension? (p : Path) : Option String :=
  p.fileName?.bind fun name => (splitExtension name).2

def marked (p : Path) : List (String × Option Component) :=
  match p.segments with
  | [] => []
  | s :: ss => (s, component? (!p.isAbsolute) s) :: ss.map fun s => (s, component? false s)

def trimMarked (ss : List (String × Option Component)) : List (String × Option Component) :=
  (ss.reverse.dropWhile fun s => s.2.isNone).reverse

def writeMarked (absolute : Bool) (ss : List (String × Option Component)) : Path :=
  ⟨(if absolute then "/" else "") ++ "/".intercalate (ss.map (·.1))⟩

-- The path without its last component. The root and the empty path have no parent.
def parent? (p : Path) : Option Path :=
  match (trimMarked p.marked).reverse with
  | [] => none
  | _ :: rest => some (writeMarked p.isAbsolute (trimMarked rest.reverse))

def startsWith (p base : Path) : Bool :=
  base.components.isPrefixOf p.components

def dropMarked : Nat → List (String × Option Component) → List (String × Option Component)
  | 0, ss => ss
  | _ + 1, [] => []
  | n + 1, s :: ss => if s.2.isSome then dropMarked n ss else dropMarked (n + 1) ss

def relativeTo? (p base : Path) : Option Path :=
  if !p.startsWith base then none
  else
    let n := base.components.length
    if n = 0 then some (writeMarked p.isAbsolute (trimMarked p.marked))
    else
      let rest := dropMarked (if p.isAbsolute then n - 1 else n) p.marked
      some (writeMarked false (trimMarked (rest.dropWhile fun s => s.2.isNone)))

-- Follows one component from where some components lead to. Going up undoes the step before.
def follow (place : List Component) : Component → List Component
  | .here => place
  | .up => if place = [] || place = [.root] then place ++ [.up] else place.dropLast
  | c => place ++ [c]

-- The components with dots taken out, and with steps up taken out together with the steps they
-- undo.
def place (p : Path) : List Component :=
  p.components.foldl follow []

def normalize (p : Path) : Path :=
  ofComponents p.place

-- The path as it is shown. The mark of a path without a length limit is left out.
def shown (p : Path) : String :=
  let mark := "\\\\?\\"
  if mark.toList.isPrefixOf p.text.toList then
    String.ofList (p.text.toList.drop mark.length)
  else p.text

end Path

end BlockLang
