import BlockLang.Diagnostic
import BlockLang.Include.Directive

/-!
The source of a sprite with the contents of other files in place of each include directive.

Such a source is a list of parts, each a run of lines that one file has in a row. The merged lines
are the lines of all parts, and the place of a merged line is found by counting along the parts.
-/

namespace BlockLang

-- Consecutive lines of a file, which start at its line `fileStart`. `parent` is the number of the
-- part that ended at the directive which led to the file, and `trace` holds that directive and all
-- those before it, the nearest first.
structure Part where
  file : Path
  fileStart : Nat
  lines : List String
  parent : Option Nat
  trace : List Frame
  deriving DecidableEq, Repr

structure Merged where
  entry : Path
  parts : List Part
  deriving DecidableEq, Repr

namespace Merged

def lines (m : Merged) : List String :=
  m.parts.flatMap (·.lines)

-- The text of the lines. Each line is ended, and so is a source without lines.
def text (m : Merged) : String :=
  "\n".intercalate m.lines ++ "\n"

-- The parts with the numbers of their first merged lines, where the first line has the number
-- `start`.
def startsFrom (start : Nat) : List Part → List (Nat × Part)
  | [] => []
  | p :: ps => (start, p) :: startsFrom (start + p.lines.length) ps

def starts (m : Merged) : List (Nat × Part) :=
  startsFrom 1 m.parts

def line? (m : Merged) (n : Nat) : Option String :=
  if n = 0 then none else m.lines[n - 1]?

-- The part that a merged line lies in, with the number of the part's first line.
def part? (m : Merged) (n : Nat) : Option (Nat × Part) :=
  m.starts.find? fun (start, p) => start ≤ n && n < start + p.lines.length

def lastPart? (m : Merged) : Option (Nat × Part) :=
  m.starts.reverse.find? fun (_, p) => !p.lines.isEmpty

-- The place in a file that a span of the merged text stands for. What lies after the end belongs to
-- the file of the last line, or to the entry file if there are no lines.
def locate (m : Merged) (s : Span) : Location :=
  let (file, line, trace) := match m.part? s.line with
    | some (start, p) => (p.file, p.fileStart + (s.line - start), p.trace)
    | none => match m.lastPart? with
      | some (start, p) => (p.file, p.fileStart + (s.line - start), [])
      | none => (m.entry, max s.line 1, [])
  ⟨file, line, s.column, s.length, (m.line? s.line).getD "", trace⟩

def resolve (m : Merged) (d : Diagnostic) : Diagnostic :=
  match d.site with
  | .span s none => d.located (m.locate s)
  | _ => d.inFile m.entry

theorem lines_append (entry : Path) (ps qs : List Part) :
    (Merged.mk entry (ps ++ qs)).lines = (mk entry ps).lines ++ (mk entry qs).lines :=
  List.flatMap_append

theorem startsFrom_append (start : Nat) (ps qs : List Part) :
    startsFrom start (ps ++ qs) =
      startsFrom start ps ++ startsFrom (start + (ps.flatMap (·.lines)).length) qs := by
  induction ps generalizing start with
  | nil => simp [startsFrom]
  | cons p ps ih => simp [startsFrom, ih, Nat.add_assoc]

end Merged

end BlockLang
