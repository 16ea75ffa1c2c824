import BlockLang.Files.Disk
import BlockLang.Project.Package

/-!
Work on a disk that shows its progress. Both outlast an error.
-/

namespace BlockLang

inductive CommandError where
  | compile (error : Diagnostic)
  | package (error : PackageError)
  | projectExists (directory : Path)
  | notCreated (directory : Path) (reason : SystemError)
  | notWritten (file : Path) (reason : SystemError)
  deriving DecidableEq, Repr

namespace CommandError

def message : CommandError → String
  | compile error => error.message
  | package error => error.message
  | projectExists directory => s!"A project already exists in '{directory.shown}'."
  | notCreated directory reason => s!"Could not create '{directory.text}': {reason.message}"
  | notWritten file reason => s!"Could not write '{file.text}': {reason.message}"

def render : CommandError → String
  | compile error => error.render ++ "\n"
  | e => s!"Error! {e.message}\n"

end CommandError

namespace Step

def barWidth : Nat := 14

def size (s : Step) : Nat := max s.total 1

def place (s : Step) : Nat := min (max s.number 1) s.size

-- How many cells of a bar are filled. A half is rounded up.
def filled (s : Step) : Nat := (s.place * barWidth + s.size / 2) / s.size

theorem place_le_size (s : Step) : s.place ≤ s.size :=
  Nat.min_le_right ..

theorem filled_le_barWidth (s : Step) : s.filled ≤ barWidth := by
  have hs : 0 < s.size := by simp only [size]; omega
  have h : s.place * barWidth ≤ s.size * barWidth := Nat.mul_le_mul_right _ s.place_le_size
  have hh : s.size / 2 < s.size := Nat.div_lt_self hs (by decide)
  have : (s.place * barWidth + s.size / 2) / s.size < barWidth + 1 := by
    rw [Nat.div_lt_iff_lt_mul hs, Nat.add_mul, Nat.mul_comm barWidth]
    omega
  exact Nat.le_of_lt_succ this

def bar (s : Step) : String :=
  "[" ++ Diagnostic.times s.filled '=' ++ Diagnostic.times (barWidth - s.filled) '-' ++ "]"

def line (heading : String) (s : Step) : String :=
  s!"[{heading}] {s.label}... ({s.place}/{s.size}) {s.bar}\n"

end Step

structure Session where
  disk : Disk
  shown : String

abbrev Command := EStateM CommandError Session

namespace Command

def step (heading : String) (s : Step) : Command Unit :=
  modify fun session => { session with shown := session.shown ++ s.line heading }

def follow {ε α : Type} (heading : String) (label : String → String) (error : ε → CommandError)
    (work : Progress ε α) : Command α := do
  for s in work.steps do
    step heading { s with label := label s.label }
  match work.result with
  | .ok a => return a
  | .error e => throw (error e)

def change (error : SystemError → CommandError) (f : Disk → Except SystemError Disk) :
    Command Unit := do
  match f (← get).disk with
  | .ok disk => modify fun session => { session with disk }
  | .error e => throw (error e)

end Command

end BlockLang
