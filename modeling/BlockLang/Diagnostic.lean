import BlockLang.Text.Blank
import BlockLang.Fault
import BlockLang.Path

/-!
Errors as they are shown to the author of a project: a fault, its place, and what may help.
-/

namespace BlockLang

structure Frame where
  file : Path
  line : Nat
  deriving DecidableEq, Repr

-- A place in a file, with the directives that lead there from the entry file, the nearest first.
structure Location where
  file : Path
  line : Nat
  column : Nat
  length : Nat
  sourceLine : String
  trace : List Frame
  deriving DecidableEq, Repr

inductive Site where
  | project
  | file (file : Option Path)
  | span (span : Span) (location : Option Location)
  deriving DecidableEq, Repr

structure Diagnostic where
  fault : Fault
  help : Option String
  site : Site
  deriving DecidableEq, Repr

namespace Diagnostic

def project (fault : Fault) (help : Option String := none) : Diagnostic :=
  ⟨fault, help, .project⟩

def file (fault : Fault) (help : Option String := none) : Diagnostic :=
  ⟨fault, help, .file none⟩

def span (span : Span) (fault : Fault) (help : Option String := none) : Diagnostic :=
  ⟨fault, help, .span span none⟩

def ofSyntax (e : SyntaxError) : Diagnostic :=
  span e.span e.fault

def message (d : Diagnostic) : String :=
  d.fault.message

def inFile (path : Path) (d : Diagnostic) : Diagnostic :=
  match d.site with
  | .file none => { d with site := .file (some path) }
  | _ => d

def located (location : Location) (d : Diagnostic) : Diagnostic :=
  match d.site with
  | .span s none => { d with site := .span s (some location) }
  | _ => d

theorem located_located (d : Diagnostic) (l m : Location) :
    (d.located l).located m = d.located l := by
  rcases d with ⟨_, _, _ | _ | ⟨_, _ | _⟩⟩ <;> rfl

theorem inFile_inFile (d : Diagnostic) (p q : Path) : (d.inFile p).inFile q = d.inFile p := by
  rcases d with ⟨_, _, _ | ⟨_ | _⟩ | _⟩ <;> rfl

def counted (n : Nat) (noun : String) : String :=
  if n = 1 then s!"{n} {noun}" else s!"{n} {noun}s"

def didYouMean (name : Option String) : Option String :=
  name.map fun name => s!"Did you mean `{name}`?"

def helpLine (help : Option String) : String :=
  match help with
  | some help => s!"help: {help}\n"
  | none => ""

def padLeft (width : Nat) (n : Nat) : String :=
  let digits := toString n
  String.ofList (List.replicate (width - digits.length) ' ') ++ digits

def times (n : Nat) (c : Char) : String :=
  String.ofList (List.replicate n c)

-- The line of source text, the marks under it, and the directives that led there.
def excerpt (l : Location) (help : Option String) : String :=
  let gutter := padLeft 4 l.line ++ " | "
  let source := Text.dropEndWhile (fun c => c = '\r' || c = '\n') l.sourceLine.toList
  s!"in {l.file.shown}:{l.line}:{l.column}\n" ++
    gutter ++ String.ofList source ++ "\n" ++
    times (gutter.length + (l.column - 1)) ' ' ++ times (max l.length 1) '^' ++
    (match help with
      | some help => " " ++ help
      | none => "") ++ "\n" ++
    String.join (l.trace.map fun f => s!"  included from {f.file.shown}:{f.line}\n")

def render (d : Diagnostic) : String :=
  s!"Error! {d.message}\n" ++
    match d.site with
    | .project => helpLine d.help
    | .file path =>
      (match path with
        | some path => s!"in {path.shown}\n"
        | none => "") ++ helpLine d.help
    | .span s none => s!"at line {s.line}, column {s.column}\n" ++ helpLine d.help
    | .span _ (some l) => excerpt l d.help

def describe (d : Diagnostic) : String :=
  Text.trimEnd d.render

end Diagnostic

end BlockLang
