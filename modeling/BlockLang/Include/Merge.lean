import BlockLang.Files.Source
import BlockLang.Include.Merged
import BlockLang.Text.Distance
import BlockLang.Text.Lines

/-!
Include directives followed through the files of a project.

A file is never included inside of itself, so along each chain of directives the files differ. The
number of steps that such a chain can have is known from the source of the files.
-/

namespace BlockLang

namespace Merged

def sourceExtension : String := ".gs"

-- Where a file is merged: what it is called, and which directives led there.
structure Opened where
  file : Path
  parent : Option Nat
  trace : List Frame

def Opened.part (o : Opened) (fileStart : Nat) (lines : List String) : Part :=
  ⟨o.file, fileStart, lines, o.parent, o.trace⟩

-- An error about a directive, which is located at once: its span counts the lines of the file.
def Opened.locate (o : Opened) (line : String) (d : Diagnostic) : Diagnostic :=
  match d.site with
  | .span s none => d.located ⟨o.file, s.line, s.column, s.length, line, o.trace⟩
  | _ => d

-- The lines of a file. Byte order marks at its start are dropped.
def fileLines (text : String) : List String :=
  match Text.linesOf text.toList with
  | [] => []
  | cs :: rest => String.ofList (cs.dropWhile (· = '\ufeff')) :: rest.map String.ofList

def isPattern (pattern : String) : Bool :=
  pattern.toList.any fun c => c = '*' || c = '?'

variable (source : FileSource) (root : Path)

def similarFile? (pattern : String) : Option String :=
  let files := match source.walk root with
    | .ok files => files
    | .error _ => []
  Text.suggest pattern (files.filterMap fun file =>
    (file.relativeTo? root).map fun way =>
      way.text.map fun c => if c = '\\' then '/' else c)

def targets (pattern : String) (s : Span) : Except Diagnostic (List Path) :=
  if isPattern pattern then
    match source.glob root pattern with
    | .error e => .error (.span s (.invalidGlob e.message))
    | .ok [] => .error (.span s .unmatchedInclude)
    | .ok files => .ok files
  else
    match [pattern, pattern ++ sourceExtension].map root.child |>.find? source.isFile with
    | some file => .ok [file]
    | none => .error (.span s (.missingInclude pattern)
        (Diagnostic.didYouMean (similarFile? source root pattern)))

abbrev Enter := Opened → String → List Part → Except Diagnostic (List Part)

-- Merges the targets of a directive. `opened` holds the places of the files on the way here.
def mergeTargets (enter : Enter) (opened : List (List Component)) (pattern : String) (s : Span)
    (host : Opened) (line : String) (parent : Nat) :
    List Path → List Part → Except Diagnostic (List Part)
  | [], parts => .ok parts
  | file :: files, parts =>
    if opened.contains file.place then
      .error (host.locate line (.span s (.circularInclude pattern)))
    else
      match source.readText file with
      | .error e => .error (host.locate line (.span s (.unreadableInclude pattern e.message)))
      | .ok text => do
        let parts ← enter ⟨file, some parent, ⟨host.file, s.line⟩ :: host.trace⟩ text parts
        mergeTargets enter opened pattern s host line parent files parts

-- Merges lines of an open file, the first of which has the number `n`.
def mergeLines (enter : Enter) (opened : List (List Component)) (o : Opened) (n : Nat)
    (lines : List String) (parts : List Part) : Except Diagnostic (List Part) :=
  let own := lines.takeWhile fun line => !Directive.marks line
  let parent := parts.length
  let parts := parts ++ [o.part n own]
  match _h : lines.dropWhile fun line => !Directive.marks line with
  | [] => .ok parts
  | line :: rest =>
    let number := n + own.length
    match Directive.ofLine? line with
    | none => .error (o.locate line (.span ⟨number, 1, (Text.trimEnd line).length⟩
        .malformedInclude (some "expected: %use \"path\"")))
    | some directive =>
      let s := directive.span number
      match targets source root directive.pattern s with
      | .error e => .error (o.locate line e)
      | .ok files => do
        let parts ← mergeTargets source enter opened directive.pattern s o line parent files parts
        mergeLines enter opened o (number + 1) rest parts
termination_by lines.length
decreasing_by
  have hle := (List.dropWhile_sublist (fun line => !Directive.marks line) (l := lines)).length_le
  rw [_h] at hle
  exact hle

def mergeFile (opened : List (List Component)) : Nat → Enter
  | 0, o, _, _ => .error (.file (.circularInclude o.file.text))
  | depth + 1, o, text, parts =>
    let opened := o.file.place :: opened
    mergeLines source root (mergeFile opened depth) opened o 1 (fileLines text) parts

-- A file with all that it includes. Directives name files as seen from `root`.
def ofEntry (entry : Path) : Except Diagnostic Merged :=
  match source.readText entry with
  | .error e => .error ((Diagnostic.file (.unreadableSource e.message)).inFile entry)
  | .ok text =>
    (mergeFile source root [] (source.nesting + 1) ⟨entry, none, []⟩ text []).map (⟨entry, ·⟩)

end Merged

end BlockLang
