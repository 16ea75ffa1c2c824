import BlockLang.Command.Request
import BlockLang.Command.Session
import BlockLang.Project.Compile

/-!
Projects from their directories to their archives.
-/

namespace BlockLang

namespace Build

-- The directory of a project, seen from the root of the disk if it is there.
def directory (disk : Disk) (input : Path) : Path :=
  if disk.isDir input then
    match disk.canonical input with
    | .ok path => path
    | .error _ => input
  else input

-- The archive of a project lies in its directory and is named after it.
def defaultOutput (root : Path) : Path :=
  root.child (root.fileName?.getD "project" ++ ".sb3")

def directoryOf (file : Path) : Path :=
  match file.parent? with
  | some parent => if parent.text = "" then ⟨"."⟩ else parent
  | none => ⟨"."⟩

-- Stores an archive. If that fails, the file that was there before stays as it is.
def store (archive : Archive) (output : Path) : Command Unit := do
  let parent := directoryOf output
  Command.change (.notCreated parent) (·.createDirAll parent)
  Command.change (.notWritten output) (·.replace output archive.toBytes)

def stages (options : Options) : Nat :=
  if options.has .checkOnly then 2 else 3

def stage (options : Options) (number : Nat) (label : String) : Command Unit :=
  Command.step "Build" ⟨number, stages options, label⟩

-- Compiles a project, and stores its archive unless it is only to be checked.
def command (options : Options) : Command Unit := do
  stage options 1 "Resolving project directory"
  let disk := (← get).disk
  let root := directory disk options.input
  let project ← Command.follow "Build" ("Compiling " ++ ·) .compile
    (Project.compile disk.source root)
  if options.has .checkOnly then stage options 2 "Checked"
  else
    let output := options.output?.getD (defaultOutput root)
    let package ← Command.follow "Build" id .package
      (project.package disk.source (!options.has .plainCenter))
    stage options 3 s!"Writing {output.shown}"
    store package.archive output

end Build

end BlockLang
