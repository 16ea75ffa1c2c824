import BlockLang.Command.Session
import BlockLang.Project.Compile

/-!
A project to start from.
-/

namespace BlockLang

namespace Starter

def files : List (String × String) := [
  (Project.stageFile, "costumes \"blank.svg\";\n"),
  ("main.gs",
    "costumes \"blank.svg\";\n\nonflag \x7b\n    say \"Hello, World!\";\n\x7d\n"),
  ("blank.svg", "<svg xmlns=\"http://www.w3.org/2000/svg\" width=\"2\" height=\"2\" " ++
    "viewBox=\"0 0 2 2\"></svg>")]

def marks : List String := [Project.stageFile, "main.gs"]

-- Writes the files into a directory, which must not hold a project.
def write (directory : Path) : Command Unit := do
  let disk := (← get).disk
  if marks.any fun mark => disk.exists? (directory.child mark) then
    throw (.projectExists directory)
  Command.change (.notCreated directory) (·.createDirAll directory)
  for (name, contents) in files do
    Command.change (.notWritten ⟨name⟩) (·.write (directory.child name) contents.toUTF8)

def command (directory : Path) : Command Unit := do
  Command.step "Init" ⟨1, 1, "Writing starter project"⟩
  write directory

end Starter

end BlockLang
