import BlockLang.Command.Build
import BlockLang.Command.Starter

/-!
The command as a whole: from its arguments and a disk to what it shows and what it leaves behind.
-/

namespace BlockLang

-- What a command comes to: its exit code, what it writes and what it reports, and the disk.
structure Outcome where
  code : Nat
  output : String
  report : String
  disk : Disk

namespace Outcome

def work (options : Options) : Command Unit :=
  if options.has .starter then Starter.command options.input else Build.command options

def ofRequest (disk : Disk) : Request → Outcome
  | .usage => ⟨0, usageText, "", disk⟩
  | .version => ⟨0, versionText, "", disk⟩
  | .work options =>
    match (work options).run ⟨disk, ""⟩ with
    | .ok _ session => ⟨0, "", session.shown, session.disk⟩
    | .error e session => ⟨1, "", session.shown ++ e.render, session.disk⟩

-- What the command comes to with some arguments. Those that ask for nothing change nothing.
def ofArguments (disk : Disk) (arguments : List String) : Outcome :=
  match Request.ofArguments arguments with
  | .ok request => ofRequest disk request
  | .error e => ⟨2, "", e.render, disk⟩

end Outcome

end BlockLang
