import BlockLang.Command.Reach
import BlockLang.Command.Run

/-!
The command on a real disk: it looks at all that the work can need, works on what it has seen, and
writes what has changed.
-/

namespace BlockLang.Host

-- Looks at one place, and at the place that a link there leads to, unless it is known.
def look (disk : Disk) (place : List String) : IO Disk := do
  if disk.entries.contains place then return disk
  let file := (← IO.currentDir) / (Disk.pathOf place).text
  try
    match (← file.symlinkMetadata).type with
    | .dir => return disk.plant place .directory
    | .file => return disk.plant place (.file (← IO.FS.readBinFile file))
    | .symlink =>
      let target : Path := ⟨(← IO.FS.realPath file).toString⟩
      let entry ← match (← file.metadata).type with
        | .dir => pure DiskEntry.directory
        | _ => pure (.file (← IO.FS.readBinFile file))
      return (disk.plant (Disk.placeOf target) entry).plant place (.link target)
    | .other => return disk
  catch _ => return disk

def lookAlong (disk : Disk) (path : Path) : IO Disk := do
  let mut disk := disk
  let mut way : Path := if path.isAbsolute then ⟨"/"⟩ else ⟨"."⟩
  for s in path.segments do
    if let .ok place := disk.locate way then
      unless s = "" || s = "." || s = ".." do
        disk ← look disk (place ++ [s])
    way := way.child s
  return disk

def names (place : List String) : IO (List String) := do
  try
    let entries ← ((← IO.currentDir) / (Disk.pathOf place).text).readDir
    return entries.toList.map (·.fileName)
  catch _ => return []

partial def lookBelow (disk : Disk) (place : List String) : IO Disk := do
  let mut disk := disk
  for name in ← names place do
    let below := place ++ [name]
    disk ← look disk below
    if let some .directory := disk.entry? below then
      disk ← lookBelow disk below
  return disk

-- Looks at all that the files of a project can name, until nothing new turns up.
partial def lookAround (disk : Disk) (root : Path) : IO Disk := do
  let mut found := disk
  for (_, entry) in disk.entries.toList do
    if let .file bytes := entry then
      if let .ok text := Utf8.decode bytes then
        for path in Reach.ofText root text do
          found ← lookAlong found path
  if found.entries.size = disk.entries.size then return found else lookAround found root

def diskFor (options : Options) : IO Disk := do
  let home := Disk.placeOf ⟨(← IO.currentDir).toString⟩
  let empty : Disk := { Disk.empty.plant home .directory with home }
  let disk ← lookAlong empty options.input
  let disk ← match options.output? with
    | some output => lookAlong disk output
    | none => pure disk
  if disk.isDir options.input then
    let root := Build.directory disk options.input
    let disk ← lookBelow disk (Disk.placeOf root)
    lookAround disk root
  else
    match options.input.parent?.map disk.locate with
    | some (.ok place) => (← names place).foldlM (fun disk name => look disk (place ++ [name])) disk
    | _ => return disk

-- Writes a file whose contents are complete before it has its name.
def writeFile (path : String) (bytes : ByteArray) : IO Unit := do
  let draft := path ++ ".part"
  IO.FS.writeBinFile draft bytes
  IO.FS.rename draft path

def writeChanges (before after : Disk) : IO Unit := do
  for (place, entry) in after.entries.toList do
    let path := (Disk.pathOf place).text
    match entry, before.entries[place]? with
    | .directory, none => IO.FS.createDirAll path
    | .file bytes, some (.file old) => unless bytes.data == old.data do writeFile path bytes
    | .file bytes, _ => writeFile path bytes
    | _, _ => pure ()

def run (arguments : List String) : IO UInt32 := do
  let disk ← match Request.ofArguments arguments with
    | .ok (.work options) => diskFor options
    | _ => pure .empty
  let outcome := Outcome.ofArguments disk arguments
  IO.print outcome.output
  IO.eprint outcome.report
  try
    writeChanges disk outcome.disk
    return outcome.code.toUInt32
  catch e =>
    IO.eprintln s!"Error! {e}"
    return 1

end BlockLang.Host

def main (arguments : List String) : IO UInt32 :=
  BlockLang.Host.run arguments
