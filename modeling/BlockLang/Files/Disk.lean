import Std.Data.TreeMap.Basic
import BlockLang.Files.Source

/-!
Files on a disk, where directories are there on their own and links lead elsewhere.
-/

namespace BlockLang

inductive DiskEntry where
  | file (bytes : ByteArray)
  | directory
  | link (target : Path)

-- A disk, by the names that lead to each place from the root, and the directory from which relative
-- paths start.
structure Disk where
  entries : Std.TreeMap (List String) DiskEntry
  home : List String

namespace Disk

def empty : Disk := ⟨{}, []⟩

-- What lies at a place. The root is a directory.
def entry? (d : Disk) (place : List String) : Option DiskEntry :=
  if place = [] then some .directory else d.entries[place]?

def linkLimit : Nat := 40

-- Follows the segments of a path, and links on the way. The last name may be a new one if `isNew`
-- is set.
def follow (d : Disk) ( isNew : Bool) (links : Nat) (place segments : List String) :
    Except SystemError (List String) :=
  match segments with
  | [] => .ok place
  | s :: ss =>
    match d.entry? place with
    | some .directory =>
      if s = "" || s = "." then d.follow isNew links place ss
      else if s = ".." then d.follow isNew links place.dropLast ss
      else
        match d.entry? (place ++ [s]) with
        | none => if isNew && ss.isEmpty then .ok (place ++ [s]) else .error .notFound
        | some (.link target) =>
          match links with
          | 0 => .error .tooManyLinks
          | links + 1 =>
            d.follow isNew links (if target.isAbsolute then [] else place) (target.segments ++ ss)
        | some _ => d.follow isNew links (place ++ [s]) ss
    | _ => .error .notADirectory
termination_by (links, segments.length)

def origin (d : Disk) (path : Path) : List String :=
  if path.isAbsolute then [] else d.home

def locate (d : Disk) (path : Path) ( isNew : Bool := false) : Except SystemError (List String) :=
  if path.text = "" then .error .notFound
  else d.follow isNew linkLimit (d.origin path) path.segments

def at? (d : Disk) (path : Path) : Except SystemError DiskEntry :=
  match d.locate path with
  | .error e => .error e
  | .ok place =>
    match d.entry? place with
    | some entry => .ok entry
    | none => .error .notFound

def pathOf (place : List String) : Path :=
  .ofComponents (.root :: place.map .name)

def placeOf (path : Path) : List String :=
  path.segments.filter (· ≠ "")

def canonical (d : Disk) (path : Path) : Except SystemError Path :=
  (d.locate path).map pathOf

def readBytes (d : Disk) (path : Path) : Except SystemError ByteArray :=
  match d.at? path with
  | .ok (.file bytes) => .ok bytes
  | .ok _ => .error .isADirectory
  | .error e => .error e

def exists? (d : Disk) (path : Path) : Bool :=
  match d.at? path with
  | .ok _ => true
  | .error _ => false

def isFile (d : Disk) (path : Path) : Bool :=
  match d.at? path with
  | .ok (.file _) => true
  | _ => false

def isDir (d : Disk) (path : Path) : Bool :=
  match d.at? path with
  | .ok .directory => true
  | _ => false

def below? (dir place : List String) : Option (List String) :=
  if dir.isPrefixOf place && dir.length < place.length then some (place.drop dir.length) else none

def directory (d : Disk) (path : Path) : Except SystemError (List String) :=
  match d.locate path with
  | .error e => .error e
  | .ok place =>
    match d.entry? place with
    | some .directory => .ok place
    | _ => .error .notADirectory

def listDir (d : Disk) (path : Path) : Except SystemError (List Path) :=
  (d.directory path).map fun dir =>
    (d.entries.keys.filterMap fun place =>
      match below? dir place with
      | some [name] => some (path.child name)
      | _ => none).mergeSort FileSource.inOrder

-- The files in a directory and in those below it. Links to directories are left out.
def walk (d : Disk) (path : Path) : Except SystemError (List Path) :=
  (d.directory path).map fun dir =>
    (d.entries.toList.filterMap fun (place, entry) =>
      match below? dir place with
      | none => none
      | some names =>
        let file := names.foldl Path.child path
        match entry with
        | .directory => none
        | .file _ => some file
        | .link _ => if d.isDir file then none else some file).mergeSort FileSource.inOrder

def size (d : Disk) : Nat :=
  d.entries.foldl (fun n _ entry => match entry with
    | .file bytes => n + bytes.size
    | _ => n) 0

-- The disk as the source of a project. A chain of files that include each other takes a new name at
-- every step, which is written in one of the files or listed by the disk.
def source (d : Disk) : FileSource where
  readBytes path := (d.readBytes path).mapError .system
  isFile := d.isFile
  isDir := d.isDir
  listDir path := (d.listDir path).mapError .system
  walk path := (d.walk path).mapError .system
  nesting := d.size + d.entries.size + 1

-- Makes a directory at a place, where there must not be anything else.
def makeDir (d : Disk) (place : List String) : Except SystemError Disk :=
  match d.entry? place with
  | none => .ok { d with entries := d.entries.insert place .directory }
  | some .directory => .ok d
  | some _ => .error .alreadyExists

-- Makes the directories on the way along some segments, and the last one.
def makeDirs (d : Disk) (done : Path) : List String → Except SystemError Disk
  | [] => .ok d
  | s :: ss =>
    let path : Path := if done.text = "" then ⟨s⟩ else done.child s
    if s = "" || d.isDir path then d.makeDirs path ss
    else if d.exists? path then .error (if ss.isEmpty then .alreadyExists else .notADirectory)
    else
      match (if done.text = "" then .ok d.home else d.directory done) with
      | .error e => .error e
      | .ok place =>
        match d.makeDir (place ++ [s]) with
        | .error e => .error e
        | .ok d => d.makeDirs path ss

def createDirAll (d : Disk) (path : Path) : Except SystemError Disk :=
  d.makeDirs (if path.isAbsolute then ⟨"/"⟩ else ⟨""⟩) path.segments

def put (d : Disk) (place : List String) (bytes : ByteArray) : Except SystemError Disk :=
  match d.entry? place with
  | some .directory => .error .isADirectory
  | _ => .ok { d with entries := d.entries.insert place (.file bytes) }

-- Writes a file, in place of any other file of that name. A link is followed.
def write (d : Disk) (path : Path) (bytes : ByteArray) : Except SystemError Disk :=
  match d.locate path true with
  | .error e => .error e
  | .ok place => d.put place bytes

-- Moves a new file to its place. A link there is replaced.
def replace (d : Disk) (path : Path) (bytes : ByteArray) : Except SystemError Disk :=
  match path.segments.reverse.dropWhile (· = "") with
  | [] => .error .busy
  | name :: way =>
    match d.follow false linkLimit (d.origin path) way.reverse with
    | .error e => .error e
    | .ok dir =>
      if d.entry? dir matches some .directory then
        if name = "." || name = ".." then .error .busy
        else if path.segments.getLast? = some "" then .error .notADirectory
        else d.put (dir ++ [name]) bytes
      else .error .notADirectory

-- The disk with an entry put at a place, and with the directories that lead there.
def plant (d : Disk) (place : List String) (entry : DiskEntry) : Disk :=
  let ways := (List.range place.length).map place.take
  let entries := ways.foldl (fun es way =>
    if way = [] then es else es.insertIfNew way .directory) d.entries
  { d with entries := entries.insert place entry }

end Disk

end BlockLang
