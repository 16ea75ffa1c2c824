import Std.Data.TreeMap.Basic
import BlockLang.Files.Source

/-!
Files that are held in memory. The place of a file is its path with all detours taken out, and a
directory is whatever lies on the way to a file.
-/

namespace BlockLang

structure MemoryTree where
  files : Std.TreeMap (List Component) ByteArray

namespace MemoryTree

def empty : MemoryTree := ⟨{}⟩

def insert (t : MemoryTree) (path : Path) (bytes : ByteArray) : MemoryTree :=
  ⟨t.files.insert path.place bytes⟩

def readBytes (t : MemoryTree) (path : Path) : Except ReadError ByteArray :=
  match t.files[path.place]? with
  | some bytes => .ok bytes
  | none => .error (.absent path)

def isFile (t : MemoryTree) (path : Path) : Bool :=
  t.files.contains path.place

def below? (dir place : List Component) : Option (Component × List Component) :=
  if dir.isPrefixOf place then
    match place.drop dir.length with
    | [] => none
    | c :: cs => some (c, cs)
  else none

def isDir (t : MemoryTree) (path : Path) : Bool :=
  t.files.keys.any fun place => (below? path.place place).isSome

def listDir (t : MemoryTree) (path : Path) : List Path :=
  let steps := t.files.keys.filterMap fun place => (below? path.place place).map (·.1)
  (steps.eraseDups.map fun c => Path.ofComponents (path.place ++ [c])).mergeSort FileSource.inOrder

def walk (t : MemoryTree) (path : Path) : List Path :=
  (t.files.keys.filter fun place => (below? path.place place).isSome).map Path.ofComponents

def source (t : MemoryTree) : FileSource where
  readBytes := t.readBytes
  isFile := t.isFile
  isDir := t.isDir
  listDir path := .ok (t.listDir path)
  walk path := .ok (t.walk path)
  nesting := t.files.size + 1

end MemoryTree

end BlockLang
