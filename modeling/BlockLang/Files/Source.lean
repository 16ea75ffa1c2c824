import BlockLang.Files.Glob
import BlockLang.Path
import BlockLang.Text.Utf8

/-!
What a project is read from.
-/

namespace BlockLang

-- Why the system does not let a file be read or written.
inductive SystemError where
  | notFound
  | alreadyExists
  | notADirectory
  | isADirectory
  | busy
  | tooManyLinks
  deriving DecidableEq, Repr

def SystemError.message : SystemError → String
  | notFound => "No such file or directory (os error 2)"
  | alreadyExists => "File exists (os error 17)"
  | notADirectory => "Not a directory (os error 20)"
  | isADirectory => "Is a directory (os error 21)"
  | busy => "Device or resource busy (os error 16)"
  | tooManyLinks => "Too many levels of symbolic links (os error 40)"

inductive ReadError where
  | absent (path : Path)
  | notText (fault : Utf8.Fault)
  | system (error : SystemError)
  deriving DecidableEq, Repr

def ReadError.message : ReadError → String
  | absent path => s!"'{path.text}' not found"
  | notText fault => fault.message
  | system error => error.message

structure FileSource where
  readBytes : Path → Except ReadError ByteArray
  isFile : Path → Bool
  isDir : Path → Bool
  -- What lies directly in a directory, in order.
  listDir : Path → Except ReadError (List Path)
  -- The files in a directory and in the directories below it, in order.
  walk : Path → Except ReadError (List Path)
  -- No chain of different files of this source is longer.
  nesting : Nat

namespace FileSource

def readText (source : FileSource) (path : Path) : Except ReadError String :=
  match source.readBytes path with
  | .ok bytes => (Utf8.decode bytes).mapError .notText
  | .error e => .error e

def wayFrom? (base file : Path) : Option String :=
  if file.startsWith base then
    some ("/".intercalate ((file.components.drop base.components.length).map Component.text))
  else none

def inOrder (p q : Path) : Bool :=
  (compare p q).isLE

-- The files below `base` that a pattern matches, seen from there, in order.
def glob (source : FileSource) (base : Path) (pattern : String) : Except ReadError (List Path) :=
  match source.walk base with
  | .error e => .error e
  | .ok files =>
    .ok ((files.filter fun file =>
      match wayFrom? base file with
      | some way => globMatches pattern way
      | none => false).mergeSort inOrder)

end FileSource

end BlockLang
