import BlockLang.Bytes.Crc32
import BlockLang.Bytes.Order
import BlockLang.Text.Utf8

/-!
Archives: files under names, one after the other, and a directory of them at the end.
-/

namespace BlockLang

-- Files with their names, in the order in which they are stored.
structure Archive where
  entries : List (String × ByteArray)

namespace Archive

-- Numbers one after the other, each with as many bytes as are told, the lowest byte first.
def numbers (ns : List (Nat × Nat)) : List UInt8 :=
  ns.flatMap fun (width, n) => Bytes.lowFirst width n

-- The mark of a file, and the mark of its entry in the directory.
def fileMark : Nat := 0x04034b50

def directoryMark : Nat := 0x02014b50

def endMark : Nat := 0x06054b50

-- What a file and its entry in the directory both tell: the version that can read it, that its name
-- is text, that it is not compressed, the first day that can be told, its check and its sizes.
def description (name : ByteArray) (bytes : ByteArray) : List UInt8 :=
  numbers [(2, 20), (2, 0x0800), (2, 0), (2, 0), (2, 0x0021),
    (4, (Crc32.ofBytes bytes.toList).toNat), (4, bytes.size), (4, bytes.size), (2, name.size),
    (2, 0)]

def fileRecord (name : String) (bytes : ByteArray) : ByteArray :=
  let name := name.toUTF8
  ⟨(numbers [(4, fileMark)] ++ description name bytes).toArray⟩ ++ name ++ bytes

-- The entry of a file in the directory. It tells where the file starts.
def directoryRecord (start : Nat) (name : String) (bytes : ByteArray) : ByteArray :=
  let name := name.toUTF8
  ⟨(numbers [(4, directoryMark), (2, 20)] ++ description name bytes ++
    numbers [(2, 0), (2, 0), (2, 0), (4, 0), (4, start)]).toArray⟩ ++ name

-- The end of an archive: how many files there are, and the size and the start of the directory.
def endRecord (count size start : Nat) : ByteArray :=
  ⟨(numbers [(4, endMark), (2, 0), (2, 0), (2, count), (2, count), (4, size), (4, start),
    (2, 0)]).toArray⟩

def toBytes (archive : Archive) : ByteArray :=
  let (files, directory) := archive.entries.foldl (fun (files, directory) (name, bytes) =>
    (files ++ fileRecord name bytes, directory ++ directoryRecord files.size name bytes))
    (.empty, .empty)
  files ++ directory ++ endRecord archive.entries.length directory.size files.size

def number (bytes : ByteArray) (start width : Nat) : Nat :=
  Bytes.ofLowFirst (bytes.extract start (start + width)).toList

-- The size of the end of an archive, without the remark that may follow it.
def endSize : Nat := 22

def endsAt (bytes : ByteArray) (start : Nat) : Bool :=
  number bytes start 4 = endMark &&
    start + endSize + number bytes (start + 20) 2 = bytes.size

def namesFrom (bytes : ByteArray) (start : Nat) : Nat → Option (List String)
  | 0 => some []
  | count + 1 =>
    if number bytes start 4 ≠ directoryMark then none
    else
      let length (i : Nat) := number bytes (start + i) 2
      let name := bytes.extract (start + 46) (start + 46 + length 28)
      (namesFrom bytes (start + 46 + length 28 + length 30 + length 32) count).map
        (Utf8.decodeLossy name :: ·)

def names? (bytes : ByteArray) : Option (List String) :=
  match ((List.range (bytes.size + 1 - endSize)).reverse).find? (endsAt bytes) with
  | none => none
  | some start => namesFrom bytes (number bytes (start + 16) 4) (number bytes (start + 10) 2)

end Archive

end BlockLang
