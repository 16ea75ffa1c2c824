/-!
The cyclic redundancy check of 32 bits that images and archives carry.
-/

namespace BlockLang

namespace Crc32

def polynomial : UInt32 := 0xedb88320

def shift (crc : UInt32) : UInt32 :=
  if crc &&& 1 = 1 then (crc >>> 1) ^^^ polynomial else crc >>> 1

def step (crc : UInt32) (b : UInt8) : UInt32 :=
  Nat.repeat shift 8 (crc ^^^ b.toUInt32)

def ofBytes (bytes : List UInt8) : UInt32 :=
  bytes.foldl step 0xffffffff ^^^ 0xffffffff

end Crc32

end BlockLang
