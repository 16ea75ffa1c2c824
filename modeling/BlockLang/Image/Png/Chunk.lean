import BlockLang.Bytes.Crc32
import BlockLang.Bytes.Order

/-!
The chunks of an image file.
-/

namespace BlockLang

namespace Png

inductive ChunkState where
  | intact
  -- The check after the data differs from the check of the data.
  | damaged
  -- The file ends within the chunk.
  | truncated
  deriving DecidableEq, Repr

-- A chunk: four characters that tell its kind, and its data.
structure Chunk where
  kind : String
  data : List UInt8
  state : ChunkState
  deriving DecidableEq, Repr

-- Chunks whose kind starts with a capital letter cannot be left out.
def Chunk.isCritical (c : Chunk) : Bool :=
  match c.kind.toList with
  | k :: _ => k.toNat / 32 % 2 = 0
  | [] => false

def signature : List UInt8 :=
  [0x89, 0x50, 0x4e, 0x47, 0x0d, 0x0a, 0x1a, 0x0a]

-- The chunk at the head of some bytes, and the bytes after it. A chunk has a length, a kind, data
-- and a check of kind and data.
def chunk? (bytes : List UInt8) : Option (Chunk × List UInt8) :=
  match bytes with
  | l₁ :: l₂ :: l₃ :: l₄ :: k₁ :: k₂ :: k₃ :: k₄ :: rest =>
    let length := Bytes.ofHighFirst [l₁, l₂, l₃, l₄]
    let kind := [k₁, k₂, k₃, k₄]
    let data := rest.take length
    let state := match rest.drop length with
      | c₁ :: c₂ :: c₃ :: c₄ :: _ =>
        if Bytes.ofHighFirst [c₁, c₂, c₃, c₄] = (Crc32.ofBytes (kind ++ data)).toNat then .intact
        else .damaged
      | _ => .truncated
    some (⟨String.ofList (kind.map fun b => Char.ofNat b.toNat), data, state⟩,
      rest.drop (length + 4))
  | _ => none

def chunks (bytes : List UInt8) : List Chunk :=
  match _h : chunk? bytes with
  | none => []
  | some (c, rest) => c :: chunks rest
termination_by bytes.length
decreasing_by
  unfold chunk? at _h
  split at _h
  · simp only [Option.some.injEq, Prod.mk.injEq] at _h
    obtain ⟨_, rfl⟩ := _h
    simp
    omega
  · cases _h

def chunksOfFile? (bytes : List UInt8) : Option (List Chunk) :=
  if signature.isPrefixOf bytes then some (chunks (bytes.drop signature.length)) else none

end Png

end BlockLang
