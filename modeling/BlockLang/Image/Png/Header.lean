import BlockLang.Image.Png.Chunk

/-!
What an image file tells about itself before its pixels.
-/

namespace BlockLang

namespace Png

inductive ColorKind where
  | gray
  | rgb
  | indexed
  | grayAlpha
  | rgba
  deriving DecidableEq, Repr

namespace ColorKind

def ofNat? : Nat → Option ColorKind
  | 0 => some gray
  | 2 => some rgb
  | 3 => some indexed
  | 4 => some grayAlpha
  | 6 => some rgba
  | _ => none

def samples : ColorKind → Nat
  | gray | indexed => 1
  | grayAlpha => 2
  | rgb => 3
  | rgba => 4

def depths : ColorKind → List Nat
  | gray => [1, 2, 4, 8, 16]
  | indexed => [1, 2, 4, 8]
  | rgb | grayAlpha | rgba => [8, 16]

end ColorKind

-- The form of an image, its palette and what in it is transparent.
structure Header where
  width : Nat
  height : Nat
  depth : Nat
  color : ColorKind
  interlaced : Bool
  palette : Option (List UInt8)
  transparency : Option (List UInt8)
  deriving DecidableEq, Repr

namespace Header

def ofData? (data : List UInt8) : Option Header :=
  match data.drop 8 with
  | depth :: color :: compression :: filter :: interlace :: _ => do
    let width := Bytes.ofHighFirst (data.take 4)
    let height := Bytes.ofHighFirst ((data.drop 4).take 4)
    let color ← ColorKind.ofNat? color.toNat
    if width = 0 || height = 0 || !color.depths.contains depth.toNat || compression ≠ 0 ||
        filter ≠ 0 || 1 < interlace then none
    else return ⟨width, height, depth.toNat, color, interlace = 1, none, none⟩
  | _ => none

def lowBytes : List UInt8 → List UInt8
  | _ :: low :: rest => low :: lowBytes rest
  | _ => []

-- Takes note of what is transparent: the color of such pixels, or an opacity for each color of the
-- palette. There must not be any if pixels have an opacity of their own.
def withTransparency? (h : Header) (data : List UInt8) : Option Header :=
  let color := if h.depth < 16 then lowBytes (data.take (2 * h.color.samples)) else data
  if h.transparency.isSome then none
  else match h.color with
    | .gray | .rgb =>
      if data.length < 2 * h.color.samples then none else some { h with transparency := some color }
    | .indexed => if h.palette.isNone then none else some { h with transparency := some data }
    | .grayAlpha | .rgba => none

def withChunk? (h : Header) (c : Chunk) : Option Header :=
  match c.state with
  | .truncated => none
  | .damaged => if c.isCritical then none else some h
  | .intact =>
    match c.kind with
    | "IHDR" | "IEND" => none
    | "PLTE" => if h.palette.isSome then none else some { h with palette := some c.data }
    | "tRNS" => h.withTransparency? c.data
    | _ => some h

-- The header with all that follows up to the pixels, and the chunks from there on.
def untilPixels? (h : Header) : List Chunk → Option (Header × List Chunk)
  | [] => none
  | c :: cs =>
    if c.kind = "IDAT" then some (h, c :: cs)
    else (h.withChunk? c).bind (untilPixels? · cs)

-- The header of an image file, and its chunks from the pixels on.
def ofFile? (bytes : List UInt8) : Option (Header × List Chunk) := do
  match ← chunksOfFile? bytes with
  | c :: cs =>
    if c.kind = "IHDR" && c.state = .intact then untilPixels? (← ofData? c.data) cs else none
  | [] => none

end Header

end Png

end BlockLang
