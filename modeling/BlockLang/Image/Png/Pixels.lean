import BlockLang.Bytes.Inflate
import BlockLang.Image.Png.Header

/-!
The pixels of an image file, with a byte or more for each sample.
-/

namespace BlockLang

namespace Png

-- Some pixels of an image: the first column and row, the steps to the next ones, and how many
-- columns and rows there are.
structure Pass where
  x : Nat
  y : Nat
  stepX : Nat
  stepY : Nat
  width : Nat
  height : Nat
  deriving DecidableEq, Repr

namespace Pass

-- How many of the numbers below `n` are reached from `first` in steps.
def count (n first step : Nat) : Nat :=
  (n - first + (step - 1)) / step

-- The pass over every `stepX`-th column and every `stepY`-th row.
def every (h : Header) (x y stepX stepY : Nat) : Pass :=
  ⟨x, y, stepX, stepY, count h.width x stepX, count h.height y stepY⟩

-- The passes of an image. An interlaced one comes in seven of them, each finer than those before.
def all (h : Header) : List Pass :=
  if h.interlaced then
    [every h 0 0 8 8, every h 4 0 8 8, every h 0 4 4 8, every h 2 0 4 4, every h 0 2 2 4,
      every h 1 0 2 2, every h 0 1 1 2]
  else [every h 0 0 1 1]

-- The number of bytes of a row, without the byte that tells its filter.
def rowSize (h : Header) (p : Pass) : Nat :=
  (p.width * h.color.samples * h.depth + 7) / 8

def size (h : Header) (p : Pass) : Nat :=
  if p.width = 0 then 0 else p.height * (1 + rowSize h p)

end Pass

-- The one of three neighbours that is nearest to what they predict.
def paeth (left above corner : UInt8) : UInt8 :=
  let p : Int := left.toNat + above.toNat - corner.toNat
  let far (b : UInt8) : Nat := (p - b.toNat).natAbs
  if far left ≤ far above && far left ≤ far corner then left
  else if far above ≤ far corner then above
  else corner

-- What a filter takes off a byte, by the bytes before it, above it, and above the one before.
def prediction? (filter left above corner : UInt8) : Option UInt8 :=
  match filter.toNat with
  | 0 => some 0
  | 1 => some left
  | 2 => some above
  | 3 => some ((left.toNat + above.toNat) / 2).toUInt8
  | 4 => some (paeth left above corner)
  | _ => none

-- A row without its filter. `lefts` and `corners` are the bytes of the pixel before, in this row
-- and in the row above, the next one to be used first.
def unfilter? (filter : UInt8) (lefts corners : List UInt8) :
    List UInt8 → List UInt8 → Option (List UInt8)
  | b :: bs, above :: aboves => do
    let b := b + (← prediction? filter (lefts.headD 0) above (corners.headD 0))
    let rest ← unfilter? filter (lefts.tail ++ [b]) (corners.tail ++ [above]) bs aboves
    return b :: rest
  | _, _ => some []

-- Rows without their filters. `above` is the row before.
def rows? (pixelSize : Nat) (above : List UInt8) : List (List UInt8) → Option (List (List UInt8))
  | [] => some []
  | [] :: _ => none
  | (filter :: row) :: rows => do
    let blank := List.replicate pixelSize 0
    let row ← unfilter? filter blank blank row above
    return row :: (← rows? pixelSize row rows)

-- The samples of a byte that holds several, the first one in the highest bits.
def smallSamples (depth : Nat) (b : UInt8) : List UInt8 :=
  (List.range (8 / depth)).map fun i =>
    ((b.toNat >>> (8 - depth * (i + 1))) % Nat.pow 2 depth).toUInt8

-- The pixels of a row. Each sample of fewer than eight bits is a byte of its own.
def pixelsOfRow (h : Header) (width : Nat) (row : List UInt8) : List (List UInt8) :=
  let samples := if h.depth < 8 then row.flatMap (smallSamples h.depth) else row
  (Bytes.groups (h.color.samples * ((h.depth + 7) / 8)) samples).take width

-- A color of the palette with its opacity. Colors that are missing are black. Opacities count only
-- if there are not more of them than colors.
def paletteColor (palette opacities : List UInt8) (i : Nat) : List UInt8 :=
  let count := palette.length / 3
  let opacities := if opacities.length ≤ count then opacities else []
  if i < count then (palette.drop (3 * i)).take 3 ++ [opacities.getD i 0xff] else [0, 0, 0, 0xff]

-- A pixel as it is shown: colors in place of their numbers, samples that fill whole bytes, and an
-- opacity if the image tells what is transparent.
def shownPixel (h : Header) (palette : List UInt8) (pixel : List UInt8) : List UInt8 :=
  match h.color with
  | .indexed =>
    let color := paletteColor palette (h.transparency.getD []) (pixel.headD 0).toNat
    if h.transparency.isSome then color else color.take 3
  | _ =>
    let scaled :=
      if h.depth < 8 then pixel.map fun s => s * (255 / (Nat.pow 2 h.depth - 1)).toUInt8 else pixel
    match h.transparency with
    | none => scaled
    | some color => scaled ++
        List.replicate ((h.depth + 7) / 8) (if pixel = color then 0 else 0xff)

def passPixels? (h : Header) (palette : List UInt8) (p : Pass) (data : List UInt8) :
    Option (List ((Nat × Nat) × List UInt8)) := do
  let rowSize := p.rowSize h
  let pixelSize := max 1 (h.color.samples * h.depth / 8)
  let rows ← rows? pixelSize (List.replicate rowSize 0) (Bytes.groups (1 + rowSize) data)
  return rows.zipIdx.flatMap fun (row, j) =>
    (pixelsOfRow h p.width row).zipIdx.map fun (pixel, i) =>
      ((p.y + p.stepY * j, p.x + p.stepX * i), shownPixel h palette pixel)

def passesPixels? (h : Header) (palette : List UInt8) (data : List UInt8) :
    List Pass → Option (List ((Nat × Nat) × List UInt8))
  | [] => some []
  | p :: ps => do
    let size := p.size h
    let first ← passPixels? h palette p (data.take size)
    return first ++ (← passesPixels? h palette (data.drop size) ps)

def inRowOrder (p q : (Nat × Nat) × List UInt8) : Bool :=
  p.1.1 < q.1.1 || (p.1.1 = q.1.1 && p.1.2 ≤ q.1.2)

-- The data of the chunks that hold pixels. All of them have to be intact, and another chunk has to
-- follow.
def pixelData? : List Chunk → Option (List UInt8)
  | [] => none
  | c :: cs =>
    if c.kind ≠ "IDAT" then some []
    else if c.state = .intact then (pixelData? cs).map (c.data ++ ·) else none

def pixels? (bytes : List UInt8) : Option (List UInt8) := do
  let (h, chunks) ← Header.ofFile? bytes
  let palette ← if h.color = .indexed then h.palette else some []
  let data ← Inflate.decompress? (← pixelData? chunks)
  let passes := Pass.all h
  if data.size < passes.foldl (fun n p => n + p.size h) 0 then none
  else
    let pixels ← passesPixels? h palette data.toList passes
    let pixels := if h.interlaced then pixels.mergeSort inRowOrder else pixels
    return pixels.flatMap (·.2)

end Png

end BlockLang
