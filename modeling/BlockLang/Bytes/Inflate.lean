import BlockLang.Bytes.Huffman

/-!
Data compressed as runs of literal bytes and of copies from further back, in blocks with prefix
codes of their own.
-/

namespace BlockLang

namespace Inflate

-- The codes of one block: of literals and lengths, and of distances.
structure Codes where
  literals : Code
  distances : Code

-- The symbol that ends a block. Those below it are literal bytes, those above it lengths.
def endSymbol : Nat := 256

-- The least value and the number of further bits of each symbol, where `step` symbols in a row have
-- the same number of further bits.
def ranges (first step : Nat) (widths : List Nat) : List (Nat × Nat) :=
  go first (widths.flatMap (List.replicate step))
where
  -- Each range starts where the last one ends.
  go (first : Nat) : List Nat → List (Nat × Nat)
    | [] => []
    | width :: widths => (first, width) :: go (first + Nat.pow 2 width) widths

-- The lengths of copies. The last symbol stands for one length alone.
def lengthRanges : List (Nat × Nat) :=
  ranges 3 4 [0, 0, 1, 2, 3, 4, 5] ++ [(258, 0)]

def distanceRanges : List (Nat × Nat) :=
  ranges 1 2 [0, 0, 1, 2, 3, 4, 5, 6, 7, 8, 9, 10, 11, 12, 13]

def value? (table : List (Nat × Nat)) (symbol : Nat) (bits : Bits) : Option (Upto bits Nat) := do
  let (first, width) ← table[symbol]?
  let ⟨more, rest, h⟩ ← bits.number? width
  return ⟨first + more, rest, h⟩

-- Copies bytes from `distance` back. The copy may reach into itself.
def copy (distance : Nat) : Nat → ByteArray → ByteArray
  | 0, out => out
  | n + 1, out => copy distance n (out.push ((out[out.size - distance]?).getD 0))

-- Reads symbols up to the end of a block. The symbols before were read from the start of `whole`.
def symbols? (codes : Codes) {whole : Bits} (out : ByteArray) (bits : Bits)
    (h : bits.length ≤ whole.length) : Option (Upto whole ByteArray) := do
  let ⟨symbol, rest, h₁⟩ ← codes.literals.next? bits
  if symbol < endSymbol then symbols? codes (out.push symbol.toUInt8) rest (by omega)
  else if symbol = endSymbol then return ⟨out, rest, by omega⟩
  else
    let ⟨length, rest, h₂⟩ ← value? lengthRanges (symbol - endSymbol - 1) rest
    let ⟨symbol, rest, h₃⟩ ← codes.distances.next? rest
    let ⟨distance, rest, h₄⟩ ← value? distanceRanges symbol rest
    if out.size < distance then none
    else symbols? codes (copy distance length out) rest (by omega)
termination_by bits.length

def fixedCodes? : Option Codes := do
  let literals ← Code.ofLengths? (List.replicate 144 8 ++ List.replicate 112 9 ++
    List.replicate 24 7 ++ List.replicate 8 8)
  let distances ← Code.ofLengths? (List.replicate 32 5)
  return ⟨literals, distances⟩

-- The order in which the lengths for the code of lengths are given.
def lengthOrder : List Nat :=
  [16, 17, 18, 0, 8, 7, 9, 6, 10, 5, 11, 4, 12, 3, 13, 2, 14, 1, 15]

def triples? (n : Nat) (bits : Bits) : Option (Upto bits (List Nat)) :=
  match n with
  | 0 => some (.nothing bits [])
  | n + 1 => do
    let ⟨x, rest, h⟩ ← bits.number? 3
    let xs ← triples? n rest
    return (xs.within h).map (x :: ·)

-- Reads code lengths until there are `n` of them. `lengths` holds those before, the last one first.
-- Some symbols repeat the last length or stand for a run of zeros.
def lengths? (code : Code) (n : Nat) (lengths : List Nat) (bits : Bits) :
    Option (Upto bits (List Nat)) := do
  if n ≤ lengths.length then
    if n = lengths.length then return .nothing bits lengths.reverse else none
  else
    let ⟨symbol, rest, h⟩ ← code.next? bits
    let ⟨more, rest, h₁⟩ ← run? symbol rest
    let ⟨lengths, rest, h₂⟩ ← lengths? code n (more ++ lengths) rest
    return ⟨lengths, rest, by omega⟩
termination_by bits.length
where
  -- The lengths that a symbol stands for.
  run? (symbol : Nat) (bits : Bits) : Option (Upto bits (List Nat)) :=
    let repeated (width least : Nat) (x : Nat) : Option (Upto bits (List Nat)) :=
      (bits.number? width).map fun ⟨n, rest, h⟩ => ⟨List.replicate (least + n) x, rest, h⟩
    match symbol with
    | 16 => lengths.head?.bind (repeated 2 3)
    | 17 => repeated 3 3 0
    | 18 => repeated 7 11 0
    | length => some (.nothing bits [length])

def codes? (bits : Bits) : Option (Upto bits Codes) := do
  let ⟨literals, rest, h⟩ ← bits.number? 5
  let ⟨distances, rest, h₁⟩ ← Bits.number? 5 rest
  let ⟨n, rest, h₂⟩ ← Bits.number? 4 rest
  if 29 < literals || 29 < distances then none
  else
    let ⟨given, rest, h₃⟩ ← triples? (n + 4) rest
    let ofSymbol (symbol : Nat) : Nat := ((lengthOrder.zip given).lookup symbol).getD 0
    let code ← Code.ofLengths? ((List.range lengthOrder.length).map ofSymbol)
    let ⟨lengths, rest, h₄⟩ ← lengths? code (literals + 257 + distances + 1) [] rest
    let literalLengths := lengths.take (literals + 257)
    if literalLengths.getD endSymbol 0 = 0 then none
    else
      let literals ← Code.ofLengths? literalLengths
      let distances ← Code.ofFewLengths? (lengths.drop literalLengths.length)
      return ⟨⟨literals, distances⟩, rest, by omega⟩

-- Reads `n` bytes. Those before were read from the start of `whole`.
def bytes? (n : Nat) {whole : Bits} (out : ByteArray) (bits : Bits)
    (h : bits.length ≤ whole.length) : Option (Upto whole ByteArray) :=
  match n with
  | 0 => some ⟨out, bits, h⟩
  | n + 1 => do
    let ⟨b, rest, h₁⟩ ← bits.number? 8
    bytes? n (out.push b.toUInt8) rest (by omega)

-- Reads a block that is not compressed, from the next whole byte on.
def stored? (out : ByteArray) (bits : Bits) : Option (Upto bits ByteArray) := do
  let aligned := bits.drop (bits.length % 8)
  let ⟨n, rest, h⟩ ← Bits.number? 16 aligned
  let ⟨check, rest, h₁⟩ ← Bits.number? 16 rest
  if n + check ≠ 0xffff then none
  else bytes? n out rest (by simp [aligned] at h; omega)

-- Reads what follows the head of a block, by the two bits that tell its kind.
def block? (low high : Bool) (out : ByteArray) (bits : Bits) : Option (Upto bits ByteArray) :=
  match low, high with
  | false, false => stored? out bits
  | true, false => do symbols? (← fixedCodes?) out bits (Nat.le_refl _)
  | false, true => do
    let ⟨codes, rest, h⟩ ← codes? bits
    symbols? codes out rest h
  | true, true => none

def blocks? (out : ByteArray) (bits : Bits) : Option (ByteArray × Bits) :=
  match bits with
  | final :: low :: high :: bits => do
    let ⟨out, rest, _h⟩ ← block? low high out bits
    if final then return (out, rest) else blocks? out rest
  | _ => none
termination_by bits.length
decreasing_by simp only [List.length_cons]; omega

def checksumSize : Nat := 4

-- The data that some bytes stand for, which begin with a header and end with a checksum. The
-- checksum has to be there, but it is not compared.
def decompress? (bytes : List UInt8) : Option ByteArray :=
  match bytes with
  | method :: flags :: bytes => do
    let header := method.toNat * 256 + flags.toNat
    if method.toNat % 16 ≠ 8 || 7 < method.toNat / 16 || header % 31 ≠ 0 ||
        flags.toNat / 32 % 2 ≠ 0 then none
    else
      let (out, rest) ← blocks? .empty (Bits.ofBytes bytes)
      if rest.length / 8 < checksumSize then none else return out
  | _ => none

end Inflate

end BlockLang
