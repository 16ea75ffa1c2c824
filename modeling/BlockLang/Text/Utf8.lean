/-!
Text from bytes.
-/

namespace BlockLang.Utf8

-- Why some bytes are no text. Both cases give the number of bytes before the fault.
inductive Fault where
  | invalid (length index : Nat)
  | incomplete (index : Nat)
  deriving DecidableEq, Repr

def Fault.message : Fault → String
  | invalid length index => s!"invalid utf-8 sequence of {length} bytes from index {index}"
  | incomplete index => s!"incomplete utf-8 byte sequence from index {index}"

-- What stands at the head of some bytes: a character of some length, as many bytes as can begin a
-- character and then fail to go on, or a character that is cut off.
inductive Head where
  | char (length : Nat)
  | invalid (length : Nat)
  | incomplete
  deriving DecidableEq, Repr

-- The number of bytes after the first one, and the range of the second byte.
def shape? (b : UInt8) : Option (Nat × UInt8 × UInt8) :=
  if b < 0x80 then some (0, 0, 0)
  else if 0xc2 ≤ b && b ≤ 0xdf then some (1, 0x80, 0xbf)
  else if b = 0xe0 then some (2, 0xa0, 0xbf)
  else if b = 0xed then some (2, 0x80, 0x9f)
  else if 0xe1 ≤ b && b ≤ 0xef then some (2, 0x80, 0xbf)
  else if b = 0xf0 then some (3, 0x90, 0xbf)
  else if 0xf1 ≤ b && b ≤ 0xf3 then some (3, 0x80, 0xbf)
  else if b = 0xf4 then some (3, 0x80, 0x8f)
  else none

-- Reads `more` bytes, the first of which lies between `low` and `high`, after `seen` bytes.
def following (seen : Nat) : Nat → UInt8 → UInt8 → List UInt8 → Head
  | 0, _, _, _ => .char seen
  | _ + 1, _, _, [] => .incomplete
  | more + 1, low, high, b :: bs =>
    if low ≤ b && b ≤ high then following (seen + 1) more 0x80 0xbf bs else .invalid seen

def head (b : UInt8) (bs : List UInt8) : Head :=
  match shape? b with
  | some (more, low, high) => following 1 more low high bs
  | none => .invalid 1

def fault? (index : Nat) (bytes : List UInt8) : Option Fault :=
  match bytes with
  | [] => none
  | b :: bs =>
    match head b bs with
    | .char length => fault? (index + length) (bs.drop (length - 1))
    | .invalid length => some (.invalid length index)
    | .incomplete => some (.incomplete index)
termination_by bytes.length
decreasing_by simp only [List.length_drop, List.length_cons]; omega

def decode (bytes : ByteArray) : Except Fault String :=
  match String.fromUTF8? bytes with
  | some s => .ok s
  | none => .error ((fault? 0 bytes.toList).getD (.invalid 1 0))

-- The text that some bytes stand for, with a sign in place of each run of bytes that stands for
-- nothing.
def replaceFaults (bytes : List UInt8) : String :=
  match bytes with
  | [] => ""
  | b :: bs =>
    match head b bs with
    | .char length =>
      ((String.fromUTF8? ⟨(b :: bs.take (length - 1)).toArray⟩).getD "\ufffd") ++
        replaceFaults (bs.drop (length - 1))
    | .invalid length => "\ufffd" ++ replaceFaults (bs.drop (length - 1))
    | .incomplete => "\ufffd"
termination_by bytes.length
decreasing_by all_goals simp only [List.length_drop, List.length_cons]; omega

def decodeLossy (bytes : ByteArray) : String :=
  match String.fromUTF8? bytes with
  | some s => s
  | none => replaceFaults bytes.toList

end BlockLang.Utf8
