import BlockLang.Block.Basic

/-!
The places of scripts on the canvas: one below the other, with room between them.
-/

namespace BlockLang

namespace Layout

def gap : Nat := 30

def hatHeight : Nat := 65

def statementHeight : Nat := 48

-- What a reporter adds to the height of the block that it is plugged into.
def reporterHeight : Nat := 8

end Layout

open Layout

mutual

def Input.reporterHeight : Input → Nat
  | .block b => b.reporterHeight
  | .literal _ | .var _ | .list _ | .stack _ => 0

def Block.reporterHeight : Block → Nat
  | ⟨_, _, inputs, _, _, _⟩ => Layout.reporterHeight + Input.tallest inputs

def Input.tallest : List (String × Input) → Nat
  | [] => 0
  | (_, i) :: is => max i.reporterHeight (Input.tallest is)

end

mutual

def Input.stackHeight : Input → Nat
  | .stack bs => Block.heightAll bs
  | .literal _ | .var _ | .list _ | .block _ => 0

def Block.height : Block → Nat
  | ⟨_, kind, inputs, _, _, _⟩ =>
    match kind.bodyHeight? with
    | some h => hatHeight + h
    | none => statementHeight + Input.tallest inputs + Input.stackHeights inputs

def BlockKind.bodyHeight? : BlockKind → Option Nat
  | .hat body _ => some (Block.heightAll body)
  | .plain | .condition | .argument _ | .call _ _ | .prototype _ _ => none

def Block.heightAll : List Block → Nat
  | [] => 0
  | b :: bs => b.height + Block.heightAll bs

def Input.stackHeights : List (String × Input) → Nat
  | [] => 0
  | (_, i) :: is => i.stackHeight + Input.stackHeights is

end

namespace Layout

-- Puts the scripts one below the other, the first one at the height `y`. Only the starts of scripts
-- have places.
def arrangeFrom (y : Nat) : List Block → List Block
  | [] => []
  | b :: bs =>
    match b.kind with
    | .hat body _ =>
      { b with kind := .hat body (0, y) } :: arrangeFrom (y + b.height + gap) bs
    | _ => b :: arrangeFrom y bs

def arrange (blocks : List Block) : List Block :=
  arrangeFrom 0 blocks

end Layout

end BlockLang
