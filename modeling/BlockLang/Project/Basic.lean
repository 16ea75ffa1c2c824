import BlockLang.Sprite.Basic

/-!
Projects: a stage and its sprites.
-/

namespace BlockLang

structure Project where
  stage : Sprite
  sprites : List Sprite

mutual

def Input.anyOpcode (p : String → Bool) : Input → Bool
  | .block b => b.anyOpcode p
  | .stack bs => Block.anyOpcodes p bs
  | .literal _ | .var _ | .list _ => false

def Block.anyOpcode (p : String → Bool) : Block → Bool
  | ⟨opcode, kind, inputs, _, _, _⟩ =>
    p opcode || Input.anyOpcodes p inputs || kind.anyOpcode p

def BlockKind.anyOpcode (p : String → Bool) : BlockKind → Bool
  | .hat body _ => Block.anyOpcodes p body
  | .plain | .condition | .argument _ | .call _ _ | .prototype _ _ => false

def Block.anyOpcodes (p : String → Bool) : List Block → Bool
  | [] => false
  | b :: bs => b.anyOpcode p || Block.anyOpcodes p bs

def Input.anyOpcodes (p : String → Bool) : List (String × Input) → Bool
  | [] => false
  | (_, i) :: is => i.anyOpcode p || Input.anyOpcodes p is

end

def isPenOpcode (opcode : String) : Bool :=
  "pen_".toList.isPrefixOf opcode.toList

namespace Project

def targets (p : Project) : List Sprite :=
  p.stage :: p.sprites

def usesPen (p : Project) : Bool :=
  p.targets.any fun s => Block.anyOpcodes isPenOpcode s.blocks

def message? (b : Block) : Option String :=
  if b.opcode = "event_whenbroadcastreceived" then
    match b.field? "BROADCAST_OPTION" with
    | some (.var message) | some (.literal message) => some message
    | _ => none
  else none

def messages (p : Project) : List String :=
  p.targets.flatMap fun s => s.blocks.filterMap message?

end Project

end BlockLang
