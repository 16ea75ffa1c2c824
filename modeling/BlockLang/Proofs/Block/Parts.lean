import BlockLang.Block.Basic
import BlockLang.Proofs.Lookup

/-!
The blocks that a block is made of.
-/

namespace BlockLang

mutual

def Input.blocks : Input → List Block
  | .block b => b.blocks
  | .stack bs => Block.blocksAll bs
  | .literal _ | .var _ | .list _ => []

-- A block and all blocks in it, those of its inputs before those of its body.
def Block.blocks : Block → List Block
  | ⟨opcode, kind, inputs, fields, comment, span⟩ =>
    ⟨opcode, kind, inputs, fields, comment, span⟩ :: (Input.blocksAll inputs ++ kind.blocks)

def BlockKind.blocks : BlockKind → List Block
  | .hat body _ => Block.blocksAll body
  | .plain | .condition | .argument _ | .call _ _ | .prototype _ _ => []

def Block.blocksAll : List Block → List Block
  | [] => []
  | b :: bs => b.blocks ++ Block.blocksAll bs

def Input.blocksAll : List (String × Input) → List Block
  | [] => []
  | (_, i) :: is => i.blocks ++ Input.blocksAll is

end

variable {b b' : Block} {bs : List Block} {i : Input} {is : List (String × Input)} {name : String}

theorem Block.blocks_eq (b : Block) :
    b.blocks = b :: (Input.blocksAll b.inputs ++ b.kind.blocks) := by
  cases b
  rw [Block.blocks]

theorem Block.forall_mem_blocksAll {P : Block → Prop} :
    (∀ b ∈ Block.blocksAll bs, P b) ↔ ∀ b ∈ bs, ∀ b' ∈ b.blocks, P b' := by
  induction bs
  case nil => simp [Block.blocksAll]
  case cons hi => simp only [Block.blocksAll, List.forall_mem_append, List.forall_mem_cons, hi]

theorem Input.forall_mem_blocksAll {P : Block → Prop} :
    (∀ b ∈ Input.blocksAll is, P b) ↔ ∀ i ∈ is, ∀ b ∈ i.2.blocks, P b := by
  induction is
  case nil => simp [Input.blocksAll]
  case cons hi => simp only [Input.blocksAll, List.forall_mem_append, List.forall_mem_cons, hi]

theorem Block.self_mem_blocks : b ∈ b.blocks := by
  simp [Block.blocks_eq]

-- What is in an input of a block is in the block.
theorem Block.blocks_subset_of_mem (h : (name, i) ∈ b.inputs) : i.blocks ⊆ b.blocks := by
  have hs : i.blocks ⊆ Input.blocksAll b.inputs :=
    Input.forall_mem_blocksAll.mp (fun _ hm => hm) _ h
  rw [Block.blocks_eq]
  exact fun _ hm => List.mem_cons_of_mem _ (List.mem_append_left _ (hs hm))

theorem Block.blocks_subset_of_input? (h : b.input? name = some i) : i.blocks ⊆ b.blocks :=
  blocks_subset_of_mem (mem_of_lookup_eq_some h)

-- The blocks of a part are among those of the whole.
mutual

theorem Input.blocks_subset : ∀ (i : Input), ∀ b ∈ i.blocks, b.blocks ⊆ i.blocks
  | .literal _ | .var _ | .list _ => by simp [Input.blocks]
  | .block b => by
    rw [Input.blocks]
    exact Block.blocks_subset b
  | .stack bs => by
    rw [Input.blocks]
    exact Block.blocksAll_subset bs

theorem Block.blocks_subset : ∀ (b : Block), ∀ b' ∈ b.blocks, b'.blocks ⊆ b.blocks
  | ⟨opcode, kind, inputs, fields, comment, span⟩ => by
    have hi := Input.blocksAll_subset inputs
    have hk := BlockKind.blocks_subset kind
    rw [Block.blocks]
    refine List.forall_mem_cons.mpr ⟨by rw [Block.blocks]; exact fun _ => id, ?_⟩
    refine List.forall_mem_append.mpr ⟨fun b hb => ?_, fun b hb => ?_⟩
    · exact fun b' hb' => List.mem_cons_of_mem _ (List.mem_append_left _ (hi b hb hb'))
    · exact fun b' hb' => List.mem_cons_of_mem _ (List.mem_append_right _ (hk b hb hb'))

theorem BlockKind.blocks_subset : ∀ (kind : BlockKind), ∀ b ∈ kind.blocks, b.blocks ⊆ kind.blocks
  | .hat body _ => by
    rw [BlockKind.blocks]
    exact Block.blocksAll_subset body
  | .plain | .condition | .argument _ | .call _ _ | .prototype _ _ => by simp [BlockKind.blocks]

theorem Block.blocksAll_subset : ∀ (bs : List Block),
    ∀ b ∈ Block.blocksAll bs, b.blocks ⊆ Block.blocksAll bs
  | [] => by simp [Block.blocksAll]
  | b :: bs => by
    rw [Block.blocksAll]
    refine List.forall_mem_append.mpr ⟨fun b' hb => ?_, fun b' hb => ?_⟩
    · exact List.subset_append_of_subset_left _ (Block.blocks_subset b b' hb)
    · exact List.subset_append_of_subset_right _ (Block.blocksAll_subset bs b' hb)

theorem Input.blocksAll_subset : ∀ (is : List (String × Input)),
    ∀ b ∈ Input.blocksAll is, b.blocks ⊆ Input.blocksAll is
  | [] => by simp [Input.blocksAll]
  | (_, i) :: is => by
    rw [Input.blocksAll]
    refine List.forall_mem_append.mpr ⟨fun b hb => ?_, fun b hb => ?_⟩
    · exact List.subset_append_of_subset_left _ (Input.blocks_subset i b hb)
    · exact List.subset_append_of_subset_right _ (Input.blocksAll_subset is b hb)

end

-- A count is the number of these blocks.
mutual

theorem Input.count_eq_length : ∀ (i : Input), i.count = i.blocks.length
  | .literal _ | .var _ | .list _ => rfl
  | .block b => by
    rw [Input.count, Input.blocks]
    exact Block.count_eq_length b
  | .stack bs => by
    rw [Input.count, Input.blocks]
    exact Block.countAll_eq_length bs

theorem Block.count_eq_length : ∀ (b : Block), b.count = b.blocks.length
  | ⟨_, kind, inputs, _, _, _⟩ => by
    rw [Block.count, Block.blocks, List.length_cons, List.length_append,
      Input.countAll_eq_length inputs, BlockKind.count_eq_length kind]
    omega

theorem BlockKind.count_eq_length : ∀ (kind : BlockKind), kind.count = kind.blocks.length
  | .hat body _ => by
    rw [BlockKind.count, BlockKind.blocks]
    exact Block.countAll_eq_length body
  | .plain | .condition | .argument _ | .call _ _ | .prototype _ _ => rfl

theorem Block.countAll_eq_length : ∀ (bs : List Block),
    Block.countAll bs = (Block.blocksAll bs).length
  | [] => rfl
  | b :: bs => by
    rw [Block.countAll, Block.blocksAll, List.length_append, Block.count_eq_length b,
      Block.countAll_eq_length bs]

theorem Input.countAll_eq_length : ∀ (is : List (String × Input)),
    Input.countAll is = (Input.blocksAll is).length
  | [] => rfl
  | (_, i) :: is => by
    rw [Input.countAll, Input.blocksAll, List.length_append, Input.count_eq_length i,
      Input.countAll_eq_length is]

end

end BlockLang
