import BlockLang.Proofs.Sprite.Basic
import BlockLang.Proofs.Sprite.Procedures.Basic

/-!
Which of the blocks in the inputs of a script are shadows.
-/

namespace BlockLang

namespace Input

-- The first of the blocks that an input holds.
def first? : Input → Option Block
  | block b => some b
  | stack (b :: _) => some b
  | stack [] | literal _ | var _ | list _ => none

-- Does an input hold a block that answers yes or no, or a stack?
def isShaped : Input → Bool
  | block b => b.isCondition
  | stack _ => true
  | literal _ | var _ | list _ => false

end Input

namespace Block

-- Is an input of some name the argument of a call for a parameter that has the name under which
-- definitions hold their heads?
def passesHead (b : Block) (name : String) : Bool :=
  b.opcode = "procedures_call" && name = "custom_block"

-- What an input holds is put into it as a shadow if it is one, but also if it is the argument for
-- a parameter of that name.
structure MarksInput (b : Block) (name : String) (i : Input) (first : Block) : Prop where
  shaped : i.isShaped → first.isShadow = false
  shadow : i.isShaped = false →
    (first.isMenu || name = "custom_block" || first.isShadowArgument) =
      (first.isShadow || b.passesHead name)

-- All inputs of a block that hold blocks.
def Marks (b : Block) : Prop :=
  ∀ name i first, (name, i) ∈ b.inputs → i.first? = some first → b.MarksInput name i first

variable {s : Symbols} {C : Block → Prop} {b b' c : Block} {i : Input} {name : String}
  {body : List Block}

-- A block is a shadow only as a menu, or in the head of a definition.
theorem Ordinary.isShadow (h : b.Ordinary) : b.isShadow = b.isMenu ∧ b.isShadowArgument = false ∧
    (b.isCondition → b.isMenu = false) := by
  have hk := h.kind
  unfold BlockKind.Suits at hk
  split at hk
  case h_4 hc => simp [Block.isShadow, Block.isShadowArgument, Block.isMenu, hc, hk.2]
  case h_1 hc | h_2 hc | h_3 hc =>
    simp [Block.isShadow, Block.isShadowArgument, Block.isCondition, hc]
  all_goals contradiction

theorem Tells.kind {f : Function} (h : b.Tells f false) : b.kind = .call f.code f.warp := by
  have hm := h.mutation
  unfold Block.mutation? at hm
  split at hm
  case h_1 code warp hk =>
    have ⟨hc, _, hw⟩ : code = f.code ∧ b.inputs.map (·.1) = f.params.map (·.text) ∧
        warp = f.warp := by simpa [Function.mutation] using hm
    rw [hk, hc, hw]
  case h_2 => simp [Function.mutation] at hm
  case h_3 => contradiction

theorem isShadow_of_calls (h : s.Calls b) : b.isShadow = b.isMenu ∧ b.isShadowArgument = false ∧
    (b.isCondition → b.isMenu = false) := by
  have ⟨_, _, _, ht⟩ := h
  simp [Block.isShadow, Block.isShadowArgument, Block.isCondition, ht.kind]

theorem Fits.isShadow (h : b.Fits s.Calls) : b.isShadow = b.isMenu ∧ b.isShadowArgument = false ∧
    (b.isCondition → b.isMenu = false) :=
  h.ordinary.elim Ordinary.isShadow fun hc => isShadow_of_calls hc.2

-- Only the arguments of calls can have the name under which definitions hold their heads.
theorem Fits.passesHead (h : b.Fits s.Calls) (hi : (name, i) ∈ b.inputs) :
    b.passesHead name = decide (name = "custom_block") := by
  unfold Block.passesHead
  cases h.ordinary
  case inl ho => simp [ho.names _ hi]
  case inr hc =>
    have ⟨_, _, _, ht⟩ := hc.2
    simp [ht.opcode]

theorem Procedures.of_mem (h : b.Procedures C) (hb : b' ∈ b.blocks) : b'.Procedures C :=
  fun c hc => h c (b.blocks_subset b' hb hc)

theorem Procedures.marks (h : b.Procedures s.Calls) : b.Marks := by
  have hb : b.Fits s.Calls := h b self_mem_blocks
  intro name i first hm hf
  have hp := hb.passesHead hm
  have hi := (procedures_iff.mp h).2.1 _ hm
  cases i
  case block c =>
    obtain rfl := Option.some.inj hf
    have ⟨hs, ha, hc⟩ := (Input.procedures_block.mp hi c self_mem_blocks).isShadow
    exact ⟨fun h => hs.trans (hc h), fun _ => by simp [hs, ha, hp]⟩
  case stack bs =>
    cases bs
    case nil => cases hf
    case cons c cs =>
      obtain rfl := Option.some.inj hf
      have ⟨hm, hc⟩ := Input.procedures_stack.mp hi c List.mem_cons_self
      exact ⟨fun _ => (hc c self_mem_blocks).isShadow.1.trans hm, nofun⟩
  all_goals cases hf

theorem marks_of_procedures (h : b.Procedures s.Calls) : ∀ b' ∈ b.blocks, b'.Marks :=
  fun _ hb => (h.of_mem hb).marks

theorem marks_argument {text : String} {shadow : Bool} : (argument text shadow).Marks := by
  intro name i first hm
  simp [argument] at hm

theorem marks_head {code : String} {warp : Bool} {params : List String} :
    (head code warp params).Marks := by
  intro name i first hm hf
  obtain ⟨p, _, he⟩ := List.mem_map.mp hm
  obtain ⟨rfl, rfl⟩ := Prod.mk.inj he
  obtain rfl := Option.some.inj hf
  refine ⟨nofun, fun _ => ?_⟩
  simp [isShadow, isShadowArgument, argument, withField, ofKind]

-- The head of a definition is a shadow, and so are the parameters in it.
theorem marks_definition {code : String} {warp : Bool} {params : List String}
    (h : ∀ b ∈ body, b.Procedures s.Calls) :
    ∀ b ∈ (definition code warp params body).blocks, b.Marks := by
  rw [blocks_definition, blocks_head]
  refine List.forall_mem_cons.mpr ⟨?definition, List.forall_mem_append.mpr ⟨?head, ?body⟩⟩
  case definition =>
    intro name i first hm hf
    obtain ⟨rfl, rfl⟩ := Prod.mk.inj (List.mem_singleton.mp hm)
    obtain rfl := Option.some.inj hf
    exact ⟨nofun, fun _ => by simp [isShadow, ofKind]⟩
  case head =>
    refine List.forall_mem_cons.mpr ⟨marks_head, fun b hb => ?_⟩
    obtain ⟨_, _, rfl⟩ := List.mem_map.mp hb
    exact marks_argument
  case body =>
    exact fun b hb => (Block.forall_mem_blocksAll.mpr fun b hb => marks_of_procedures (h b hb)) b hb

theorem Marks.congr (h : b.Marks) (ho : b'.opcode = b.opcode) (hi : b'.inputs = b.inputs) :
    b'.Marks := by
  intro name i first hm hf
  have ⟨hs, hn⟩ := h name i first (hi ▸ hm) hf
  exact ⟨hs, by rw [passesHead, ho]; exact hn⟩

-- Only the first block of a script is changed.
theorem forall_marks_congr (h : ∀ c ∈ b.blocks, c.Marks) (ho : b'.opcode = b.opcode)
    (hi : b'.inputs = b.inputs) (hk : b'.kind.blocks = b.kind.blocks) :
    ∀ c ∈ b'.blocks, c.Marks := by
  rw [blocks_eq] at h ⊢
  have ⟨hb, hs⟩ := List.forall_mem_cons.mp h
  exact List.forall_mem_cons.mpr ⟨hb.congr ho hi, hi ▸ hk ▸ hs⟩

end Block

namespace Sprite

variable {vocabulary : Vocabulary} {s : Symbols} {d : Decl} {b : Block}

theorem Script.marks (h : Script vocabulary s d b) (hv : vocabulary.Ordinary) :
    ∀ c ∈ b.blocks, c.Marks := by
  cases h
  case function hb =>
    exact Block.forall_marks_congr (Block.marks_definition (Stmt.calls_stack hb hv)) rfl rfl rfl
  case event hb he =>
    have hc := Event.calls_hat he (Stmt.calls_stack hb hv) hv
    exact Block.forall_marks_congr (Block.marks_of_procedures hc) rfl rfl rfl

end Sprite

theorem Layout.Placed.marks {b b' : Block} (h : Placed b b') (hb : ∀ c ∈ b.blocks, c.Marks) :
    ∀ c ∈ b'.blocks, c.Marks := by
  cases h
  case hat hk => exact Block.forall_marks_congr hb rfl rfl (by rw [hk]; rfl)
  case other => exact hb

end BlockLang
