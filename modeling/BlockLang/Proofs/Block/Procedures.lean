import BlockLang.Block.Logic
import BlockLang.Graph.Record
import BlockLang.Proofs.Block.Parts
import BlockLang.Proofs.Block.Tidy

/-!
The blocks that a script is made of: ordinary ones, and those that call functions or define them.
Negation, and what counts as true, change only ordinary blocks, into ordinary blocks.
-/

namespace BlockLang

-- The opcodes of the blocks that tell about functions: calls, and the heads of definitions.
def isProcedureOpcode (opcode : String) : Bool :=
  opcode = "procedures_call" || opcode = "procedures_prototype"

def Block.isProcedure (b : Block) : Bool :=
  isProcedureOpcode b.opcode

-- Do ordinary blocks of some kind have an opcode? No menu answers yes or no.
def BlockKind.Suits (opcode : String) : BlockKind → Prop
  | .plain | .hat _ _ | .argument false => isProcedureOpcode opcode = false
  | .condition => isProcedureOpcode opcode = false ∧ opcode ≠ "sensing_of_object_menu"
  | .argument true | .call _ _ | .prototype _ _ => False

-- A block that has nothing to do with functions. It has no input of the name under which a
-- definition holds its head.
structure Block.Ordinary (b : Block) : Prop where
  kind  : b.kind.Suits b.opcode
  names : ∀ i ∈ b.inputs, i.1 ≠ "custom_block"

-- No menu stands in a stack.
def Input.MenuFree : Input → Prop
  | .stack bs => ∀ b ∈ bs, b.isMenu = false
  | .literal _ | .var _ | .list _ | .block _ => True

-- A block that is ordinary, or that tells about a function and satisfies `C`.
structure Block.Fits (C : Block → Prop) (b : Block) : Prop where
  ordinary : b.Ordinary ∨ b.isProcedure ∧ C b
  inputs   : ∀ i ∈ b.inputs, i.2.MenuFree

-- All blocks that tell about functions satisfy `C`, and all others are ordinary.
def Block.Procedures (C : Block → Prop) (b : Block) : Prop :=
  ∀ b' ∈ b.blocks, b'.Fits C

def Input.Procedures (C : Block → Prop) (i : Input) : Prop :=
  i.MenuFree ∧ ∀ b ∈ i.blocks, b.Fits C

variable {C : Block → Prop} {b b' : Block} {bs : List Block} {i i' l r : Input} {name : String}
  {is is' : List (String × Input)}

@[simp]
theorem Input.procedures_literal {text : String} : (Input.literal text).Procedures C :=
  ⟨trivial, nofun⟩

@[simp]
theorem Input.procedures_var : (Input.var name).Procedures C :=
  ⟨trivial, nofun⟩

@[simp]
theorem Input.procedures_list : (Input.list name).Procedures C :=
  ⟨trivial, nofun⟩

@[simp]
theorem Input.procedures_block : (Input.block b).Procedures C ↔ b.Procedures C := by
  simp [Input.Procedures, Input.MenuFree, Input.blocks, Block.Procedures]

theorem Block.procedures_blocksAll :
    (∀ b ∈ Block.blocksAll bs, b.Fits C) ↔ ∀ b ∈ bs, b.Procedures C :=
  Block.forall_mem_blocksAll

@[simp]
theorem Input.procedures_stack :
    (Input.stack bs).Procedures C ↔ ∀ b ∈ bs, b.isMenu = false ∧ b.Procedures C := by
  rw [Input.Procedures, Input.MenuFree, Input.blocks, Block.procedures_blocksAll, ← forall₂_and]

namespace Block

theorem procedures_iff : b.Procedures C ↔ (b.Ordinary ∨ b.isProcedure ∧ C b) ∧
    (∀ i ∈ b.inputs, i.2.Procedures C) ∧ ∀ b' ∈ b.kind.blocks, b'.Fits C := by
  have hf : b.Fits C ↔ (b.Ordinary ∨ b.isProcedure ∧ C b) ∧ ∀ i ∈ b.inputs, i.2.MenuFree :=
    ⟨fun ⟨ho, hi⟩ => ⟨ho, hi⟩, fun ⟨ho, hi⟩ => ⟨ho, hi⟩⟩
  simp only [Procedures, Input.Procedures, blocks_eq b, List.forall_mem_cons,
    List.forall_mem_append, Input.forall_mem_blocksAll, hf, forall_and, and_assoc]

theorem procedures_of_input? (h : b.Procedures C) (hi : b.input? name = some i) :
    i.Procedures C :=
  (procedures_iff.mp h).2.1 _ (mem_of_lookup_eq_some hi)

theorem isProcedure_of_ordinary (h : b.Ordinary) : b.isProcedure = false := by
  have hk := h.kind
  unfold BlockKind.Suits at hk
  split at hk
  case h_1 | h_2 | h_3 => exact hk
  case h_4 => exact hk.1
  all_goals contradiction

theorem Fits.of_isProcedure (h : b.Fits C) (hb : b.isProcedure) : C b := by
  cases h.ordinary
  case inl ho => exact absurd hb (by simp [isProcedure_of_ordinary ho])
  case inr hp => exact hp.2

theorem Procedures.ordinary (h : b.Procedures C) (hb : b.isProcedure = false) : b.Ordinary :=
  (procedures_iff.mp h).1.resolve_right fun hp => absurd hp.1 (by simp [hb])

section Parts

variable {opcode key : String} {f : Field} {kind : BlockKind} {span : Span}
  {comment : Option String}

@[simp]
theorem ordinary_plain : (plain opcode).Ordinary ↔ isProcedureOpcode opcode = false :=
  ⟨fun h => h.kind, fun h => ⟨h, by simp [plain]⟩⟩

@[simp]
theorem ordinary_condition : (condition opcode).Ordinary ↔
    isProcedureOpcode opcode = false ∧ opcode ≠ "sensing_of_object_menu" :=
  ⟨fun h => h.kind, fun h => ⟨h, by simp [condition]⟩⟩

@[simp]
theorem ordinary_hat {body : List Block} :
    (hat opcode body).Ordinary ↔ isProcedureOpcode opcode = false :=
  ⟨fun h => h.kind, fun h => ⟨h, by simp [hat]⟩⟩

@[simp]
theorem ordinary_withInput :
    (b.withInput name i).Ordinary ↔ b.Ordinary ∧ name ≠ "custom_block" := by
  refine ⟨fun h => ?_, fun ⟨h, hn⟩ => ⟨h.kind, ?_⟩⟩
  · have ⟨hn, hi⟩ := List.forall_mem_append.mp h.names
    exact ⟨⟨h.kind, hn⟩, hi _ (List.mem_singleton_self _)⟩
  · exact List.forall_mem_append.mpr ⟨h.names, fun _ hi => List.mem_singleton.mp hi ▸ hn⟩

theorem ordinary_congr (ho : b'.opcode = b.opcode) (hi : b'.inputs = b.inputs)
    (hk : b'.kind = b.kind) (h : b.Ordinary) : b'.Ordinary where
  kind  := by rw [ho, hk]; exact h.kind
  names := hi ▸ h.names

@[simp]
theorem ordinary_withField : (b.withField key f).Ordinary ↔ b.Ordinary :=
  ⟨ordinary_congr rfl rfl rfl, ordinary_congr rfl rfl rfl⟩

@[simp]
theorem ordinary_writtenAt : (b.writtenAt span).Ordinary ↔ b.Ordinary :=
  ⟨ordinary_congr rfl rfl rfl, ordinary_congr rfl rfl rfl⟩

@[simp]
theorem isMenu_plain : (plain opcode).isMenu = decide (opcode = "sensing_of_object_menu") := rfl

@[simp]
theorem isMenu_withInput : (b.withInput name i).isMenu = b.isMenu := rfl

@[simp]
theorem isMenu_withField : (b.withField key f).isMenu = b.isMenu := rfl

@[simp]
theorem isMenu_writtenAt : (b.writtenAt span).isMenu = b.isMenu := rfl

@[simp]
theorem isMenu_setComment : { b with comment }.isMenu = b.isMenu := rfl

-- An ordinary block may be given other inputs.
theorem procedures_setInputs (hb : b.Ordinary) (h : b.Procedures C)
    (hn : ∀ i ∈ is, i.1 ≠ "custom_block") (hi : ∀ i ∈ is, i.2.Procedures C) :
    { b with inputs := is }.Procedures C :=
  have ⟨_, _, hk⟩ := procedures_iff.mp h
  procedures_iff.mpr ⟨.inl ⟨hb.kind, hn⟩, hi, hk⟩

theorem procedures_congr (hb : b.Ordinary) (ho : b'.opcode = b.opcode)
    (hi : b'.inputs = b.inputs) (hk : b'.kind = b.kind) : b'.Procedures C ↔ b.Procedures C := by
  have hb' : b'.Ordinary := ordinary_congr ho hi hk hb
  simp only [procedures_iff, hb, hb', true_or, hi, hk]

@[simp]
theorem procedures_withInput (hb : b.Ordinary) (hn : name ≠ "custom_block") :
    (b.withInput name i).Procedures C ↔ b.Procedures C ∧ i.Procedures C := by
  have hb' : (b.withInput name i).Ordinary := ordinary_withInput.mpr ⟨hb, hn⟩
  simp only [procedures_iff, hb, hb', true_or, inputs_withInput, kind_withInput,
    List.forall_mem_append, List.forall_mem_singleton]
  tauto

@[simp]
theorem procedures_withField (hb : b.Ordinary) :
    (b.withField key f).Procedures C ↔ b.Procedures C :=
  procedures_congr hb rfl rfl rfl

@[simp]
theorem procedures_writtenAt (hb : b.Ordinary) :
    (b.writtenAt span).Procedures C ↔ b.Procedures C :=
  procedures_congr hb rfl rfl rfl

@[simp]
theorem procedures_plain (ho : isProcedureOpcode opcode = false) :
    (plain opcode).Procedures C :=
  procedures_iff.mpr ⟨.inl (ordinary_plain.mpr ho), nofun, nofun⟩

@[simp]
theorem procedures_condition (ho : isProcedureOpcode opcode = false)
    (hm : opcode ≠ "sensing_of_object_menu") : (condition opcode).Procedures C :=
  procedures_iff.mpr ⟨.inl (ordinary_condition.mpr ⟨ho, hm⟩), nofun, nofun⟩

end Parts

theorem isProcedure_of_isDifference (h : b.isDifference) : b.isProcedure = false := by
  have h : b.opcode = "operator_subtract" := by simpa [isDifference] using h
  simp [isProcedure, isProcedureOpcode, h]

theorem isProcedure_of_isProduct (h : b.isProduct) : b.isProcedure = false := by
  have h : b.opcode = "operator_multiply" ∨ b.opcode = "operator_divide" := by
    simpa [isProduct] using h
  cases h <;> simp [isProcedure, isProcedureOpcode, *]

theorem names_eraseOperands (hb : b.Ordinary) :
    ∀ i ∈ b.eraseOperands.inputs, i.1 ≠ "custom_block" :=
  fun i hm => hb.names i (List.mem_of_mem_eraseP (List.mem_of_mem_eraseP hm))

theorem procedures_eraseOperands (hb : b.Ordinary) (h : b.Procedures C) :
    b.eraseOperands.Procedures C := by
  have hi := (procedures_iff.mp h).2.1
  have he : b.eraseOperands = { b with inputs := b.eraseOperands.inputs } := rfl
  rw [he]
  exact procedures_setInputs hb h (names_eraseOperands hb) fun i hm =>
    hi i (List.mem_of_mem_eraseP (List.mem_of_mem_eraseP hm))

theorem procedures_of_swapped? (hb : b.Ordinary) (hs : b.swapped? = some b')
    (h : b.Procedures C) : b'.Procedures C := by
  unfold swapped? at hs
  split at hs
  case h_2 => cases hs
  case h_1 l r hl hr =>
    cases hs
    have he := (procedures_iff.mp (procedures_eraseOperands hb h)).2.1
    refine procedures_setInputs hb h ?_ ?_
    · simpa [left, right] using names_eraseOperands hb
    · simpa [procedures_of_input? h hl, procedures_of_input? h hr] using he

end Block

theorem Input.names_of_negatedAt? {key : String} (hn : Input.negatedAt? name is = some is')
    (h : ∀ i ∈ is, i.1 ≠ key) : ∀ i ∈ is', i.1 ≠ key := by
  induction is generalizing is'
  case nil => cases hn
  case cons i is hi =>
    have ⟨hk, his⟩ := List.forall_mem_cons.mp h
    simp only [Input.negatedAt?] at hn
    split at hn
    · obtain ⟨_, _, rfl⟩ := Option.map_eq_some_iff.mp hn
      exact List.forall_mem_cons.mpr ⟨hk, his⟩
    · obtain ⟨_, his', rfl⟩ := Option.map_eq_some_iff.mp hn
      exact List.forall_mem_cons.mpr ⟨hk, hi his' his⟩

-- Only differences and products change, which do not tell about functions.
mutual

theorem Input.procedures_of_negated? : ∀ {i i' : Input}, i.negated? = some i' →
    i.Procedures C → i'.Procedures C
  | .literal text, i', hn, _ => by
    simp only [Input.negated?, Option.map_eq_some_iff] at hn
    have ⟨_, _, hi⟩ := hn
    simp [← hi]
  | .block b, i', hn, h => by
    simp only [Input.negated?, Option.map_eq_some_iff] at hn
    have ⟨_, hb, hi⟩ := hn
    have h := Input.procedures_block.mp h
    exact hi ▸ Input.procedures_block.mpr (Block.procedures_of_negated? hb h)
  | .var _, _, hn, _ | .list _, _, hn, _ | .stack _, _, hn, _ => by simp [Input.negated?] at hn

theorem Block.procedures_of_negated? : ∀ {b b' : Block}, b.negated? = some b' →
    b.Procedures C → b'.Procedures C
  | ⟨opcode, kind, inputs, fields, comment, span⟩, b', hn, h => by
    have hi := (Block.procedures_iff.mp h).2.1
    simp only [Block.negated?] at hn
    split at hn
    case isTrue hd =>
      have hb := h.ordinary (Block.isProcedure_of_isDifference hd)
      exact Block.procedures_of_swapped? hb hn h
    case isFalse =>
      split at hn
      case isTrue hp =>
        have hb := h.ordinary (Block.isProcedure_of_isProduct hp)
        split at hn
        case h_1 _ hl =>
          cases hn
          have hns := Input.names_of_negatedAt? hl hb.names
          exact Block.procedures_setInputs hb h hns (Input.procedures_of_negatedAt? hl hi)
        case h_2 _ =>
          have ⟨_, hr, hb'⟩ := Option.map_eq_some_iff.mp hn
          have hns := Input.names_of_negatedAt? hr hb.names
          exact hb' ▸ Block.procedures_setInputs hb h hns (Input.procedures_of_negatedAt? hr hi)
      case isFalse => cases hn

theorem Input.procedures_of_negatedAt? {name : String} : ∀ {is is' : List (String × Input)},
    Input.negatedAt? name is = some is' → (∀ i ∈ is, i.2.Procedures C) →
      ∀ i ∈ is', i.2.Procedures C
  | [], _, hn, _ => by simp [Input.negatedAt?] at hn
  | (n, i) :: is, _, hn, h => by
    have ⟨hi, his⟩ := List.forall_mem_cons.mp h
    simp only [Input.negatedAt?] at hn
    split at hn
    · have ⟨_, hi', he⟩ := Option.map_eq_some_iff.mp hn
      exact he ▸ List.forall_mem_cons.mpr ⟨Input.procedures_of_negated? hi' hi, his⟩
    · have ⟨_, his', he⟩ := Option.map_eq_some_iff.mp hn
      exact he ▸ List.forall_mem_cons.mpr ⟨hi, Input.procedures_of_negatedAt? his' his⟩

end

namespace Input.Procedures

theorem subtrahend (h : i.Procedures C) : i.subtrahend.Procedures C := by
  cases i
  case block b =>
    simp only [Input.subtrahend, procedures_block] at h ⊢
    split
    case isTrue hd =>
      have hb := h.ordinary (Block.isProcedure_of_isDifference hd)
      exact Block.procedures_eraseOperands hb h
    case isFalse => exact h
  all_goals exact h

theorem negate (h : i.Procedures C) : i.negate.1.Procedures C := by
  unfold Input.negate
  split
  case h_1 _ hn => exact Input.procedures_of_negated? hn h
  case h_2 _ => simp [Block.minus, Block.left, Block.right, isProcedureOpcode, h.subtrahend]

end Input.Procedures

namespace Block

@[simp]
theorem procedures_inverse : b.inverse.Procedures C ↔ b.Procedures C := by
  simp [inverse, isProcedureOpcode]

@[simp]
theorem procedures_lengthOf : (lengthOf name).Procedures C := by
  simp [lengthOf, isProcedureOpcode]

theorem procedures_counted (h : i.Procedures C) : (counted i).Procedures C := by
  cases i <;> simp_all [counted]

theorem procedures_compared {opposite : Bool} (h : i.Procedures C) :
    (ofTruth.compared i opposite).Procedures C := by
  cases opposite <;>
    simp [ofTruth.compared, equalsZero, isProcedureOpcode, procedures_counted h]

theorem procedures_ofTruth (opposite : Bool) (h : i.Procedures C) :
    (ofTruth i opposite).Procedures C := by
  have hc : (ofTruth.compared i opposite).Procedures C := procedures_compared h
  cases i
  case block b =>
    have hb := Input.procedures_block.mp h
    simp only [ofTruth]
    split
    · cases opposite <;> simp [hb]
    · exact hc
  all_goals exact hc

theorem Procedures.operand (h : b.Procedures C) : b.operand.Procedures C := by
  unfold Block.operand
  split
  case h_1 _ hi => exact Input.procedures_block.mp (procedures_of_input? h hi)
  case h_2 _ _ hi => exact procedures_ofTruth _ (procedures_of_input? h hi)
  case h_3 _ => exact h

theorem procedures_connect {both : Bool} (hb : b.Procedures C) (hb' : b'.Procedures C) :
    (connect both b b').Procedures C := by
  cases both <;> simp [connect, isProcedureOpcode, hb, hb']

theorem procedures_logical {both : Bool} (hl : l.Procedures C) (hr : r.Procedures C) :
    (logical both l r).Procedures C := by
  have hl : (ofTruth l false).Procedures C := procedures_ofTruth _ hl
  have hr : (ofTruth r false).Procedures C := procedures_ofTruth _ hr
  simp only [logical]
  split
  · exact procedures_inverse.mpr (procedures_connect hl.operand hr.operand)
  · exact procedures_connect hl hr

end Block

theorem Input.Procedures.not (h : i.Procedures C) : i.not.Procedures C := by
  have ht : (Block.ofTruth i false).Procedures C := Block.procedures_ofTruth _ h
  cases i
  case literal text => simp [Input.not]
  all_goals
    simp only [Input.not]
    split
    · exact procedures_block.mpr ht.operand
    · exact procedures_block.mpr (Block.procedures_inverse.mpr ht)

end BlockLang
