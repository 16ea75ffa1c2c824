import BlockLang.Block.Logic
import BlockLang.Proofs.Lookup

/-!
Properties that blocks have from their inputs. Negation, and what counts as true, keep all of them.

One such property is that all stacks are closed: what runs forever is the last block of its stack.
-/

namespace BlockLang

-- The opcodes of the blocks that negation and questions of truth are written with.
def Block.logicOpcodes : List String := [
  "operator_subtract", "operator_equals", "operator_not", "operator_and", "operator_or",
  "data_lengthoflist"]

-- A block has the property if its inputs have it and its opcode satisfies `O`, unless it is of a
-- special kind.
structure Input.Hereditary (O : String → Prop) (Q : Input → Prop) : Prop where
  literal : ∀ {text}, Q (.literal text)
  inputs  : ∀ {b}, Q (.block b) → ∀ i ∈ b.inputs, Q i.2
  refit   : ∀ {b is}, Q (.block b) → (∀ i ∈ is, Q i.2) → Q (.block { b with inputs := is })
  made    : ∀ {b}, O b.opcode → b.kind = .plain ∨ b.kind = .condition → (∀ i ∈ b.inputs, Q i.2) →
    Q (.block b)
  opcodes : ∀ opcode ∈ Block.logicOpcodes, O opcode

variable {O : String → Prop} {Q : Input → Prop} {b b' : Block} {i i' l r : Input}
  {is : List (String × Input)} {name opcode : String} {f : Field} {span : Span}

namespace Input.Hereditary

theorem input? (h : Hereditary O Q) (hb : Q (.block b)) (hi : b.input? name = some i) : Q i :=
  h.inputs hb _ (mem_of_lookup_eq_some hi)

theorem withInput (h : Hereditary O Q) (hb : Q (.block b)) (hi : Q i) :
    Q (.block (b.withInput name i)) :=
  h.refit hb (List.forall_mem_append.mpr ⟨h.inputs hb, List.forall_mem_singleton.mpr hi⟩)

theorem plain (h : Hereditary O Q) (ho : O opcode) : Q (.block (.plain opcode)) :=
  h.made ho (.inl rfl) nofun

theorem condition (h : Hereditary O Q) (ho : opcode ∈ Block.logicOpcodes) :
    Q (.block (.condition opcode)) :=
  h.made (h.opcodes _ ho) (.inr rfl) nofun

theorem eraseOperands (h : Hereditary O Q) (hb : Q (.block b)) : Q (.block b.eraseOperands) := by
  have he : b.eraseOperands = { b with inputs := b.eraseOperands.inputs } := rfl
  rw [he]
  exact h.refit hb fun i hm =>
    h.inputs hb i (List.mem_of_mem_eraseP (List.mem_of_mem_eraseP hm))

theorem swapped? (h : Hereditary O Q) (hb : Q (.block b)) (hs : b.swapped? = some b') :
    Q (.block b') := by
  unfold Block.swapped? at hs
  split at hs
  case h_2 => cases hs
  case h_1 l r hl hr =>
    cases hs
    have he := h.inputs (h.eraseOperands hb)
    exact h.refit hb (List.forall_mem_cons.mpr
      ⟨h.input? hb hr, List.forall_mem_cons.mpr ⟨h.input? hb hl, he⟩⟩)

end Input.Hereditary

mutual

theorem Input.Hereditary.negated? (h : Input.Hereditary O Q) :
    ∀ {i i' : Input}, i.negated? = some i' → Q i → Q i'
  | .literal text, i', hn, _ => by
    simp only [Input.negated?, Option.map_eq_some_iff] at hn
    have ⟨_, _, hi⟩ := hn
    exact hi ▸ h.literal
  | .block b, i', hn, hb => by
    simp only [Input.negated?, Option.map_eq_some_iff] at hn
    have ⟨_, hn, hi⟩ := hn
    exact hi ▸ Block.hereditary_negated? h hn hb
  | .var _, _, hn, _ | .list _, _, hn, _ | .stack _, _, hn, _ => by simp [Input.negated?] at hn

theorem Block.hereditary_negated? (h : Input.Hereditary O Q) : ∀ {b b' : Block},
    b.negated? = some b' → Q (.block b) → Q (.block b')
  | ⟨opcode, kind, inputs, fields, comment, span⟩, b', hn, hb => by
    simp only [Block.negated?] at hn
    split at hn
    case isTrue => exact h.swapped? hb hn
    split at hn
    case isFalse => cases hn
    split at hn
    case h_1 is hs =>
      cases hn
      exact h.refit hb (Input.Hereditary.negatedAt? h hs (h.inputs hb))
    case h_2 =>
      have ⟨is, hs, hb'⟩ := Option.map_eq_some_iff.mp hn
      exact hb' ▸ h.refit hb (Input.Hereditary.negatedAt? h hs (h.inputs hb))

theorem Input.Hereditary.negatedAt? (h : Input.Hereditary O Q) {name : String} :
    ∀ {is is' : List (String × Input)}, Input.negatedAt? name is = some is' →
      (∀ i ∈ is, Q i.2) → ∀ i ∈ is', Q i.2
  | [], _, hn, _ => by simp [Input.negatedAt?] at hn
  | (n, i) :: is, _, hn, hs => by
    have ⟨hi, his⟩ := List.forall_mem_cons.mp hs
    simp only [Input.negatedAt?] at hn
    split at hn
    case isTrue =>
      have ⟨_, hi', he⟩ := Option.map_eq_some_iff.mp hn
      exact he ▸ List.forall_mem_cons.mpr ⟨Input.Hereditary.negated? h hi' hi, his⟩
    case isFalse =>
      have ⟨_, his', he⟩ := Option.map_eq_some_iff.mp hn
      exact he ▸ List.forall_mem_cons.mpr ⟨hi, Input.Hereditary.negatedAt? h his' his⟩

end

namespace Input.Hereditary

theorem subtrahend (h : Hereditary O Q) (hi : Q i) : Q i.subtrahend := by
  cases i
  case block b =>
    rw [Input.subtrahend]
    split
    case isTrue => exact h.eraseOperands hi
    case isFalse => exact hi
  all_goals exact hi

theorem negate (h : Hereditary O Q) (hi : Q i) : Q i.negate.1 := by
  unfold Input.negate
  split
  case h_1 _ hn => exact h.negated? hn hi
  case h_2 =>
    have hb : Q (.block (.plain "operator_subtract")) := h.plain (h.opcodes _ (by decide))
    exact h.withInput (h.withInput hb h.literal) (h.subtrahend hi)

theorem inverse (h : Hereditary O Q) (hb : Q (.block b)) : Q (.block b.inverse) :=
  h.withInput (h.condition (by decide)) hb

theorem lengthOf (h : Hereditary O Q) : Q (.block (.lengthOf name)) :=
  h.made (h.opcodes "data_lengthoflist" (by decide)) (.inl rfl) nofun

theorem compared (h : Hereditary O Q) (hi : Q i) {opposite : Bool} :
    Q (.block (Block.ofTruth.compared i opposite)) := by
  have hc : Q (Block.counted i) := by
    cases i
    case list => exact h.lengthOf
    case literal => exact h.literal
    all_goals exact hi
  have hz : Q (.block (Block.equalsZero (Block.counted i))) :=
    h.withInput (h.withInput (h.condition (by decide)) h.literal) hc
  cases opposite
  case true => exact hz
  case false => exact h.inverse hz

theorem ofTruth (h : Hereditary O Q) (hi : Q i) {opposite : Bool} :
    Q (.block (Block.ofTruth i opposite)) := by
  unfold Block.ofTruth
  split
  case h_2 => exact h.compared hi
  case h_1 b =>
    split
    case isFalse => exact h.compared hi
    cases opposite
    case true => exact h.inverse hi
    case false => exact hi

theorem operand (h : Hereditary O Q) (hb : Q (.block b)) : Q (.block b.operand) := by
  unfold Block.operand
  split
  case h_1 _ hi => exact h.input? hb hi
  case h_2 _ _ hi => exact h.ofTruth (h.input? hb hi)
  case h_3 => exact hb

theorem not (h : Hereditary O Q) (hi : Q i) : Q i.not := by
  have ht : Q (.block (Block.ofTruth i false)) := h.ofTruth hi
  cases i
  case literal => exact h.literal
  all_goals
    simp only [Input.not]
    split
    · exact h.operand ht
    · exact h.inverse ht

theorem connect (h : Hereditary O Q) {both : Bool} (hb : Q (.block b)) (hb' : Q (.block b')) :
    Q (.block (Block.connect both b b')) :=
  h.withInput (h.withInput (h.condition (by cases both <;> decide)) hb) hb'

theorem logical (h : Hereditary O Q) {both : Bool} (hl : Q l) (hr : Q r) :
    Q (.block (Block.logical both l r)) := by
  have hl : Q (.block (Block.ofTruth l false)) := h.ofTruth hl
  have hr : Q (.block (Block.ofTruth r false)) := h.ofTruth hr
  unfold Block.logical
  dsimp only
  split
  case isTrue => exact h.inverse (h.connect (h.operand hl) (h.operand hr))
  case isFalse => exact h.connect hl hr

theorem ofPrototype (h : Hereditary O Q) {p : Prototype} (ho : O p.opcode) {args : List Input}
    (ha : ∀ i ∈ args, Q i) : Q (.block (.ofPrototype p args)) := by
  refine h.made ho (by unfold Block.ofPrototype; dsimp only; split <;> simp) fun i hi => ?_
  cases List.mem_append.mp hi
  case inl hi => exact ha _ (List.of_mem_zip hi).2
  case inr hi =>
    have ⟨_, _, he⟩ := List.mem_map.mp hi
    exact he ▸ h.literal

end Input.Hereditary

-- A block that runs forever is the last one of its stack.
def Block.Closes (bs : List Block) : Prop :=
  ∀ before b after, bs = before ++ b :: after → b.isForever → after = []

mutual

def Input.allStacks : Input → List (List Block)
  | .block b => b.allStacks
  | .stack bs => bs :: Block.stacksAll bs
  | .literal _ | .var _ | .list _ => []

-- The stacks of a block, at any depth.
def Block.allStacks : Block → List (List Block)
  | ⟨_, kind, inputs, _, _, _⟩ => Input.stacksAll inputs ++ kind.allStacks

def BlockKind.allStacks : BlockKind → List (List Block)
  | .hat body _ => body :: Block.stacksAll body
  | .plain | .condition | .argument _ | .call _ _ | .prototype _ _ => []

def Block.stacksAll : List Block → List (List Block)
  | [] => []
  | b :: bs => b.allStacks ++ Block.stacksAll bs

def Input.stacksAll : List (String × Input) → List (List Block)
  | [] => []
  | (_, i) :: is => i.allStacks ++ Input.stacksAll is

end

def Input.Closed (i : Input) : Prop :=
  ∀ bs ∈ i.allStacks, Block.Closes bs

def Block.Closed (b : Block) : Prop :=
  ∀ bs ∈ b.allStacks, Block.Closes bs

variable {bs bs' : List Block}

namespace Block

theorem closes_cons : Closes (b :: bs) ↔ (b.isForever → bs = []) ∧ Closes bs := by
  constructor
  case mp =>
    refine fun h => ⟨h [] b bs rfl, fun before b' after hs => ?_⟩
    exact h (b :: before) b' after (by simp [hs])
  case mpr =>
    rintro ⟨hb, h⟩ (_ | ⟨_, before⟩) b' after hs
    · obtain ⟨rfl, rfl⟩ := List.cons.inj hs
      exact hb
    · exact h before b' after (List.cons.inj hs).2

theorem closes_nil : Closes [] := by
  intro before b after hs
  simp at hs

theorem closes_singleton : Closes [b] :=
  closes_cons.mpr ⟨fun _ => rfl, closes_nil⟩

theorem misplaced?_eq_none_iff : misplaced? bs = none ↔ Closes bs := by
  induction bs
  case nil => simp [misplaced?, closes_nil]
  case cons b bs hi =>
    rw [misplaced?, closes_cons, ← hi]
    cases hf : b.isForever <;> cases bs <;> simp [misplaced?]

theorem stacked_eq_ok_iff : stacked bs = .ok bs' ↔ bs' = bs ∧ Closes bs := by
  rw [stacked, ← misplaced?_eq_none_iff]
  split
  case h_1 hn => simp [hn, eq_comm]
  case h_2 b hb =>
    rw [hb]
    split <;> simp

theorem stacked_eq_ok (h : stacked bs = .ok bs') : bs' = bs :=
  (stacked_eq_ok_iff.mp h).1

end Block

theorem Block.forall_mem_stacksAll :
    (∀ ss ∈ Block.stacksAll bs, Block.Closes ss) ↔ ∀ b ∈ bs, b.Closed := by
  induction bs
  case nil => simp [stacksAll]
  case cons hi => simp only [stacksAll, List.forall_mem_append, List.forall_mem_cons, hi, Closed]

theorem Input.forall_mem_stacksAll :
    (∀ ss ∈ Input.stacksAll is, Block.Closes ss) ↔ ∀ i ∈ is, i.2.Closed := by
  induction is
  case nil => simp [stacksAll]
  case cons hi => simp only [stacksAll, List.forall_mem_append, List.forall_mem_cons, hi, Closed]

theorem Block.closed_iff :
    b.Closed ↔ (∀ i ∈ b.inputs, i.2.Closed) ∧ ∀ ss ∈ b.kind.allStacks, Block.Closes ss := by
  rw [← Input.forall_mem_stacksAll, ← List.forall_mem_append]
  cases b
  rw [Closed, allStacks]

@[simp]
theorem Input.closed_block : (Input.block b).Closed ↔ b.Closed := by
  rw [Closed, allStacks, Block.Closed]

@[simp]
theorem Input.closed_stack :
    (Input.stack bs).Closed ↔ Block.Closes bs ∧ ∀ b ∈ bs, b.Closed := by
  rw [Closed, allStacks, List.forall_mem_cons, Block.forall_mem_stacksAll]

@[simp]
theorem Input.closed_literal {text : String} : (Input.literal text).Closed := by
  simp [Closed, allStacks]

@[simp]
theorem Input.closed_var : (Input.var name).Closed := by
  simp [Closed, allStacks]

theorem Input.hereditary_closed : Input.Hereditary (fun _ => True) Input.Closed where
  literal := closed_literal
  inputs hb := (Block.closed_iff.mp (closed_block.mp hb)).1
  refit hb hi := closed_block.mpr (Block.closed_iff.mpr
    ⟨hi, (Block.closed_iff.mp (closed_block.mp hb)).2⟩)
  made _ hk hi := closed_block.mpr (Block.closed_iff.mpr
    ⟨hi, by rcases hk with hk | hk <;> simp [hk, BlockKind.allStacks]⟩)
  opcodes _ _ := trivial

namespace Block

@[simp]
theorem closed_withInput : (b.withInput name i).Closed ↔ b.Closed ∧ i.Closed := by
  simp only [closed_iff, withInput, List.forall_mem_append, List.forall_mem_singleton]
  tauto

-- Only the inputs and the kind of a block matter.
@[simp]
theorem closed_withField : (b.withField name f).Closed ↔ b.Closed := by
  rw [closed_iff, closed_iff, withField]

@[simp]
theorem closed_writtenAt : (b.writtenAt span).Closed ↔ b.Closed := by
  rw [closed_iff, closed_iff, writtenAt]

@[simp]
theorem closed_setComment {comment : Option String} : { b with comment }.Closed ↔ b.Closed := by
  rw [closed_iff, closed_iff]

@[simp]
theorem closed_plain : (plain opcode).Closed :=
  Input.closed_block.mp (Input.hereditary_closed.plain trivial)

@[simp]
theorem closed_condition : (condition opcode).Closed :=
  Input.closed_block.mp (Input.hereditary_closed.made trivial (.inr rfl) nofun)

@[simp]
theorem closed_argument {text : String} {shadow : Bool} : (argument text shadow).Closed := by
  simp [closed_iff, argument, ofKind, withField, BlockKind.allStacks]

@[simp]
theorem closed_hat : (hat opcode bs).Closed ↔ Closes bs ∧ ∀ b ∈ bs, b.Closed := by
  simp [closed_iff, hat, ofKind, BlockKind.allStacks, forall_mem_stacksAll]

end Block

end BlockLang
