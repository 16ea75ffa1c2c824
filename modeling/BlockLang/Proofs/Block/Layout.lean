import BlockLang.Block.Layout
import BlockLang.Graph.Record
import BlockLang.Proofs.Block.Parts
import BlockLang.Proofs.Except

/-!
Scripts that are put on the canvas do not overlap, as each has at least the height that its
statements take up.
-/

namespace BlockLang

mutual

def Input.statements : Input → List Block
  | .block b => b.statements
  | .stack bs => Block.statementsAll bs
  | .literal _ | .var _ | .list _ => []

-- The blocks that stand in a stack within a block: in its body, in an input, and in those of these.
def Block.statements : Block → List Block
  | ⟨_, kind, inputs, _, _, _⟩ => kind.statements ++ Input.statementsAll inputs

def BlockKind.statements : BlockKind → List Block
  | .hat body _ => Block.statementsAll body
  | .plain | .condition | .argument _ | .call _ _ | .prototype _ _ => []

def Block.statementsAll : List Block → List Block
  | [] => []
  | b :: bs => b :: (b.statements ++ Block.statementsAll bs)

def Input.statementsAll : List (String × Input) → List Block
  | [] => []
  | (_, i) :: is => i.statements ++ Input.statementsAll is

end

namespace Block

variable {b b' : Block} {bs body : List Block} {place : Nat × Nat}

theorem place?_of_not_hat (h : ∀ body p, b.kind ≠ .hat body p) : b.place? = none := by
  unfold place?
  split
  case h_1 hk => exact absurd hk (h _ _)
  case h_2 => rfl

def Stackless (b : Block) : Prop :=
  ∀ name bs, (name, .stack bs) ∉ b.inputs

-- A block within a script.
structure Inner (b : Block) : Prop where
  notHat    : b.isHat = false
  reporters : ∀ name r, (name, .block r) ∈ b.inputs → r.Stackless

theorem height_hat (h : b.kind = .hat body place) :
    b.height = Layout.hatHeight + heightAll body := by
  cases b
  obtain rfl : _ = BlockKind.hat body place := h
  simp only [height, BlockKind.bodyHeight?]

theorem height_of_not_hat (h : b.isHat = false) :
    b.height = Layout.statementHeight + Input.tallest b.inputs + Input.stackHeights b.inputs := by
  obtain ⟨opcode, kind, inputs, fields, comment, span⟩ := b
  cases kind <;> simp_all [isHat, height, BlockKind.bodyHeight?]

theorem statements_eq (b : Block) :
    b.statements = b.kind.statements ++ Input.statementsAll b.inputs := by
  cases b
  rw [statements]

theorem statements_of_not_hat (h : b.isHat = false) :
    b.statements = Input.statementsAll b.inputs := by
  obtain ⟨opcode, kind, inputs, fields, comment, span⟩ := b
  cases kind <;> simp_all [isHat, statements, BlockKind.statements]

end Block

theorem Input.stackHeights_eq_zero {is : List (String × Input)}
    (h : ∀ name bs, (name, .stack bs) ∉ is) : Input.stackHeights is = 0 := by
  induction is
  case nil => rfl
  case cons i is hi =>
    obtain ⟨name, i⟩ := i
    rw [Input.stackHeights, hi fun name bs hm => h name bs (List.mem_cons_of_mem _ hm)]
    cases i
    case stack bs => exact absurd List.mem_cons_self (h name bs)
    all_goals rfl

open Layout

-- Every statement within inputs counts towards the height of the stacks among them. There is none
-- in the other inputs, as a reporter has no stacks.
mutual

theorem Input.statements_le : ∀ (i : Input), (∀ b ∈ i.blocks, b.Inner) →
    (∀ r, i = .block r → r.Stackless) → statementHeight * i.statements.length ≤ i.stackHeight
  | .literal _, _, _ | .var _, _, _ | .list _, _, _ => by simp [Input.statements]
  | .block b, h, hr => by
    rw [Input.blocks] at h
    have hs : Input.stackHeights b.inputs = 0 := Input.stackHeights_eq_zero (hr b rfl)
    simpa only [Input.statements, Input.stackHeight, hs] using Block.statements_le b h
  | .stack bs, h, _ => by
    rw [Input.blocks] at h
    rw [Input.statements, Input.stackHeight]
    exact Block.statementsAll_le bs h

theorem Block.statements_le : ∀ (b : Block), (∀ b' ∈ b.blocks, b'.Inner) →
    statementHeight * b.statements.length ≤ Input.stackHeights b.inputs
  | ⟨opcode, kind, inputs, fields, comment, span⟩, h => by
    rw [Block.blocks, List.forall_mem_cons, List.forall_mem_append] at h
    rw [Block.statements_of_not_hat h.1.notHat]
    exact Input.statementsAll_le inputs h.2.1 h.1.reporters

theorem Block.statementsAll_le : ∀ (bs : List Block), (∀ b ∈ Block.blocksAll bs, b.Inner) →
    statementHeight * (Block.statementsAll bs).length ≤ Block.heightAll bs
  | [], _ => by simp [Block.statementsAll]
  | b :: bs, h => by
    rw [Block.blocksAll, List.forall_mem_append] at h
    have hb := Block.statements_le b h.1
    have hbs := Block.statementsAll_le bs h.2
    have hh := Block.height_of_not_hat (h.1 b Block.self_mem_blocks).notHat
    rw [Block.statementsAll, Block.heightAll, List.length_cons, List.length_append, hh, Nat.mul_add,
      Nat.mul_add]
    omega

theorem Input.statementsAll_le : ∀ (is : List (String × Input)),
    (∀ b ∈ Input.blocksAll is, b.Inner) → (∀ name r, (name, .block r) ∈ is → r.Stackless) →
      statementHeight * (Input.statementsAll is).length ≤ Input.stackHeights is
  | [], _, _ => by simp [Input.statementsAll]
  | (name, i) :: is, h, hr => by
    rw [Input.blocksAll, List.forall_mem_append] at h
    have hi := Input.statements_le i h.1 fun r he => hr name r (he ▸ List.mem_cons_self)
    have his := Input.statementsAll_le is h.2 fun name r hm => hr name r (List.mem_cons_of_mem _ hm)
    rw [Input.statementsAll, Input.stackHeights, List.length_append, Nat.mul_add]
    omega

end

namespace Layout

variable {b c : Block} {bs : List Block} {y : Nat}

-- Scripts only start where they are not within others, and there are no stacks where they do not
-- show.
structure Flat (bs : List Block) : Prop where
  hats      : ∀ b ∈ bs, ∀ c ∈ b.blocks.tail, c.isHat = false
  hatInputs : ∀ b ∈ bs, b.isHat → b.Stackless
  reporters : ∀ b ∈ bs, ∀ c ∈ b.blocks, ∀ name r, (name, .block r) ∈ c.inputs → r.Stackless

theorem Flat.inner (h : Flat bs) (hb : b ∈ bs) : ∀ c ∈ b.blocks.tail, c.Inner :=
  fun c hc => ⟨h.hats b hb c hc, h.reporters b hb c (List.mem_of_mem_tail hc)⟩

theorem Flat.height_le (h : Flat bs) (hb : b ∈ bs) (hh : b.isHat) :
    65 + 48 * b.statements.length ≤ b.height := by
  have hp := h.inner hb
  rw [Block.blocks_eq, List.tail_cons, List.forall_mem_append] at hp
  have hi := Input.statementsAll_le b.inputs hp.1 (h.reporters b hb b Block.self_mem_blocks)
  have hs : Input.stackHeights b.inputs = 0 := Input.stackHeights_eq_zero (h.hatInputs b hb hh)
  unfold Block.isHat at hh
  split at hh
  case h_1 body place hk =>
    rw [hk, BlockKind.blocks] at hp
    have hbody := Block.statementsAll_le body hp.2
    rw [Block.height_hat hk, Block.statements_eq, hk, BlockKind.statements, List.length_append]
    simp only [statementHeight, hatHeight, hs] at *
    omega
  case h_2 => contradiction

-- Scripts are only given places.
inductive Placed : Block → Block → Prop
  | hat {b body p} (place : Nat × Nat) (hb : b.kind = .hat body p) :
      Placed b { b with kind := .hat body place }
  | other (b : Block) (hb : ∀ body p, b.kind ≠ .hat body p) : Placed b b

theorem forall₂_arrangeFrom : List.Forall₂ Placed bs (arrangeFrom y bs) := by
  induction bs generalizing y
  case nil => exact .nil
  case cons b bs hi =>
    unfold arrangeFrom
    split
    case h_1 body place hb => exact .cons (.hat _ hb) hi
    case h_2 hb => exact .cons (.other b hb) hi

theorem forall₂_arrange : List.Forall₂ Placed bs (arrange bs) :=
  forall₂_arrangeFrom

-- The second script starts below the first one, with room between them.
def Above (b c : Block) : Prop :=
  ∀ p ∈ b.place?, ∀ q ∈ c.place?, p.2 + b.height + 30 ≤ q.2

-- Scripts on the canvas.
structure Arranged (bs placed : List Block) : Prop where
  left   : ∀ b ∈ placed, ∀ p ∈ b.place?, p.1 = 0
  apart  : placed.Pairwise Above
  height : ∀ b ∈ placed, b.isHat → 65 + 48 * b.statements.length ≤ b.height
  same   : List.Forall₂ Placed bs placed

-- All scripts that are still to be placed start at the height that is reached, or below it.
theorem le_of_mem_arrangeFrom (h : b ∈ arrangeFrom y bs) {p : Nat × Nat} (hp : p ∈ b.place?) :
    p.1 = 0 ∧ y ≤ p.2 := by
  induction bs generalizing y
  case nil => contradiction
  case cons c bs hi =>
    unfold arrangeFrom at h
    split at h
    case h_1 =>
      cases List.mem_cons.mp h
      case inl he =>
        obtain rfl : (0, y) = p := by simpa [he, Block.place?] using hp
        simp
      case inr h => exact (hi h).imp_right (by omega)
    case h_2 hc =>
      cases List.mem_cons.mp h
      case inl he => simp [he, Block.place?_of_not_hat hc] at hp
      case inr h => exact hi h

theorem pairwise_arrangeFrom : (arrangeFrom y bs).Pairwise Above := by
  induction bs generalizing y
  case nil => exact .nil
  case cons b bs hi =>
    unfold arrangeFrom
    split
    case h_1 body place hb =>
      refine .cons (fun c hc p hp q hq => ?_) hi
      obtain rfl : (0, y) = p := by simpa [Block.place?] using hp
      have hq : y + b.height + gap ≤ q.2 := (le_of_mem_arrangeFrom hc hq).2
      rwa [Block.height_hat rfl, ← Block.height_hat hb]
    case h_2 hb =>
      exact .cons (fun c _ p hp => by simp [Block.place?_of_not_hat hb] at hp) hi

theorem Placed.isHat (h : Placed b c) : c.isHat = b.isHat := by
  cases h
  case hat body p place hb => simp [Block.isHat, hb]
  case other => rfl

theorem Placed.height_le (hp : Placed b c) (h : 65 + 48 * b.statements.length ≤ b.height) :
    65 + 48 * c.statements.length ≤ c.height := by
  cases hp
  case hat body p place hb =>
    rw [Block.statements_eq, hb, Block.height_hat hb] at h
    rw [Block.statements_eq, Block.height_hat rfl]
    exact h
  case other => exact h

theorem arranged_arrange (h : Flat bs) : Arranged bs (arrange bs) where
  left   := fun _ hb _ hp => (le_of_mem_arrangeFrom hb hp).1
  apart  := pairwise_arrangeFrom
  height := by
    intro c hc hh
    obtain ⟨b, hb, hp⟩ := mem_of_forall₂ forall₂_arrange hc
    exact hp.height_le (h.height_le hb (hp.isHat ▸ hh))
  same   := forall₂_arrange

-- A script with a statement within another one, a reporter on its own and a second script.
def twoScripts : List Block :=
  [.hat "event_whenflagclicked"
    [{ Block.plain "control_if" with
      inputs := [("CONDITION", .block (.condition "operator_not")),
        ("SUBSTACK", .stack [.plain "looks_show"])] }],
    .plain "operator_add",
    .hat "event_whenthisspriteclicked" [.plain "looks_hide"]]

theorem arranged_twoScripts : Flat twoScripts ∧ Arranged twoScripts (arrange twoScripts) ∧
    (arrange twoScripts).map Block.place? =
      [some (0, 0), none, some (0, 65 + 48 + 8 + 48 + 30)] := by
  have hf : Flat twoScripts := by
    constructor <;>
      simp [twoScripts, Block.hat, Block.plain, Block.condition, Block.ofKind,
        Block.blocks, Block.blocksAll, Input.blocks, Input.blocksAll, BlockKind.blocks, Block.isHat,
        Block.Stackless]
  exact ⟨hf, arranged_arrange hf, by decide +kernel⟩

end Layout

end BlockLang
