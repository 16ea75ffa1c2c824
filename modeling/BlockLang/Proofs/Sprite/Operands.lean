import BlockLang.Proofs.Block.Negation
import BlockLang.Proofs.Block.Shape
import BlockLang.Proofs.Sprite.Script
import BlockLang.Proofs.Sprite.Scope

/-!
Arithmetic blocks that expressions stand for have both operands.
-/

namespace BlockLang

-- A block that has both operands if it needs them.
def Block.Paired (b : Block) : Prop :=
  b.isArithmetic → b.Binary

def Input.Paired (i : Input) : Prop :=
  ∀ b ∈ i.blocks, b.Paired

-- An arithmetic block is made for two operands and for nothing else.
def Prototype.Paired (p : Prototype) : Prop :=
  (Block.ofPrototype p []).isArithmetic → p.params = [Block.left, Block.right] ∧ p.inputs = []

instance {p : Prototype} : Decidable p.Paired :=
  inferInstanceAs (Decidable (_ → _))

def Vocabulary.Paired (v : Vocabulary) : Prop :=
  ∀ {name : String} {p : Prototype}, v.reporters[name]? = some p → p.Paired

theorem Vocabulary.builtin_paired : builtin.Paired := by
  intro name p h
  have hp : ∀ p ∈ Prototype.builtinReporters, p.Paired := by decide
  exact hp p (of_getElem?_table Prototype.name h).1

variable {b b' l r : Block} {bs : List Block} {i i' : Input} {args : List Input}
  {both opposite : Bool} {scope : Scope} {name : String}

namespace Block

theorem paired_of_shell (h : b.shell = b'.shell) (hb : b.Paired) : b'.Paired := by
  have ho : b.opcode = b'.opcode := congrArg Prod.fst h
  have hn : (b.inputs.map (·.1)).Perm (b'.inputs.map (·.1)) :=
    Multiset.coe_eq_coe.mp (congrArg Prod.snd h)
  simpa only [Paired, isArithmetic, isDifference, isProduct, Binary, ho, hn.count_eq] using hb

theorem paired_iff : (Input.block b).Paired ↔
    b.Paired ∧ (∀ i ∈ b.inputs, i.2.Paired) ∧ ∀ b' ∈ b.kind.blocks, b'.Paired := by
  simp only [Input.Paired, Input.blocks, blocks_eq b, List.forall_mem_cons,
    List.forall_mem_append, Input.forall_mem_blocksAll]

-- Of a block that is no arithmetic only the inputs matter.
theorem paired_plain (ha : b.isArithmetic = false) (hk : b.kind.blocks = []) :
    (Input.block b).Paired ↔ ∀ i ∈ b.inputs, i.2.Paired := by
  have hb : b.Paired := fun h => absurd h (Bool.eq_false_iff.mp ha)
  simp [paired_iff, hb, hk]

-- Where a block was written is no part of it.
theorem paired_writtenAt {span : Span} :
    (Input.block (b.writtenAt span)).Paired ↔ (Input.block b).Paired :=
  paired_iff.trans (paired_iff (b := b)).symm

theorem paired_self_ofPrototype {p : Prototype} (hp : p.Paired)
    (hl : p.params.length = 2 → args.length = 2) : (ofPrototype p args).Paired := by
  intro ha
  have ⟨hps, his⟩ := hp ha
  have ⟨l, r, hargs⟩ := List.length_eq_two.mp (hl (hps ▸ rfl))
  have hn : (ofPrototype p args).inputs.map (·.1) = [left, right] := by
    rw [ofPrototype, hargs, hps, his]
    rfl
  rw [Binary, hn]
  decide

end Block

namespace Input

@[simp]
theorem paired_literal {text : String} : (literal text).Paired :=
  nofun

theorem paired_inverse : (block b.inverse).Paired ↔ (block b).Paired := by
  rw [Block.paired_plain rfl rfl]
  simp [Block.inverse, Block.condition]

theorem Paired.counted (h : i.Paired) : (Block.counted i).Paired := by
  cases i
  case list => exact (Block.paired_plain rfl rfl).mpr nofun
  case literal => exact paired_literal
  all_goals exact h

theorem Paired.equalsZero (h : i.Paired) : (block (.equalsZero (Block.counted i))).Paired := by
  rw [Block.paired_plain rfl rfl]
  simp [Block.equalsZero, Block.condition, h.counted]

theorem paired_connect (hl : (block l).Paired) (hr : (block r).Paired) :
    (block (.connect both l r)).Paired := by
  rw [Block.paired_plain (by cases both <;> rfl) rfl]
  simp [Block.connect, Block.condition, hl, hr]

-- What is made out of conditions has no other arithmetic than they have.
theorem paired_of_joinedFrom (h : Block.JoinedFrom i.blocks b) (hi : i.Paired) :
    (block b).Paired := by
  induction h
  case given b hb => exact fun b' hb' => hi b' (i.blocks_subset b hb hb')
  case comparison j hj => exact Paired.equalsZero fun b hb => hi b (hj hb)
  case opposite hb => exact paired_inverse.mpr hb
  case connection hl hr => exact paired_connect hl hr

theorem Paired.not (h : i.Paired) : i.not.Paired := by
  cases i.joinedFrom_not
  case inl hl =>
    cases hn : i.not
    case literal => exact paired_literal
    all_goals simp [hn, literal?] at hl
  case inr hb =>
    obtain ⟨b, hi, hb, _⟩ := hb
    exact hi ▸ paired_of_joinedFrom hb h

theorem Paired.logical (hl : i.Paired) (hr : i'.Paired) : (block (.logical both i i')).Paired := by
  have ⟨_, p, q, hp, hq, h⟩ := Block.joinedFrom_logical both i i'
  have hp : (block p).Paired := paired_of_joinedFrom hp hl
  have hq : (block q).Paired := paired_of_joinedFrom hq hr
  split at h
  case isTrue => exact h.1 ▸ paired_inverse.mpr (paired_connect hp hq)
  case isFalse => exact h.1 ▸ paired_connect hp hq

theorem Paired.negate (h : i.Paired) : i.negate.1.Paired := by
  unfold Input.negate
  split
  case h_1 i' hn =>
    intro b hb
    have hs : b.shell ∈ i.shells :=
      (shells_of_negated? hn).mem_iff.mp (List.mem_map_of_mem hb)
    have ⟨b', hb', hs⟩ := List.mem_map.mp hs
    exact Block.paired_of_shell hs (h b' hb')
  case h_2 hn =>
    rw [subtrahend_of_binary h hn]
    have hb : (Block.minus i).Binary := ⟨rfl, rfl⟩
    refine Block.paired_iff.mpr ⟨fun _ => hb, ?_, nofun⟩
    simp [Block.minus, Block.plain, h]

end Input

theorem Block.paired_ofPrototype {p : Prototype} (hp : p.Paired)
    (hl : p.params.length = 2 → args.length = 2) (ha : ∀ i ∈ args, i.Paired) :
    (Input.block (ofPrototype p args)).Paired := by
  refine paired_iff.mpr ⟨paired_self_ofPrototype hp hl, fun i hi => ?_, ?_⟩
  · cases List.mem_append.mp hi
    case inl hi => exact ha _ (List.of_mem_zip hi).2
    case inr hi =>
      have ⟨_, _, he⟩ := List.mem_map.mp hi
      exact he ▸ Input.paired_literal
  · unfold ofPrototype
    dsimp only
    split <;> nofun

theorem Scope.keeps_paired (hv : scope.vocabulary.Paired) :
    scope.Keeps (fun _ => True) Input.Paired where
  literal := Input.paired_literal
  reference {_ r} _ _ := by cases r <;> nofun
  param _ _ := (Block.paired_plain rfl rfl).mpr nofun
  operator hp hl hr := Block.paired_ofPrototype (hv hp) (fun _ => rfl) (by simp [hl, hr])
  call hp hl ha := Block.paired_writtenAt.mpr (Block.paired_ofPrototype (hv hp) hl.trans ha)
  negate hi := hi.negate
  not hi := hi.not
  ofTruth hi := Input.paired_of_joinedFrom Block.joinedFrom_ofTruth hi
  logical hl hr := hl.logical hr
  lengthOf _ := (Block.paired_plain rfl rfl).mpr nofun
  itemOf _ hi := (Block.paired_plain rfl rfl).mpr (List.forall_mem_singleton.mpr hi)
  placeOf _ hi := (Block.paired_plain rfl rfl).mpr (List.forall_mem_singleton.mpr hi)
  contains _ hi := (Block.paired_plain rfl rfl).mpr (List.forall_mem_singleton.mpr hi)
  sensed := (Block.paired_plain rfl rfl).mpr (List.forall_mem_singleton.mpr
    ((Block.paired_plain rfl rfl).mpr nofun))

theorem Expr.paired_input {e : Expr} (hv : scope.vocabulary = .builtin)
    (hi : e.input scope = .ok i) : i.Paired :=
  keeps_input (Scope.keeps_paired (hv ▸ Vocabulary.builtin_paired)) (fun _ _ => trivial) hi

end BlockLang
