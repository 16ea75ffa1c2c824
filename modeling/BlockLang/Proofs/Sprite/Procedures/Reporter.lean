import BlockLang.Proofs.Block.Procedures
import BlockLang.Proofs.Sprite.Inputs
import BlockLang.Proofs.Sprite.Scope

/-!
Expressions stand for inputs in which no function is called or defined.
-/

namespace BlockLang

-- A prototype that stands for an ordinary block.
structure Prototype.Ordinary (p : Prototype) : Prop where
  opcode : isProcedureOpcode p.opcode = false
  -- No menu answers yes or no.
  menu   : p.condition → p.opcode ≠ "sensing_of_object_menu"
  names  : ∀ name ∈ p.params ++ p.inputs.map (·.1), name ≠ "custom_block"

instance {p : Prototype} : Decidable p.Ordinary :=
  decidable_of_iff (isProcedureOpcode p.opcode = false ∧
      (p.condition → p.opcode ≠ "sensing_of_object_menu") ∧
      ∀ name ∈ p.params ++ p.inputs.map (·.1), name ≠ "custom_block")
    ⟨fun ⟨ho, hm, hn⟩ => ⟨ho, hm, hn⟩, fun ⟨ho, hm, hn⟩ => ⟨ho, hm, hn⟩⟩

-- No name of the vocabulary stands for a block that tells about a function, and no statement is a
-- menu.
structure Vocabulary.Ordinary (v : Vocabulary) : Prop where
  statements : ∀ {name : String} {p : Prototype}, v.statements[name]? = some p →
    p.Ordinary ∧ p.opcode ≠ "sensing_of_object_menu"
  reporters  : ∀ {name : String} {p : Prototype}, v.reporters[name]? = some p → p.Ordinary

theorem Vocabulary.builtin_ordinary : Vocabulary.builtin.Ordinary where
  statements {name p} h := by
    have hn : ∀ p ∈ Prototype.builtinStatements,
        p.Ordinary ∧ p.opcode ≠ "sensing_of_object_menu" := by
      decide
    exact hn p (of_getElem?_table Prototype.name h).1
  reporters {name p} h := by
    have hn : ∀ p ∈ Prototype.builtinReporters, p.Ordinary := by
      decide
    exact hn p (of_getElem?_table Prototype.name h).1

variable {C : Block → Prop} {scope : Scope} {name : Name} {i l r : Input} {list : String}
  {b : Block} {args : List Input}

theorem Prototype.Ordinary.block {p : Prototype} (hp : p.Ordinary) :
    (Block.ofPrototype p args).Ordinary where
  kind := by
    unfold Block.ofPrototype
    dsimp only
    split
    case isTrue hc => exact ⟨hp.opcode, hp.menu hc⟩
    case isFalse => exact hp.opcode
  names i hi := by
    have ⟨hps, his⟩ := List.forall_mem_append.mp hp.names
    cases List.mem_append.mp hi
    case inl hi => exact hps _ (List.of_mem_zip hi).1
    case inr hi =>
      have ⟨q, hq, he⟩ := List.mem_map.mp hi
      exact he ▸ his _ (List.mem_map_of_mem hq)

theorem Block.procedures_ofPrototype {p : Prototype} (hp : p.Ordinary)
    (ha : ∀ i ∈ args, i.Procedures C) : (ofPrototype p args).Procedures C := by
  refine procedures_iff.mpr ⟨.inl hp.block, fun i hi => ?_, fun b hb => ?_⟩
  · cases List.mem_append.mp hi
    case inl hi => exact ha _ (List.of_mem_zip hi).2
    case inr hi =>
      have ⟨_, _, he⟩ := List.mem_map.mp hi
      exact he ▸ Input.procedures_literal
  · unfold ofPrototype at hb
    dsimp only at hb
    split at hb <;> simp [BlockKind.blocks] at hb

@[simp]
theorem Block.procedures_ofList {opcode : String} (ho : isProcedureOpcode opcode = false) :
    (ofList opcode list).Procedures C := by
  simp [ofList, ho]

@[simp]
theorem Block.ordinary_ofList {opcode : String} :
    (ofList opcode list).Ordinary ↔ isProcedureOpcode opcode = false := by
  simp [ofList]

@[simp]
theorem Block.isMenu_ofList {opcode : String} :
    (ofList opcode list).isMenu = decide (opcode = "sensing_of_object_menu") := rfl

@[simp]
theorem Block.procedures_listContains : (listContains list i).Procedures C ↔ i.Procedures C := by
  simp [listContains, isProcedureOpcode]

theorem Block.procedures_sensed {object : String} : (sensed object name).Procedures C := by
  simp [sensed, isProcedureOpcode]

@[simp]
theorem Block.ordinary_argument {text : String} : (argument text false).Ordinary where
  kind  := by simp [argument, withField, ofKind, BlockKind.Suits, isProcedureOpcode]
  names := by simp [argument]

@[simp]
theorem Block.procedures_argument {text : String} : (argument text false).Procedures C :=
  procedures_iff.mpr ⟨.inl ordinary_argument, by simp [argument], by
    simp [argument, BlockKind.blocks]⟩

theorem Reference.procedures_input {r : Reference} : r.input.Procedures C := by
  cases r <;> simp [Reference.input]

theorem Scope.keeps_procedures (hv : scope.vocabulary.Ordinary) :
    scope.Keeps (fun _ => True) (Input.Procedures C) where
  literal := Input.procedures_literal
  reference _ _ := Reference.procedures_input
  param _ _ := by simp
  operator hp hl hr := Input.procedures_block.mpr
    (Block.procedures_ofPrototype (hv.reporters hp) (by simp [hl, hr]))
  call hp _ ha := by
    simpa [(hv.reporters hp).block] using Block.procedures_ofPrototype (hv.reporters hp) ha
  negate hi := hi.negate
  not hi := hi.not
  ofTruth hi := Input.procedures_block.mpr (Block.procedures_ofTruth _ hi)
  logical hl hr := Input.procedures_block.mpr (Block.procedures_logical hl hr)
  lengthOf _ := by simp
  itemOf _ hi := by simp [isProcedureOpcode, hi]
  placeOf _ hi := by simp [isProcedureOpcode, hi]
  contains _ hi := by simp [hi]
  sensed := Input.procedures_block.mpr Block.procedures_sensed

variable {e : Expr}

theorem Expr.procedures_input (hv : scope.vocabulary.Ordinary) (hi : e.input scope = .ok i) :
    i.Procedures C :=
  keeps_input (Scope.keeps_procedures hv) (fun _ _ => trivial) hi

section Stack

variable {bs : List Block}

theorem Input.negate_ne_stack : i.negate.1 ≠ .stack bs := by
  unfold Input.negate
  split
  case h_1 j hn =>
    cases i <;> simp only [Input.negated?, Option.map_eq_some_iff, reduceCtorEq] at hn
    all_goals
      obtain ⟨_, _, rfl⟩ := hn
      simp
  case h_2 => simp

theorem Input.not_ne_stack : i.not ≠ .stack bs := by
  cases i
  case literal => simp [Input.not]
  all_goals
    simp only [Input.not]
    split <;> simp

theorem Reference.input_ne_stack {r : Reference} : r.input ≠ .stack bs := by
  cases r <;> nofun

theorem Scope.keeps_ne_stack : scope.Keeps (fun _ => True) (· ≠ .stack bs) where
  literal := nofun
  reference _ _ := Reference.input_ne_stack
  param _ _ := nofun
  operator _ _ _ := nofun
  call _ _ _ := nofun
  negate _ := Input.negate_ne_stack
  not _ := Input.not_ne_stack
  ofTruth _ := nofun
  logical _ _ := nofun
  lengthOf _ := nofun
  itemOf _ _ := nofun
  placeOf _ _ := nofun
  contains _ _ := nofun
  sensed := nofun

-- No expression stands for a stack.
theorem Expr.input_ne_stack (h : e.input scope = .ok i) : i ≠ .stack bs :=
  keeps_input Scope.keeps_ne_stack (fun _ _ => trivial) h

end Stack

end BlockLang
