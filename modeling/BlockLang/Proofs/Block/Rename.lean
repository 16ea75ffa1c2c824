import BlockLang.Sprite.Script
import BlockLang.Proofs.Block.Closed
import BlockLang.Proofs.Block.Truth

/-!
Other names for the variables in blocks. All that is done to blocks can be done before or after
their variables are renamed.
-/

namespace BlockLang

def Field.renameVar (r : String → String) : Field → Field
  | .var name => .var (r name)
  | .literal text => .literal text
  | .list name => .list name

mutual

-- An input with other names for the variables in it.
def Input.renameVars (r : String → String) : Input → Input
  | .literal text => .literal text
  | .var name => .var (r name)
  | .list name => .list name
  | .block b => .block (b.renameVars r)
  | .stack bs => .stack (Block.renameAllVars r bs)

def Block.renameVars (r : String → String) : Block → Block
  | ⟨opcode, kind, inputs, fields, comment, span⟩ =>
    ⟨opcode, kind.renameVars r, Input.renameAllVars r inputs,
      fields.map (Prod.map id (Field.renameVar r)), comment, span⟩

def BlockKind.renameVars (r : String → String) : BlockKind → BlockKind
  | .hat body place => .hat (Block.renameAllVars r body) place
  | .plain => .plain
  | .condition => .condition
  | .argument shadow => .argument shadow
  | .call code warp => .call code warp
  | .prototype code warp => .prototype code warp

def Block.renameAllVars (r : String → String) : List Block → List Block
  | [] => []
  | b :: bs => b.renameVars r :: Block.renameAllVars r bs

def Input.renameAllVars (r : String → String) : List (String × Input) → List (String × Input)
  | [] => []
  | (name, i) :: is => (name, i.renameVars r) :: Input.renameAllVars r is

end

variable {r : String → String} {b b' : Block} {bs bs' : List Block} {i i' j : Input}
  {is : List (String × Input)} {name list opcode : String} {f : Field} {span : Span}

@[simp]
theorem Block.renameAllVars_eq : renameAllVars r bs = bs.map (renameVars r) := by
  induction bs <;> simp_all [renameAllVars]

@[simp]
theorem Input.renameAllVars_eq : renameAllVars r is = is.map (Prod.map id (renameVars r)) := by
  induction is
  case nil => rfl
  case cons hi => rw [renameAllVars, List.map_cons, hi, Prod.map_apply, id]

section Id

mutual

theorem Input.renameVars_id : ∀ i : Input, i.renameVars id = i
  | .literal _ | .var _ | .list _ => rfl
  | .block b => by rw [Input.renameVars, Block.renameVars_id b]
  | .stack bs => by rw [Input.renameVars, Block.renameAllVars_id bs]

theorem Block.renameVars_id : ∀ b : Block, b.renameVars id = b
  | ⟨opcode, kind, inputs, fields, comment, span⟩ => by
    have hf : Field.renameVar id = id := by
      funext f
      cases f <;> rfl
    rw [Block.renameVars, BlockKind.renameVars_id kind, Input.renameAllVars_id inputs, hf,
      Prod.map_id, List.map_id]

theorem BlockKind.renameVars_id : ∀ kind : BlockKind, kind.renameVars id = kind
  | .hat body _ => by rw [BlockKind.renameVars, Block.renameAllVars_id body]
  | .plain | .condition | .argument _ | .call _ _ | .prototype _ _ => rfl

theorem Block.renameAllVars_id : ∀ bs : List Block, Block.renameAllVars id bs = bs
  | [] => rfl
  | b :: bs => by rw [Block.renameAllVars, Block.renameVars_id b, Block.renameAllVars_id bs]

theorem Input.renameAllVars_id : ∀ is : List (String × Input), Input.renameAllVars id is = is
  | [] => rfl
  | (_, i) :: is => by rw [Input.renameAllVars, Input.renameVars_id i, Input.renameAllVars_id is]

end

end Id

namespace Input

@[simp]
theorem renameVars_literal {text : String} : (literal text).renameVars r = literal text := by
  rw [renameVars]

@[simp]
theorem renameVars_var : (var name).renameVars r = var (r name) := by
  rw [renameVars]

@[simp]
theorem renameVars_list : (Input.list name).renameVars r = Input.list name := by
  rw [renameVars]

@[simp]
theorem renameVars_block : (block b).renameVars r = block (b.renameVars r) := by
  rw [renameVars]

@[simp]
theorem renameVars_stack : (stack bs).renameVars r = stack (bs.map (Block.renameVars r)) := by
  rw [renameVars, Block.renameAllVars_eq]

@[simp]
theorem literal?_renameVars : (i.renameVars r).literal? = i.literal? := by
  cases i <;> simp [literal?]

end Input

namespace Block

@[simp]
theorem opcode_renameVars : (b.renameVars r).opcode = b.opcode := by
  cases b
  rw [renameVars]

@[simp]
theorem kind_renameVars : (b.renameVars r).kind = b.kind.renameVars r := by
  cases b
  rw [renameVars]

@[simp]
theorem inputs_renameVars :
    (b.renameVars r).inputs = b.inputs.map (Prod.map id (Input.renameVars r)) := by
  cases b
  rw [renameVars, Input.renameAllVars_eq]

theorem input?_renameVars : (b.renameVars r).input? name =
    (b.input? name).map (Input.renameVars r) := by
  rw [input?, inputs_renameVars, lookup_map_snd, input?]

theorem field?_renameVars : (b.renameVars r).field? name =
    (b.field? name).map (Field.renameVar r) := by
  cases b
  rw [renameVars, field?, lookup_map_snd, field?]

@[simp]
theorem isCondition_renameVars : (b.renameVars r).isCondition = b.isCondition := by
  rw [isCondition, isCondition, kind_renameVars]
  cases b.kind <;> rw [BlockKind.renameVars]

-- The inputs are changed one by one.
theorem renameVars_refit : { b with inputs := is }.renameVars r =
    { b.renameVars r with inputs := Input.renameAllVars r is } := by
  cases b
  rw [renameVars, renameVars]

@[simp]
theorem renameVars_withInput :
    (b.withInput name i).renameVars r = (b.renameVars r).withInput name (i.renameVars r) := by
  cases b
  simp [withInput, renameVars]

@[simp]
theorem renameVars_withField :
    (b.withField name f).renameVars r = (b.renameVars r).withField name (f.renameVar r) := by
  cases b
  simp [withField, renameVars]

@[simp]
theorem renameVars_writtenAt :
    (b.writtenAt span).renameVars r = (b.renameVars r).writtenAt span := by
  cases b
  simp [writtenAt, renameVars]

@[simp]
theorem renameVars_setComment {comment : Option String} :
    { b with comment }.renameVars r = { b.renameVars r with comment } := by
  cases b
  simp [renameVars]

@[simp]
theorem renameVars_plain : (plain opcode).renameVars r = plain opcode := by
  simp [plain, ofKind, renameVars, BlockKind.renameVars]

@[simp]
theorem renameVars_condition : (condition opcode).renameVars r = condition opcode := by
  simp [condition, ofKind, renameVars, BlockKind.renameVars]

@[simp]
theorem renameVars_hat : (hat opcode bs).renameVars r = hat opcode (bs.map (renameVars r)) := by
  simp [hat, ofKind, renameVars, BlockKind.renameVars]

@[simp]
theorem renameVars_argument {shadow : Bool} :
    (argument name shadow).renameVars r = argument name shadow := by
  simp [argument, ofKind, renameVars, BlockKind.renameVars, withField, Field.renameVar]

@[simp]
theorem renameVars_ofList : (ofList opcode list).renameVars r = ofList opcode list := by
  simp [ofList, Field.renameVar]

@[simp]
theorem renameVars_lengthOf : (lengthOf list).renameVars r = lengthOf list := by
  simp [lengthOf, Field.renameVar]

@[simp]
theorem renameVars_listContains :
    (listContains list i).renameVars r = listContains list (i.renameVars r) := by
  simp [listContains, Field.renameVar]

@[simp]
theorem renameVars_sensed {property : Name} :
    (sensed name property).renameVars r = sensed name property := by
  simp [sensed, Field.renameVar]

theorem renameVars_ofPrototype {p : Prototype} {args : List Input} :
    (ofPrototype p args).renameVars r = ofPrototype p (args.map (Input.renameVars r)) := by
  have hk : ∀ {c : Bool}, (if c then .condition else .plain : BlockKind).renameVars r =
      if c then .condition else .plain := by
    intro c
    cases c <;> simp [BlockKind.renameVars]
  simp [ofPrototype, renameVars, hk, Function.comp_def, List.zip_map_right, Field.renameVar]

theorem renameVars_call {code : String} {warp : Bool} :
    (call code warp is).renameVars r = call code warp (Input.renameAllVars r is) := by
  simp [call, ofKind, renameVars, BlockKind.renameVars]

theorem renameVars_definition {code : String} {warp : Bool} {params : List String} :
    (definition code warp params bs).renameVars r =
      definition code warp params (bs.map (renameVars r)) := by
  have hp : (⟨"procedures_prototype", .prototype code warp,
        params.map fun p => (p, Input.block (argument p true)), [], none, none⟩ :
          Block).renameVars r =
      ⟨"procedures_prototype", .prototype code warp,
        params.map fun p => (p, Input.block (argument p true)), [], none, none⟩ := by
    simp [renameVars, BlockKind.renameVars, Function.comp_def]
  simp only [definition, ofKind, renameVars_withInput, renameVars_hat, Input.renameVars_block, hp]

@[simp]
theorem renameVars_setVariable :
    (setVariable name i).renameVars r = setVariable (r name) (i.renameVars r) := by
  simp [setVariable, Field.renameVar]

@[simp]
theorem renameVars_changeVariable :
    (changeVariable name i).renameVars r = changeVariable (r name) (i.renameVars r) := by
  simp [changeVariable, Field.renameVar]

@[simp]
theorem renameVars_addItem : (addItem list i).renameVars r = addItem list (i.renameVars r) := by
  simp [addItem]

theorem renameVars_choice {otherwise : Option (List Block)} :
    (choice b bs otherwise).renameVars r =
      choice (b.renameVars r) (bs.map (renameVars r))
        (otherwise.map (List.map (renameVars r))) := by
  cases otherwise <;> simp [choice]

theorem isForever_renameVars : (b.renameVars r).isForever = b.isForever := by
  rw [isForever, isForever, opcode_renameVars]

theorem misplaced?_renameVars :
    misplaced? (bs.map (renameVars r)) = (misplaced? bs).map (renameVars r) := by
  induction bs
  case nil => rfl
  case cons b bs hi =>
    rw [List.map_cons, misplaced?, misplaced?, isForever_renameVars, List.isEmpty_map, hi]
    exact (apply_ite (Option.map (renameVars r)) _ (some b) _).symm

theorem stacked_renameVars (h : stacked bs = .ok bs') :
    stacked (bs.map (renameVars r)) = .ok (bs'.map (renameVars r)) := by
  have ⟨he, hc⟩ := stacked_eq_ok_iff.mp h
  have hm := misplaced?_eq_none_iff.mpr hc
  rw [stacked, misplaced?_renameVars, hm, he]
  rfl

theorem eraseInput_renameVars :
    (b.renameVars r).eraseInput name = (b.eraseInput name).renameVars r := by
  rw [eraseInput, eraseInput, renameVars_refit, inputs_renameVars, Input.renameAllVars_eq,
    List.eraseP_map]
  rfl

theorem eraseOperands_renameVars :
    (b.renameVars r).eraseOperands = b.eraseOperands.renameVars r := by
  rw [eraseOperands, eraseOperands, eraseInput_renameVars, eraseInput_renameVars]

theorem swapped?_renameVars : (b.renameVars r).swapped? = b.swapped?.map (renameVars r) := by
  rw [swapped?, swapped?, input?_renameVars, input?_renameVars]
  cases b.input? left <;> cases b.input? right <;>
    simp [renameVars_refit, eraseOperands_renameVars, Input.renameAllVars_eq]

theorem isDifference_renameVars : (b.renameVars r).isDifference = b.isDifference := by
  rw [isDifference, isDifference, opcode_renameVars]

theorem isProduct_renameVars : (b.renameVars r).isProduct = b.isProduct := by
  rw [isProduct, isProduct, opcode_renameVars]

theorem negated?_eq (b : Block) : b.negated? =
    if b.isDifference then b.swapped?
    else if b.isProduct then
      ((Input.negatedAt? left b.inputs).or (Input.negatedAt? right b.inputs)).map
        fun inputs => { b with inputs }
    else none := by
  cases b
  simp only [negated?]
  split
  case isTrue => rfl
  split
  case isFalse => rfl
  split <;> simp_all

end Block

mutual

theorem Input.negated?_renameVars : ∀ i : Input,
    (i.renameVars r).negated? = i.negated?.map (Input.renameVars r)
  | .literal text => by
    simp [Input.negated?, Function.comp_def]
  | .block b => by
    rw [Input.renameVars, Input.negated?, Input.negated?, Block.negated?_renameVars b]
    simp [Function.comp_def]
  | .var _ | .list _ | .stack _ => by simp [Input.negated?]

theorem Block.negated?_renameVars : ∀ b : Block,
    (b.renameVars r).negated? = b.negated?.map (Block.renameVars r)
  | ⟨opcode, kind, inputs, fields, comment, span⟩ => by
    have hl := Input.negatedAt?_renameVars Block.left inputs
    have hr := Input.negatedAt?_renameVars Block.right inputs
    rw [Block.negated?_eq, Block.negated?_eq, Block.isDifference_renameVars,
      Block.isProduct_renameVars, Block.swapped?_renameVars, Block.renameVars, hl, hr]
    split
    case isTrue => rfl
    split
    case isFalse => rfl
    cases Input.negatedAt? Block.left inputs
    case some => simp [Block.renameVars]
    case none => simp [Block.renameVars, Function.comp_def]

theorem Input.negatedAt?_renameVars (name : String) : ∀ is : List (String × Input),
    Input.negatedAt? name (Input.renameAllVars r is) =
      (Input.negatedAt? name is).map (Input.renameAllVars r)
  | [] => by simp [Input.negatedAt?, Input.renameAllVars]
  | (n, i) :: is => by
    rw [Input.renameAllVars, Input.negatedAt?, Input.negatedAt?, Input.negated?_renameVars i,
      Input.negatedAt?_renameVars name is]
    split <;> simp [Function.comp_def]

end

namespace Input

@[simp]
theorem isCondition_renameVars : (i.renameVars r).isCondition = i.isCondition := by
  cases i <;> simp [isCondition]

theorem subtrahend_renameVars : (i.renameVars r).subtrahend = i.subtrahend.renameVars r := by
  cases i
  case block b =>
    rw [renameVars_block, subtrahend, subtrahend, Block.isDifference_renameVars,
      Block.eraseOperands_renameVars]
    split <;> rw [renameVars_block]
  all_goals simp [subtrahend]

theorem negate_renameVars : (i.renameVars r).negate.1 = i.negate.1.renameVars r := by
  rw [negate, negate, negated?_renameVars]
  cases i.negated?
  case some => rfl
  case none => simp [Block.minus, subtrahend_renameVars]

end Input

namespace Block

@[simp]
theorem renameVars_inverse : b.inverse.renameVars r = (b.renameVars r).inverse := by
  simp [inverse]

theorem isInverse_renameVars : (b.renameVars r).isInverse = b.isInverse := by
  rw [isInverse, isInverse, opcode_renameVars]

theorem counted_renameVars : counted (i.renameVars r) = (counted i).renameVars r := by
  cases i <;> simp [counted]

theorem compared_renameVars {opposite : Bool} :
    ofTruth.compared (i.renameVars r) opposite = (ofTruth.compared i opposite).renameVars r := by
  cases opposite <;> simp [ofTruth.compared, equalsZero, counted_renameVars]

theorem ofTruth_renameVars {opposite : Bool} :
    ofTruth (i.renameVars r) opposite = (ofTruth i opposite).renameVars r := by
  cases i
  case block b =>
    have hc : ofTruth.compared ((Input.block b).renameVars r) opposite = _ := compared_renameVars
    rw [Input.renameVars_block] at hc ⊢
    rw [ofTruth, ofTruth, isCondition_renameVars, hc]
    cases b.isCondition <;> cases opposite <;> simp
  all_goals exact compared_renameVars

theorem operand_renameVars : (b.renameVars r).operand = b.operand.renameVars r := by
  rw [operand, operand, input?_renameVars]
  cases b.input? "OPERAND"
  case none => rfl
  case some i =>
    rw [Option.map_some]
    cases i
    case block => rw [Input.renameVars_block]
    case literal | var | list | stack =>
      rw [← ofTruth_renameVars]
      simp

theorem connect_renameVars {both : Bool} :
    (connect both b b').renameVars r = connect both (b.renameVars r) (b'.renameVars r) := by
  simp [connect]

theorem logical_renameVars {both : Bool} :
    logical both (i.renameVars r) (j.renameVars r) = (logical both i j).renameVars r := by
  simp only [logical, ofTruth_renameVars, isInverse_renameVars, operand_renameVars]
  split <;> simp [connect_renameVars]

end Block

theorem Input.not_renameVars : (i.renameVars r).not = i.not.renameVars r := by
  cases i
  case literal => simp [Input.not]
  all_goals
    rw [not_eq (by simp), not_eq (by simp), Block.ofTruth_renameVars, Block.isInverse_renameVars,
      Block.operand_renameVars, apply_ite (renameVars r), renameVars_block, renameVars_block,
      Block.renameVars_inverse]

end BlockLang
