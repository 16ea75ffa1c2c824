import BlockLang.Proofs.Block.Logic
import BlockLang.Proofs.Sprite.Inputs
import BlockLang.Proofs.Sprite.Stacks

/-!
Expressions stand for tidy inputs, and statements for tidy blocks.
-/

namespace BlockLang

variable {P : String → Prop} {R : Ref → Prop} {scope : Scope} {name : Name} {i l r : Input}
  {list : String}

namespace Block

@[simp]
theorem tidy_ofList {opcode : String} : (ofList opcode list).Tidy R ↔ R (.list list) := by
  simp [tidy_iff, ofList, plain, BlockKind.Inner, Field.Fits, Field.ref?, Field.name]

@[simp]
theorem inputs_ofList {opcode : String} : (ofList opcode list).inputs = [] := by
  simp [ofList, plain]

@[simp]
theorem tidy_listContains : (listContains list i).Tidy R ↔ i.Tidy R ∧ R (.list list) := by
  simp [tidy_iff, listContains, condition, BlockKind.Inner, Field.Fits, Field.ref?, Field.name]
  tauto

theorem tidy_sensed {object : String} : (sensed object name).Tidy R := by
  rw [sensed, tidy_writtenAt]
  simp [tidy_iff, plain, BlockKind.Inner, Field.Fits, Field.ref?]

end Block

theorem Reference.tidy_input {r : Reference} (h : R r.ref) : r.input.Tidy R := by
  cases r
  case var => exact Input.tidy_var.mpr h
  case list => exact Input.tidy_list.mpr h

theorem Scope.Sound.keeps (h : scope.Sound P R) : scope.Keeps P (Input.Tidy R) where
  literal := Input.tidy_literal
  reference hn hr := Reference.tidy_input (h.resolve hn hr)
  param hf hp := by simp [h.params hf _ hp]
  operator hp hl hr :=
    Input.tidy_block.mpr (Block.tidy_ofPrototype (h.vocabulary.reporters hp) (by simp [hl, hr]))
  call hp _ ha := by simpa using Block.tidy_ofPrototype (h.vocabulary.reporters hp) ha
  negate hi := hi.negate
  not hi := hi.not
  ofTruth hi := Input.tidy_block.mpr (Block.tidy_ofTruth _ hi)
  logical hl hr := Input.tidy_block.mpr (Block.tidy_logical hl hr)
  lengthOf hl := Input.tidy_block.mpr (Block.tidy_lengthOf.mpr (Input.tidy_list.mp hl))
  itemOf hl hi := by simp_all
  placeOf hl hi := by simp_all
  contains hl hi := by simp_all
  sensed := Input.tidy_block.mpr Block.tidy_sensed

variable {e : Expr}

theorem Expr.tidy_input (h : scope.Sound P R) (hn : ∀ n ∈ e.names, P n)
    (hi : e.input scope = .ok i) : i.Tidy R :=
  keeps_input h.keeps hn hi

variable {v : String} {bs : List Block}

namespace Block

@[simp]
theorem tidy_setVariable : (setVariable v i).Tidy R ↔ i.Tidy R ∧ R (.var v) := by
  simp [tidy_iff, setVariable, plain, BlockKind.Inner, Field.Fits, Field.ref?, Field.name]
  tauto

@[simp]
theorem tidy_changeVariable : (changeVariable v i).Tidy R ↔ i.Tidy R ∧ R (.var v) := by
  simp [tidy_iff, changeVariable, plain, BlockKind.Inner, Field.Fits, Field.ref?, Field.name]
  tauto

@[simp]
theorem tidy_addItem : (addItem list i).Tidy R ↔ R (.list list) ∧ i.Tidy R := by
  simp [addItem]

theorem tidy_choice {condition : Block} {otherwise : Option (List Block)}
    (hc : condition.Tidy R) (hb : AllTidy R bs) (ho : ∀ other ∈ otherwise, AllTidy R other) :
    (choice condition bs otherwise).Tidy R := by
  cases otherwise <;> simp_all [choice, plain, BlockKind.Inner]

end Block

-- The inputs of a call are named by the parameters of the function.
theorem Scope.Sound.builds (h : scope.Sound P R) :
    scope.Builds P (Input.Tidy R) (Block.Tidy R) where
  toKeeps := h.keeps
  procedure {_ f _ is} hf _ _ hi := by
    have hz : (((f.params.map (·.text)).zip is).map (·.1)).Sublist _ := map_fst_zip_sublist
    have hd := (h.calls hf).sublist hz
    have ht : Input.AllTidy R ((f.params.map (·.text)).zip is) :=
      Input.allTidy_iff.mpr fun i hm => hi _ (List.of_mem_zip hm).2
    simp [hd, ht]
  statement hp hi := Block.tidy_ofPrototype (h.vocabulary.statements hp) hi
  set hv hi := by simp_all
  change hv hi := by simp_all
  monitor _ hv := by
    have hv : R (.var _) := Input.tidy_var.mp hv
    simp [Block.tidy_iff, Block.plain, BlockKind.Inner, Field.Fits, Field.ref?, Field.name, hv]
  listed _ hl := by simp_all
  emptied hl := by simp_all
  added hl hi := by simp_all
  deleted hl hi := by simp_all
  inserted hl hi hj := by simp_all
  replaced hl hi hj := by simp_all
  choice hc _ hs ho := by
    refine Block.tidy_choice (Input.tidy_block.mp hc) (Block.allTidy_iff.mpr hs) fun _ hm => ?_
    exact Block.allTidy_iff.mpr (ho _ hm).2
  loopUntil hc _ hs := by
    simp_all [Block.plain, BlockKind.Inner, Block.allTidy_iff]
  loopTimes hi _ hs := by
    simp_all [Block.plain, BlockKind.Inner, Block.allTidy_iff]
  forever _ hs := by
    simp_all [Block.plain, BlockKind.Inner, Block.allTidy_iff]
  writtenAt hb := Block.tidy_writtenAt.mpr hb
  commented hb := by simp_all

theorem Stmt.allTidy_allBlocks (h : scope.Sound P R) {enter : Mention.Enter} {ss : List Stmt}
    (hn : ∀ n ∈ Stmt.namesAll ss, P n) (hb : Stmt.allBlocks scope ss = .ok bs)
    (hl : scope.Binds P R (Mention.ofBody enter ss)) : Block.AllTidy R bs := by
  have hl : scope.Binds P (Ref.Reads (Input.Tidy R)) (Mention.ofBody enter ss) :=
    fun f hf n hm hn => Input.tidy_var.mpr (hl f hf n hm hn)
  exact Block.allTidy_iff.mpr (Stmt.builds_allBlocks h.builds hn hb hl)

theorem Block.TidyScript.withField {b : Block} {key : String} {f : Field} (h : b.TidyScript R)
    (hk : key ∉ b.fields.map (·.1)) (hf : f.Fits key) (hr : f.ref? key = none) :
    (b.withField key f).TidyScript R where
  named  := Block.named_withField.mpr ⟨h.named, hk, hf, by simp [hr]⟩
  body   := h.body
  inputs := h.inputs

theorem Block.TidyScript.withInput {b : Block} {key : String} (h : b.TidyScript R)
    (hk : key ∉ b.inputs.map (·.1)) (hi : i.Tidy R) : (b.withInput key i).TidyScript R where
  named  := Block.named_withInput.mpr ⟨h.named, hk⟩
  body   := h.body
  inputs := by simp [h.inputs, hi]

-- The fields of events refer to neither variables nor lists, also where they hold names.
theorem Event.tidyScript_hat (h : scope.Sound P R) {event : Event} {body : List Block} {b : Block}
    (hn : ∀ n ∈ event.names, P n) (hb : event.hat scope body = .ok b) (ht : Block.AllTidy R body) :
    b.TidyScript R := by
  have hh : ∀ opcode, (Block.hat opcode body).TidyScript R := fun _ => Block.tidyScript_hat ht
  cases event
  case flag | click | clone => exact pure_eq_ok.mp hb ▸ hh _
  case message token | key token | backdrop token =>
    obtain ⟨_, _, hb⟩ := bind_eq_ok.mp hb
    obtain rfl := pure_eq_ok.mp hb
    exact (hh _).withField (by simp [Block.hat]) (by simp [Field.Fits]) (by simp [Field.ref?])
  case loudness e | timer e =>
    obtain ⟨_, he, hb⟩ := bind_eq_ok.mp hb
    obtain rfl := pure_eq_ok.mp hb
    have hi : ((Block.hat "event_whengreaterthan" body).withInput "VALUE" _).TidyScript R :=
      (hh _).withInput (by simp [Block.hat]) (Expr.tidy_input h (e := e) hn he)
    exact hi.withField (by simp [Block.hat]) (by simp [Field.Fits]) (by simp [Field.ref?])

end BlockLang
