import BlockLang.Proofs.Block.Closed
import BlockLang.Proofs.Sprite.Procedures.Basic

/-!
Of a script, only the first block tells a message that starts it.
-/

namespace BlockLang

-- The opcode of the blocks that tell a message.
def isReceiver (opcode : String) : Bool :=
  opcode = "event_whenbroadcastreceived"

-- No block in an input tells a message.
def Input.Unheard (i : Input) : Prop :=
  ∀ b ∈ i.blocks, isReceiver b.opcode = false

def Block.Unheard (b : Block) : Prop :=
  ∀ b' ∈ b.blocks, isReceiver b'.opcode = false

structure Vocabulary.Unheard (v : Vocabulary) : Prop where
  statements : ∀ {name : String} {p : Prototype}, v.statements[name]? = some p →
    isReceiver p.opcode = false
  reporters  : ∀ {name : String} {p : Prototype}, v.reporters[name]? = some p →
    isReceiver p.opcode = false

theorem Vocabulary.builtin_unheard : Vocabulary.builtin.Unheard where
  statements {name p} h := by
    have hn : ∀ p ∈ Prototype.builtinStatements, isReceiver p.opcode = false := by decide
    exact hn p (of_getElem?_table Prototype.name h).1
  reporters {name p} h := by
    have hn : ∀ p ∈ Prototype.builtinReporters, isReceiver p.opcode = false := by decide
    exact hn p (of_getElem?_table Prototype.name h).1

variable {scope : Scope} {b b' : Block} {bs body : List Block} {i : Input} {name : String}
  {opcode : String} {f : Field} {span : Span}

@[simp]
theorem Input.unheard_literal {text : String} : (Input.literal text).Unheard := nofun

@[simp]
theorem Input.unheard_var : (Input.var name).Unheard := nofun

@[simp]
theorem Input.unheard_list : (Input.list name).Unheard := nofun

@[simp]
theorem Input.unheard_block : (Input.block b).Unheard ↔ b.Unheard := by
  rw [Input.Unheard, Input.blocks, Block.Unheard]

@[simp]
theorem Input.unheard_stack : (Input.stack bs).Unheard ↔ ∀ b ∈ bs, b.Unheard := by
  rw [Input.Unheard, Input.blocks]
  exact Block.forall_mem_blocksAll

namespace Block

theorem unheard_iff : b.Unheard ↔ isReceiver b.opcode = false ∧ (∀ i ∈ b.inputs, i.2.Unheard) ∧
    ∀ b' ∈ b.kind.blocks, isReceiver b'.opcode = false := by
  rw [Unheard, blocks_eq, List.forall_mem_cons, List.forall_mem_append,
    Input.forall_mem_blocksAll]
  rfl

@[simp]
theorem unheard_withInput : (b.withInput name i).Unheard ↔ b.Unheard ∧ i.Unheard := by
  simp only [unheard_iff, withInput, List.forall_mem_append, List.forall_mem_singleton]
  tauto

@[simp]
theorem unheard_withField : (b.withField name f).Unheard ↔ b.Unheard := by
  rw [unheard_iff, unheard_iff, withField]

@[simp]
theorem unheard_writtenAt : (b.writtenAt span).Unheard ↔ b.Unheard := by
  rw [unheard_iff, unheard_iff, writtenAt]

@[simp]
theorem unheard_setComment {comment : Option String} : { b with comment }.Unheard ↔ b.Unheard := by
  rw [unheard_iff, unheard_iff]

@[simp]
theorem unheard_plain : (plain opcode).Unheard ↔ isReceiver opcode = false := by
  simp [unheard_iff, plain, ofKind, BlockKind.blocks]

@[simp]
theorem unheard_condition : (condition opcode).Unheard ↔ isReceiver opcode = false := by
  simp [unheard_iff, condition, ofKind, BlockKind.blocks]

@[simp]
theorem unheard_argument {text : String} {shadow : Bool} : (argument text shadow).Unheard := by
  simp [unheard_iff, argument, ofKind, withField, BlockKind.blocks, isReceiver]

end Block

theorem Input.hereditary_unheard :
    Input.Hereditary (fun opcode => isReceiver opcode = false) Input.Unheard where
  literal := unheard_literal
  inputs hb := (Block.unheard_iff.mp (unheard_block.mp hb)).2.1
  refit hb hi :=
    have ⟨ho, _, hk⟩ := Block.unheard_iff.mp (unheard_block.mp hb)
    unheard_block.mpr (Block.unheard_iff.mpr ⟨ho, hi, hk⟩)
  made ho hk hi := unheard_block.mpr (Block.unheard_iff.mpr
    ⟨ho, hi, by rcases hk with hk | hk <;> simp [hk, BlockKind.blocks]⟩)
  opcodes := by decide

theorem Reference.unheard_input {r : Reference} : r.input.Unheard := by
  cases r <;> simp [input]

theorem Scope.keeps_unheard (hv : scope.vocabulary.Unheard) :
    scope.Keeps (fun _ => True) Input.Unheard where
  literal := Input.unheard_literal
  reference _ _ := Reference.unheard_input
  param _ _ := by simp
  operator hp hl hr := Input.hereditary_unheard.ofPrototype (hv.reporters hp) (by simp [hl, hr])
  call hp _ ha := by simpa using Input.hereditary_unheard.ofPrototype (hv.reporters hp) ha
  negate hi := Input.hereditary_unheard.negate hi
  not hi := Input.hereditary_unheard.not hi
  ofTruth hi := Input.hereditary_unheard.ofTruth hi
  logical hl hr := Input.hereditary_unheard.logical hl hr
  lengthOf _ := Input.hereditary_unheard.lengthOf
  itemOf _ hi := by simp [Block.ofList, isReceiver, hi]
  placeOf _ hi := by simp [Block.ofList, isReceiver, hi]
  contains _ hi := by simp [Block.listContains, isReceiver, hi]
  sensed := by simp [Block.sensed, isReceiver]

theorem Scope.builds_unheard (hv : scope.vocabulary.Unheard) :
    scope.Builds (fun _ => True) Input.Unheard Block.Unheard where
  toKeeps := keeps_unheard hv
  procedure _ _ _ hi := Block.unheard_iff.mpr
    ⟨rfl, fun i hm => hi _ (List.of_mem_zip hm).2, by simp [Block.call, BlockKind.blocks]⟩
  statement hp hi := Input.unheard_block.mp
    (Input.hereditary_unheard.ofPrototype (hv.statements hp) hi)
  set _ hi := by simp [Block.setVariable, isReceiver, hi]
  change _ hi := by simp [Block.changeVariable, isReceiver, hi]
  monitor ha _ := by
    simp only [List.mem_cons, List.not_mem_nil, or_false] at ha
    obtain rfl | rfl := ha <;> simp [isReceiver, toString]
  listed ha _ := by
    simp only [List.mem_cons, List.not_mem_nil, or_false] at ha
    obtain rfl | rfl := ha <;> simp [Block.ofList, isReceiver, toString]
  emptied _ := by simp [Block.ofList, isReceiver]
  added _ hi := by simp [Block.addItem, Block.ofList, isReceiver, hi]
  deleted _ hi := by simp [Block.ofList, isReceiver, hi]
  inserted _ hi hj := by simp [Block.ofList, isReceiver, hi, hj]
  replaced _ hi hj := by simp [Block.ofList, isReceiver, hi, hj]
  choice hc _ hs ho := by
    have hc := Input.unheard_block.mp hc
    cases ‹Option _› <;> simp_all [Block.choice, isReceiver]
  loopUntil hc _ hs := by simp_all [isReceiver]
  loopTimes hi _ hs := by simp_all [isReceiver]
  forever _ hs := by simp_all [isReceiver]
  writtenAt hb := Block.unheard_writtenAt.mpr hb
  commented hb := Block.unheard_setComment.mpr hb

theorem Stmt.unheard_stack (hv : scope.vocabulary.Unheard) {ss : List Stmt}
    (h : Stmt.stack scope ss = .ok bs) : ∀ b ∈ bs, b.Unheard := by
  have ⟨_, hs, hk⟩ := bind_eq_ok.mp h
  obtain rfl := Block.stacked_eq_ok hk
  -- Whatever the macros mention, a variable holds no block.
  have hl : scope.Binds (fun _ => True) (Ref.Reads Input.Unheard)
      (Mention.ofBody (fun _ => []) ss) := fun _ _ _ _ _ => Input.unheard_var
  exact Stmt.builds_allBlocks (Scope.builds_unheard hv) (fun _ _ => trivial) hs hl

-- A script that is started by at most one message. No other block of it tells one.
structure Block.HeardFirst (b : Block) : Prop where
  message : isReceiver b.opcode → ∃ m, b.fields = [("BROADCAST_OPTION", .var m)]
  rest    : ∀ c ∈ b.blocks.tail, isReceiver c.opcode = false

namespace Block.HeardFirst

theorem congr (h : b.HeardFirst) (ho : b'.opcode = b.opcode) (hf : b'.fields = b.fields)
    (hi : b'.inputs = b.inputs) (hk : b'.kind.blocks = b.kind.blocks) : b'.HeardFirst where
  message := by rw [ho, hf]; exact h.message
  rest    := by
    have hr := h.rest
    rw [blocks_eq, List.tail_cons] at hr ⊢
    rwa [hi, hk]

theorem message_of_mem (h : b.HeardFirst) (hb : b' ∈ b.blocks) (hr : isReceiver b'.opcode) :
    ∃ m, b'.fields = [("BROADCAST_OPTION", .var m)] := by
  rw [blocks_eq] at hb
  cases List.mem_cons.mp hb
  case inl he => exact he ▸ h.message (he ▸ hr)
  case inr hb =>
    have hn := h.rest b' (by rwa [blocks_eq])
    simp [hn] at hr

theorem placed (h : b.HeardFirst) (hp : Layout.Placed b b') : b'.HeardFirst := by
  cases hp
  case hat hk => exact h.congr rfl rfl rfl (by rw [hk]; rfl)
  case other => exact h

theorem ofHat (hs : ∀ b ∈ body, b.Unheard) {fields : List (String × Field)}
    {is : List (String × Input)} (hi : ∀ i ∈ is, i.2.Unheard)
    (hm : isReceiver opcode → ∃ m, fields = [("BROADCAST_OPTION", .var m)]) :
    { hat opcode body with inputs := is, fields }.HeardFirst where
  message := hm
  rest    := by
    rw [blocks_eq, List.tail_cons]
    exact List.forall_mem_append.mpr
      ⟨Input.forall_mem_blocksAll.mpr hi, Block.forall_mem_blocksAll.mpr hs⟩

end Block.HeardFirst

theorem Block.heardFirst_definition {code : String} {warp : Bool} {params : List String}
    (hs : ∀ b ∈ body, b.Unheard) : (definition code warp params body).HeardFirst where
  message := nofun
  rest    := by
    rw [blocks_definition, blocks_head, List.tail_cons, List.forall_mem_append,
      List.forall_mem_cons, List.forall_mem_map]
    exact ⟨⟨rfl, fun _ _ => rfl⟩, Block.forall_mem_blocksAll.mpr hs⟩

theorem Event.heardFirst_hat {event : Event} (hv : scope.vocabulary.Unheard)
    (hs : ∀ b ∈ body, b.Unheard) (hb : event.hat scope body = .ok b) : b.HeardFirst := by
  cases event
  case flag | click | clone =>
    obtain rfl := pure_eq_ok.mp hb
    exact .ofHat hs nofun (by simp [isReceiver])
  case message =>
    obtain ⟨m, _, hb⟩ := bind_eq_ok.mp hb
    obtain rfl := pure_eq_ok.mp hb
    exact .ofHat hs nofun fun _ => ⟨m, rfl⟩
  case key | backdrop =>
    obtain ⟨_, _, hb⟩ := bind_eq_ok.mp hb
    obtain rfl := pure_eq_ok.mp hb
    exact .ofHat hs nofun (by simp [isReceiver])
  case loudness | timer =>
    obtain ⟨_, he, hb⟩ := bind_eq_ok.mp hb
    obtain rfl := pure_eq_ok.mp hb
    have he := Expr.keeps_input (Scope.keeps_unheard hv) (fun _ _ => trivial) he
    exact .ofHat hs (List.forall_mem_singleton.mpr he)
      (by simp [isReceiver, Block.hat, Block.ofKind])

theorem Sprite.Script.heardFirst {vocabulary : Vocabulary} {symbols : Symbols} {d : Decl}
    (h : Script vocabulary symbols d b) (hv : vocabulary.Unheard) : b.HeardFirst := by
  cases h
  case function hb =>
    refine Block.HeardFirst.congr (Block.heardFirst_definition ?_) rfl rfl rfl rfl
    exact Stmt.unheard_stack hv hb
  case event hb he =>
    exact (Event.heardFirst_hat hv (Stmt.unheard_stack hv hb) he).congr rfl rfl rfl rfl

end BlockLang
