import BlockLang.Graph.Record
import BlockLang.Proofs.Sprite.Basic
import BlockLang.Proofs.Sprite.Procedures.Reporter
import BlockLang.Proofs.Symbols.Functions

/-!
The calls and the definitions of functions in the scripts of a sprite: a script defines the function
that its declaration declares, and calls only functions that are there.
-/

namespace BlockLang

section Calls

-- What is told about a function where it is called or defined.
def Function.mutation (f : Function) (defines : Bool) : Mutation :=
  ⟨f.code, f.params.map (·.text), f.warp, defines⟩

-- A block that calls a function, or the head of its definition. No input of it is a stack.
structure Block.Tells (f : Function) (defines : Bool) (b : Block) : Prop where
  opcode   : b.opcode = if defines then "procedures_prototype" else "procedures_call"
  mutation : b.mutation? = some (f.mutation defines)
  inputs   : ∀ i ∈ b.inputs, ∀ bs, i.2 ≠ .stack bs

-- A block that calls a function which is there.
def Symbols.Calls (s : Symbols) (b : Block) : Prop :=
  ∃ (n : String) (f : Function), s.functions[n]? = some f ∧ b.Tells f false

variable {C : Block → Prop} {scope : Scope} {i : Input} {v list : String}
  {b b' : Block} {bs : List Block} {s : Symbols}

namespace Block

theorem Tells.congr {f : Function} {defines : Bool} (h : b.Tells f defines)
    (ho : b'.opcode = b.opcode) (hi : b'.inputs = b.inputs) (hk : b'.kind = b.kind) :
    b'.Tells f defines where
  opcode   := ho.trans h.opcode
  mutation := by
    have hm : b'.mutation? = b.mutation? := by rw [mutation?, mutation?, hi, hk]
    exact hm.trans h.mutation
  inputs   := hi ▸ h.inputs

theorem calls_congr (ho : b'.opcode = b.opcode) (hi : b'.inputs = b.inputs)
    (hk : b'.kind = b.kind) (h : b.Procedures s.Calls) : b'.Procedures s.Calls := by
  have ⟨hb, his, hbs⟩ := procedures_iff.mp h
  refine procedures_iff.mpr ⟨hb.imp (ordinary_congr ho hi hk) fun ⟨hp, n, f, hf, ht⟩ => ?_,
    hi ▸ his, hk ▸ hbs⟩
  exact ⟨by rwa [isProcedure, ho], n, f, hf, ht.congr ho hi hk⟩

-- Neither the place in the source nor a comment matters.
@[simp]
theorem calls_writtenAt {span : Span} :
    (b.writtenAt span).Procedures s.Calls ↔ b.Procedures s.Calls :=
  ⟨calls_congr rfl rfl rfl, calls_congr rfl rfl rfl⟩

@[simp]
theorem calls_setComment {comment : Option String} :
    { b with comment }.Procedures s.Calls ↔ b.Procedures s.Calls :=
  ⟨calls_congr rfl rfl rfl, calls_congr rfl rfl rfl⟩

@[simp]
theorem procedures_setVariable : (setVariable v i).Procedures C ↔ i.Procedures C := by
  simp [setVariable, isProcedureOpcode]

@[simp]
theorem procedures_changeVariable : (changeVariable v i).Procedures C ↔ i.Procedures C := by
  simp [changeVariable, isProcedureOpcode]

@[simp]
theorem procedures_addItem : (addItem list i).Procedures C ↔ i.Procedures C := by
  simp [addItem, isProcedureOpcode]

@[simp]
theorem isMenu_setVariable : (setVariable v i).isMenu = false := rfl

@[simp]
theorem isMenu_changeVariable : (changeVariable v i).isMenu = false := rfl

@[simp]
theorem isMenu_addItem : (addItem list i).isMenu = false := rfl

theorem procedures_choice {condition : Block} {otherwise : Option (List Block)}
    (hc : condition.Procedures C) (hb : ∀ b ∈ bs, b.isMenu = false ∧ b.Procedures C)
    (ho : ∀ other ∈ otherwise, ∀ b ∈ other, b.isMenu = false ∧ b.Procedures C) :
    (choice condition bs otherwise).isMenu = false ∧
      (choice condition bs otherwise).Procedures C := by
  cases otherwise <;> simp_all [choice, isProcedureOpcode]

end Block

-- The inputs of a call are named by the parameters of the function, all of which are given.
theorem Scope.builds_calls (hv : scope.vocabulary.Ordinary) :
    scope.Builds (fun _ => True) (Input.Procedures scope.symbols.Calls)
      (fun b => b.isMenu = false ∧ b.Procedures scope.symbols.Calls) where
  toKeeps := keeps_procedures hv
  procedure {name f args is} hf hl his hi := by
    have he := Expr.forall₂_inputs his
    have hz : (((f.params.map (·.text)).zip is).map (·.1)) = f.params.map (·.text) :=
      List.map_fst_zip (by simp [hl, he.length_eq])
    refine ⟨rfl, Block.procedures_iff.mpr ⟨.inr ⟨rfl, name, f, hf, rfl, ?_, fun i hm bs => ?_⟩,
      fun i hm => hi _ (List.of_mem_zip hm).2, nofun⟩⟩
    · exact congrArg some (congrArg (Mutation.mk f.code · f.warp false) hz)
    · have ⟨_, _, he⟩ := mem_of_forall₂ he (List.of_mem_zip hm).2
      exact Expr.input_ne_stack he
  statement hp hi := by
    have ⟨hp, hm⟩ := hv.statements hp
    exact ⟨decide_eq_false hm, Block.procedures_ofPrototype hp hi⟩
  set _ hi := by simp [hi]
  change _ hi := by simp [hi]
  monitor ha _ := by
    simp only [List.mem_cons, List.not_mem_nil, or_false] at ha
    obtain rfl | rfl := ha <;> simp [isProcedureOpcode, toString]
  listed ha _ := by
    simp only [List.mem_cons, List.not_mem_nil, or_false] at ha
    obtain rfl | rfl := ha <;> simp [isProcedureOpcode, toString]
  emptied _ := by simp [isProcedureOpcode]
  added _ hi := by simp [hi]
  deleted _ hi := by simp [isProcedureOpcode, hi]
  inserted _ hi hj := by simp [isProcedureOpcode, hi, hj]
  replaced _ hi hj := by simp [isProcedureOpcode, hi, hj]
  choice hc _ hs ho := Block.procedures_choice (Input.procedures_block.mp hc) hs fun other hm =>
    (ho other hm).2
  loopUntil hc _ hs := by simp_all [isProcedureOpcode]
  loopTimes hi _ hs := by simp_all [isProcedureOpcode]
  forever _ hs := by simp_all [isProcedureOpcode]
  writtenAt hb := ⟨hb.1, Block.calls_writtenAt.mpr hb.2⟩
  commented hb := ⟨hb.1, Block.calls_setComment.mpr hb.2⟩

theorem Stmt.calls_allBlocks (hv : scope.vocabulary.Ordinary) {ss : List Stmt}
    (hb : Stmt.allBlocks scope ss = .ok bs) :
    ∀ b ∈ bs, b.isMenu = false ∧ b.Procedures scope.symbols.Calls := by
  -- Whatever the macros mention, there is nothing to show of a variable.
  have hl : scope.Binds (fun _ => True) (Ref.Reads (Input.Procedures scope.symbols.Calls))
      (Mention.ofBody (fun _ => []) ss) := fun _ _ _ _ _ => Input.procedures_var
  exact Stmt.builds_allBlocks (Scope.builds_calls hv) (fun _ _ => trivial) hb hl

end Calls

section Definitions

-- Is a block the head of a definition?
def Block.isHead (b : Block) : Bool :=
  b.opcode = "procedures_prototype"

variable {C : Block → Prop} {s : Symbols} {scope : Scope} {b b' : Block} {body : List Block}

namespace Block

-- A call is no head of a definition.
theorem isHead_eq_false (h : b.isProcedure → s.Calls b) : b.isHead = false := by
  by_contra hh
  have ho : b.opcode = "procedures_prototype" := by simpa [isHead] using hh
  have ⟨_, _, _, ht⟩ := h (by simp [isProcedure, isProcedureOpcode, ho])
  exact absurd (ho.symm.trans ht.opcode) (by decide)

theorem procedures_hat {opcode : String} (ho : isProcedureOpcode opcode = false)
    (h : ∀ b ∈ body, b.Procedures C) : (hat opcode body).Procedures C :=
  procedures_iff.mpr ⟨.inl (ordinary_hat.mpr ho), nofun, procedures_blocksAll.mpr h⟩

-- The head of a definition holds a shadow for each parameter.
def head (code : String) (warp : Bool) (params : List String) : Block :=
  { ofKind (.prototype code warp) "procedures_prototype" with
    inputs := params.map fun p => (p, .block (argument p true)) }

theorem blocks_argument {text : String} {shadow : Bool} :
    (argument text shadow).blocks = [argument text shadow] := by
  simp [blocks_eq, argument, Input.blocksAll, BlockKind.blocks]

theorem blocks_head {code : String} {warp : Bool} {params : List String} :
    (head code warp params).blocks =
      head code warp params :: params.map fun p => argument p true := by
  have hs : Input.blocksAll (params.map fun p => (p, Input.block (argument p true))) =
      params.map fun p => argument p true := by
    induction params
    case nil => rfl
    case cons p ps hi =>
      rw [List.map_cons, Input.blocksAll, hi, Input.blocks, blocks_argument, List.map_cons]
      rfl
  rw [blocks_eq, head, hs]
  simp [BlockKind.blocks]

theorem blocks_definition {code : String} {warp : Bool} {params : List String} :
    (definition code warp params body).blocks =
      definition code warp params body :: ((head code warp params).blocks ++ blocksAll body) := by
  have hi : Input.blocksAll (definition code warp params body).inputs =
      (head code warp params).blocks :=
    List.append_nil _
  rw [blocks_eq, hi]
  rfl

theorem tells_head {f : Function} :
    (head f.code f.warp (f.params.map (·.text))).Tells f true where
  opcode   := rfl
  mutation := by simp [head, mutation?, Function.mutation, ofKind, Function.comp_def]
  inputs   := by simp [head]

end Block

-- Some blocks call only functions that are there. Those among them that are heads of definitions
-- are the heads of some functions, in order.
structure Symbols.Defines (s : Symbols) (fs : List Function) (bs : List Block) : Prop where
  heads : List.Forall₂ (fun f b => b.Tells f true) fs (bs.filter Block.isHead)
  calls : ∀ b ∈ bs, b.opcode = "procedures_call" → s.Calls b

namespace Symbols.Defines

open Block

variable {fs gs : List Function} {bs cs : List Block}

theorem nil : s.Defines [] [] :=
  ⟨.nil, nofun⟩

theorem append (h : s.Defines fs bs) (k : s.Defines gs cs) :
    s.Defines (fs ++ gs) (bs ++ cs) where
  heads := by
    rw [List.filter_append]
    exact List.rel_append h.heads k.heads
  calls := List.forall_mem_append.mpr ⟨h.calls, k.calls⟩

-- A block that does not tell about functions does not matter.
theorem cons_iff (hb : b.isProcedure = false) : s.Defines fs (b :: bs) ↔ s.Defines fs bs := by
  have hn : b.opcode ≠ "procedures_call" ∧ b.opcode ≠ "procedures_prototype" := by
    simpa [isProcedure, isProcedureOpcode] using hb
  have hf : (b :: bs).filter isHead = bs.filter isHead :=
    List.filter_cons_of_neg (by simp [isHead, hn])
  refine ⟨fun h => ⟨hf ▸ h.heads, (List.forall_mem_cons.mp h.calls).2⟩, fun h => ⟨?_, ?_⟩⟩
  · rw [hf]
    exact h.heads
  · exact List.forall_mem_cons.mpr ⟨fun ho => absurd ho hn.1, h.calls⟩

theorem ofCalls (h : ∀ b ∈ bs, b.isProcedure → s.Calls b) : s.Defines [] bs where
  heads := by
    have hn : bs.filter isHead = [] :=
      List.filter_eq_nil_iff.mpr fun b hb => by simp [isHead_eq_false (h b hb)]
    rw [hn]
    exact .nil
  calls b hb ho := h b hb (by simp [isProcedure, isProcedureOpcode, ho])

theorem ofHead {f : Function} :
    s.Defines [f] (head f.code f.warp (f.params.map (·.text))).blocks := by
  have hp : s.Defines [] ((f.params.map (·.text)).map fun p => argument p true) := by
    refine ofCalls fun b hb hp => ?_
    obtain ⟨_, _, rfl⟩ := List.mem_map.mp hb
    contradiction
  have hh : s.Defines [f] [head f.code f.warp (f.params.map (·.text))] :=
    ⟨.cons tells_head .nil, by simp [head, ofKind]⟩
  rw [blocks_head]
  exact hh.append hp

theorem ofDefinition {f : Function} (h : ∀ b ∈ body, b.Procedures s.Calls) :
    s.Defines [f] (definition f.code f.warp (f.params.map (·.text)) body).blocks := by
  rw [blocks_definition]
  have h := ofCalls fun b hb => (procedures_blocksAll.mpr h b hb).of_isProcedure
  exact (cons_iff rfl).mpr (ofHead.append h)

-- Of a block that does not tell about functions itself, only what is in it matters.
theorem congr (h : s.Defines fs b.blocks) (hb : b.isProcedure = false)
    (ho : b'.opcode = b.opcode) (hi : b'.inputs = b.inputs) (hk : b'.kind.blocks = b.kind.blocks) :
    s.Defines fs b'.blocks := by
  have hb' : b'.isProcedure = false := by rw [isProcedure, ho]; exact hb
  rw [blocks_eq, cons_iff hb] at h
  rw [blocks_eq, cons_iff hb', hi, hk]
  exact h

-- A start of a script does not tell about functions itself.
theorem isProcedure_eq_false (h : s.Defines fs b.blocks) {place : Nat × Nat}
    (hk : b.kind = .hat body place) : b.isProcedure = false := by
  have ht : ∀ {f defines}, ¬b.Tells f defines := by
    intro f defines ht
    simpa [mutation?, hk] using ht.mutation
  have hh : b.isHead = false := by
    by_contra hh
    have hm : b ∈ b.blocks.filter isHead := by simpa [self_mem_blocks] using hh
    obtain ⟨_, _, hb⟩ := mem_of_forall₂ h.heads hm
    exact ht hb
  have hc : b.opcode ≠ "procedures_call" := by
    intro ho
    obtain ⟨_, _, _, hb⟩ := h.calls b self_mem_blocks ho
    exact ht hb
  have hh : b.opcode ≠ "procedures_prototype" := by simpa [isHead] using hh
  simp [isProcedure, isProcedureOpcode, hc, hh]

theorem placed (h : s.Defines fs b.blocks) (hp : Layout.Placed b b') :
    s.Defines fs b'.blocks := by
  cases hp
  case hat hk => exact h.congr (h.isProcedure_eq_false hk) rfl rfl (by rw [hk]; rfl)
  case other => exact h

end Symbols.Defines

-- The thresholds of events are expressions, in which there are no calls.
theorem Event.calls_hat {event : Event} (hb : event.hat scope body = .ok b)
    (h : ∀ b ∈ body, b.Procedures scope.symbols.Calls) (hv : scope.vocabulary.Ordinary) :
    b.Procedures scope.symbols.Calls := by
  have hh : ∀ opcode, isProcedureOpcode opcode = false →
      (Block.hat opcode body).Procedures scope.symbols.Calls :=
    fun _ ho => Block.procedures_hat ho h
  cases event
  case flag | click | clone =>
    obtain rfl := pure_eq_ok.mp hb
    simp [isProcedureOpcode, hh]
  case message token | key token | backdrop token =>
    obtain ⟨_, _, hb⟩ := bind_eq_ok.mp hb
    obtain rfl := pure_eq_ok.mp hb
    simp [isProcedureOpcode, hh]
  case loudness e | timer e =>
    obtain ⟨_, he, hb⟩ := bind_eq_ok.mp hb
    obtain rfl := pure_eq_ok.mp hb
    simp [Event.hat.exceeds, isProcedureOpcode, hh, Expr.procedures_input hv he]

theorem Stmt.calls_stack {ss : List Stmt} (h : Stmt.stack scope ss = .ok body)
    (hv : scope.vocabulary.Ordinary) : ∀ b ∈ body, b.Procedures scope.symbols.Calls := by
  have ⟨_, hs, hs'⟩ := bind_eq_ok.mp h
  exact Block.stacked_eq_ok hs' ▸ fun b hb => (Stmt.calls_allBlocks hv hs b hb).2

namespace Sprite

variable {vocabulary : Vocabulary} {d : Decl} {tree : SpriteTree}

-- The local variables of a function do not matter to what is told about it.
theorem Script.defines (h : Script vocabulary s d b) (hv : vocabulary.Ordinary)
    (hd : ∀ f ∈ d.function?, ∃ locals, s.functions[f.name.text]? = some { f with locals }) :
    s.Defines d.function?.toList b.blocks := by
  cases h
  case function name params body warp f bs hf hb =>
    have ⟨locals, hf'⟩ := hd _ rfl
    obtain rfl := Option.some.inj (hf.symm.trans hf')
    have hb := Stmt.calls_stack hb hv
    have hd := Symbols.Defines.ofDefinition (f := ⟨name, warp, params, [], none⟩) hb
    exact hd.congr rfl rfl rfl rfl
  case event span event body bs b hb he =>
    have hc := Event.calls_hat he (Stmt.calls_stack hb hv) hv
    exact .ofCalls fun b hb => (Block.calls_writtenAt.mpr hc b hb).of_isProcedure

theorem function?_of_script? (h : script? vocabulary s d = .ok none) : d.function? = none := by
  cases d
  case function =>
    simp only [script?] at h
    split at h
    case h_1 => contradiction
    case h_2 =>
      obtain ⟨_, _, h⟩ := bind_eq_ok.mp h
      cases pure_eq_ok.mp h
  all_goals rfl

-- The scripts of a tree define the functions of the tree, wherever they are placed.
theorem defines_scripts {scripts : List (Option Block)} {bs : List Block}
    (hv : vocabulary.Ordinary)
    (h : List.Forall₂ (fun d o => script? vocabulary s d = .ok o) tree scripts)
    (hp : List.Forall₂ Layout.Placed (scripts.filterMap id) bs)
    (hd : ∀ f ∈ tree.functions, ∃ locals, s.functions[f.name.text]? = some { f with locals }) :
    s.Defines tree.functions (Block.blocksAll bs) := by
  induction h generalizing bs
  case nil =>
    cases hp
    exact .nil
  case cons d o ds os ho _ hi =>
    rw [SpriteTree.functions_cons] at hd ⊢
    have ⟨hd, hds⟩ := List.forall_mem_append.mp hd
    cases o
    case none =>
      rw [function?_of_script? ho]
      exact hi hp hds
    case some b =>
      cases (hp : List.Forall₂ Layout.Placed (b :: os.filterMap id) bs)
      case cons hp hps =>
        have hs := (script_of_script? ho).defines hv fun f hf => hd f (Option.mem_toList.mpr hf)
        exact (hs.placed hp).append (hi hps hds)

end Sprite

end Definitions

end BlockLang
