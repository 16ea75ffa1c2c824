import BlockLang.Proofs.Project.Sprites
import BlockLang.Proofs.Sprite.Messages

/-!
What a project tells of its blocks as a whole agrees with their records: whether there is one for
the pen, and which messages start scripts.
-/

namespace BlockLang

section Opcodes

variable {f : String → Bool}

-- All blocks are asked, at any depth.
mutual

theorem Input.anyOpcode_eq : ∀ (i : Input), i.anyOpcode f = i.blocks.any (f ·.opcode)
  | .literal _ | .var _ | .list _ => rfl
  | .block b => by
    rw [Input.anyOpcode, Input.blocks]
    exact Block.anyOpcode_eq b
  | .stack bs => by
    rw [Input.anyOpcode, Input.blocks]
    exact Block.anyOpcodes_eq bs

theorem Block.anyOpcode_eq : ∀ (b : Block), b.anyOpcode f = b.blocks.any (f ·.opcode)
  | ⟨_, kind, inputs, _, _, _⟩ => by
    rw [Block.anyOpcode, Block.blocks, List.any_cons, List.any_append, Input.anyOpcodes_eq inputs,
      BlockKind.anyOpcode_eq kind, Bool.or_assoc]

theorem BlockKind.anyOpcode_eq : ∀ (kind : BlockKind),
    kind.anyOpcode f = kind.blocks.any (f ·.opcode)
  | .hat body _ => by
    rw [BlockKind.anyOpcode, BlockKind.blocks]
    exact Block.anyOpcodes_eq body
  | .plain | .condition | .argument _ | .call _ _ | .prototype _ _ => rfl

theorem Block.anyOpcodes_eq : ∀ (bs : List Block),
    Block.anyOpcodes f bs = (Block.blocksAll bs).any (f ·.opcode)
  | [] => rfl
  | b :: bs => by
    rw [Block.anyOpcodes, Block.blocksAll, List.any_append, Block.anyOpcode_eq b,
      Block.anyOpcodes_eq bs]

theorem Input.anyOpcodes_eq : ∀ (is : List (String × Input)),
    Input.anyOpcodes f is = (Input.blocksAll is).any (f ·.opcode)
  | [] => rfl
  | (_, i) :: is => by
    rw [Input.anyOpcodes, Input.blocksAll, List.any_append, Input.anyOpcode_eq i,
      Input.anyOpcodes_eq is]

end

end Opcodes

namespace Document

-- What the project needs beyond the usual blocks.
def extensions (project : Document) : List Document :=
  ((project.member? "extensions").map items).getD []

-- The text that a field holds.
def fieldText? : Document → Option String
  | list (text t :: _) => some t
  | _ => none

-- The message that starts the script which a record stands at the start of.
def message? (record : Document) : Option String :=
  if record.opcode? = some "event_whenbroadcastreceived" then
    ((record.entries "fields").lookup "BROADCAST_OPTION").bind fieldText?
  else none

-- Some record of a target of a project satisfies `P`.
def HasRecord (project : Document) (P : Document → Prop) : Prop :=
  ∃ target ∈ project.targets, ∃ id record, (id, record) ∈ target.blocks ∧ P record

-- The stage tells the messages that start the scripts of all targets. Each stands for itself.
structure TellsMessages (project stage : Document) (sprites : List Document) : Prop where
  targets : project.targets = stage :: sprites
  isStage : stage.member? "isStage" = some (.bool true)
  stage   : ∃ broadcasts, stage.member? "broadcasts" = some (.object broadcasts) ∧
    (broadcasts.map (·.1)).Nodup ∧ ∀ m d, (m, d) ∈ broadcasts ↔
      d = .text m ∧ project.HasRecord fun record => record.message? = some m
  sprites : ∀ sprite ∈ sprites, sprite.member? "broadcasts" = some (.object [])

structure Summarizes (project : Document) : Prop where
  pen      : .text "pen" ∈ project.extensions ↔ project.HasRecord fun record =>
    ∃ opcode, record.opcode? = some opcode ∧ "pen_".toList <+: opcode.toList
  messages : ∃ stage sprites, project.TellsMessages stage sprites

end Document

open Document

-- A record tells the message that its block does.
theorem Record.Of.message? {b : Block} {r : Record} (h : Record.Of b r)
    (hb : isReceiver b.opcode → ∃ m, b.fields = [("BROADCAST_OPTION", .var m)]) :
    r.document.message? = Project.message? b := by
  unfold Document.message? Project.message?
  simp only [Record.opcode?_document, h.opcode, Option.some.injEq]
  split
  case isFalse => rfl
  case isTrue ho =>
    have ⟨m, hm⟩ := hb (decide_eq_true ho)
    have he : r.document.entries "fields" =
        (ofMembers [("BROADCAST_OPTION", (Field.var m).document)]).members := by
      simp [entries, Record.member?_fields, h.fields, hm]
    have hf : b.field? "BROADCAST_OPTION" = some (.var m) := by simp [Block.field?, hm]
    rw [he, hf, ← Document.member?, member?_ofMembers]
    simp [Field.document, fieldText?]

theorem Compiled.heardFirst {source : FileSource} {root : Path} {globals : Globals}
    {tree : SpriteTree} {symbols : Symbols} {s : Sprite}
    (h : Compiled source root globals tree symbols s) :
    ∀ b ∈ s.blocks, b.HeardFirst := by
  intro b hb
  have ⟨_, _, b', _, _, hs, hp⟩ := h.script_of_mem hb
  exact (hs.heardFirst Vocabulary.builtin_unheard).placed hp

namespace Project

variable {s : Sprite} {target : Document} {p : Project} {costumes : List (List Costume)}
  {m : String}

-- Of the blocks of a script only the first one can tell a message.
theorem exists_message_iff {bs : List Block} (h : ∀ b ∈ bs, b.HeardFirst) :
    (∃ b ∈ Block.blocksAll bs, message? b = some m) ↔ ∃ b ∈ bs, message? b = some m := by
  have hn {b} (hb : isReceiver b.opcode = false) : message? b = none := by
    simp [message?, of_decide_eq_false hb]
  induction bs
  case nil => simp [Block.blocksAll]
  case cons b bs hi =>
    have ⟨hb, hbs⟩ := List.forall_mem_cons.mp h
    have hr : ¬∃ c ∈ b.blocks.tail, message? c = some m :=
      fun ⟨c, hc, he⟩ => by simp [hn (hb.rest c hc)] at he
    rw [Block.blocks_eq, List.tail_cons] at hr
    rw [Block.blocksAll, Block.blocks_eq]
    simp only [List.mem_cons, List.mem_append, or_and_right, exists_or, exists_eq_left,
      ← hi hbs] at hr ⊢
    rw [or_iff_left hr]

-- Records of a project are looked for as the blocks of its scripts are.
theorem hasRecord_iff {P : Document → Prop} {Q : Block → Prop}
    (h : ∀ s ∈ p.targets, ∀ b ∈ Block.blocksAll s.blocks, ∀ r, Record.Of b r →
      (Q b ↔ P r.document)) :
    (p.document costumes).HasRecord P ↔
      ∃ s ∈ p.targets, ∃ b ∈ Block.blocksAll s.blocks, Q b := by
  have ht : List.Forall₂ Target p.targets (p.document costumes).targets := forall₂_targets_document
  have ht := (List.forall₂_and_left _ _).mpr ⟨h, ht⟩
  refine (exists_mem_iff_of_forall₂ ht fun ⟨hq, ht⟩ => ?_).symm
  have ⟨rs, hr, hp⟩ := ht.exists_blocks
  rw [exists_mem_iff_of_forall₂ ((List.forall₂_and_left _ _).mpr ⟨hq, hr⟩) fun h => h.1 _ h.2]
  have hm {target : Document} (hp : (target.blocks.map (·.2)).Perm (rs.map Record.document)) :
      (∃ d ∈ target.blocks.map (·.2), P d) ↔ ∃ d ∈ rs.map Record.document, P d := by
    simp only [hp.mem_iff]
  simpa [exists_comm] using (hm hp).symm

theorem hasRecord_pen_iff : ((p.document costumes).HasRecord fun record =>
    ∃ opcode, record.opcode? = some opcode ∧ "pen_".toList <+: opcode.toList) ↔ p.usesPen := by
  rw [hasRecord_iff (Q := fun b => isPenOpcode b.opcode)]
  · simp [usesPen, Block.anyOpcodes_eq]
  · intro s _ b _ r hr
    simp [hr.opcode, isPenOpcode, List.isPrefixOf_iff_prefix]

theorem hasRecord_message_iff (h : ∀ s ∈ p.targets, ∀ b ∈ s.blocks, b.HeardFirst) :
    ((p.document costumes).HasRecord fun record => record.message? = some m) ↔
      m ∈ p.messages := by
  rw [hasRecord_iff (Q := fun b => message? b = some m)]
  · simp only [messages, List.mem_flatMap, List.mem_filterMap]
    exact exists_congr fun s => and_congr_right fun hs => exists_message_iff (h s hs)
  · intro s hs b hb r hr
    have hm : ∀ b ∈ Block.blocksAll s.blocks,
        isReceiver b.opcode → ∃ m, b.fields = [("BROADCAST_OPTION", .var m)] :=
      Block.forall_mem_blocksAll.mpr fun b hb _ hc => (h s hs b hb).message_of_mem hc
    rw [hr.message? (hm b hb)]

theorem not_stage_of_spriteFiles {source : FileSource} {root : Path}
    {sprites : List (String × Path)} (h : spriteFiles source root = .ok sprites) :
    ∀ f ∈ sprites, f.1 ≠ Sprite.stageName := by
  unfold spriteFiles at h
  repeat' split at h
  all_goals first
    | contradiction
    | exact (of_spritesAmong h).2.2

-- Only the stage is named as the stage is.
theorem names_of_compile {source : FileSource} {root : Path}
    (h : (compile source root).result = .ok p) :
    p.stage.name = Sprite.stageName ∧ Sprite.stageName ∉ p.sprites.map (·.name) := by
  simp only [compile, Progress.result_bind_eq_ok, Progress.result_pure_eq_ok,
    Progress.result_ofExcept] at h
  obtain ⟨files, hf, _, _, ⟨stage, globals⟩, hs, sprites, hss, rfl⟩ := h
  refine ⟨name_of_compileFile hs, fun hm => ?_⟩
  obtain ⟨s, hs, hn⟩ := List.mem_map.mp hm
  obtain ⟨f, hm, _, hc⟩ := mem_of_forall₂ (forall₂_of_compileSprites hss) hs
  exact not_stage_of_spriteFiles hf f hm ((name_of_compileFile hc).symm.trans hn)

section Members

variable {records : List Record} {own : List Costume} {layer : Nat} {messages : List String}

theorem member?_isStage : (s.document records own layer messages).member? "isStage" =
    some (.bool s.isStage) := by
  cases h : s.isStage <;>
    simp [Sprite.document, Sprite.extraMembers, member?_ofMembers, List.lookup_cons, h]

theorem member?_broadcasts : (s.document records own layer messages).member? "broadcasts" =
    some (.ofMembers (if s.isStage then messages.map fun m => (m, .text m) else [])) := by
  cases h : s.isStage <;>
    simp [Sprite.document, Sprite.extraMembers, member?_ofMembers, List.lookup_cons, h]

end Members

theorem document_summarizes {source : FileSource} {root : Path}
    (h : (compile source root).result = .ok p) (costumes : List (List Costume)) :
    (p.document costumes).Summarizes where
  pen      := by
    rw [hasRecord_pen_iff]
    cases hp : p.usesPen <;>
      simp [extensions, document, member?_ofMembers, List.lookup_cons, hp]
  messages := by
    obtain ⟨hs, hss⟩ := names_of_compile h
    have hf : ∀ s ∈ p.targets, ∀ b ∈ s.blocks, b.HeardFirst := by
      intro s hm
      obtain ⟨_, _, _, hc, _⟩ := compiled_of_mem_targets h hm
      exact hc.heardFirst
    have hd : List.Forall₂ _ p.targets.zipIdx (p.document costumes).targets :=
      forall₂_zipIdx_document
    obtain ⟨stage, sprites, ⟨_, hst⟩, hsp, he⟩ := List.forall₂_cons_left_iff.mp hd
    refine ⟨stage, sprites, he, ?isStage, ?stage, ?sprites⟩
    case isStage => simp [hst, member?_isStage, Sprite.isStage, hs]
    case stage =>
      have hb : stage.member? "broadcasts" =
          some (.ofMembers (p.messages.map fun m => (m, .text m))) := by
        rw [hst, member?_broadcasts, if_pos (by simp [Sprite.isStage, hs])]
      refine ⟨(ofMembers (p.messages.map fun m => (m, .text m))).members, hb, nodup_keys_ofMembers,
        fun m d => ?_⟩
      rw [mem_ofMembers_map, hasRecord_message_iff hf, and_comm]
    case sprites =>
      intro sprite hm
      obtain ⟨x, hx, _, rfl⟩ := mem_of_forall₂ hsp hm
      have hn : x.1.name ≠ Sprite.stageName := fun he =>
        hss (List.mem_map.mpr ⟨x.1, List.fst_mem_of_mem_zipIdx hx, he⟩)
      rw [member?_broadcasts, if_neg (by simp [Sprite.isStage, hn])]
      rfl

-- A message that scripts of two targets wait for, one that nobody waits for, and the pen in a
-- branch.
def drawFiles : FileSource :=
  { sampleFiles with
    readBytes file :=
      if file.text = "p/stage.gs" then
        .ok "costumes \"a\";\non \"go\" \x7b broadcast \"done\"; \x7d\n".toUTF8
      else if file.text = "p/cat.gs" then
        .ok ("costumes \"a\";\non \"go\" \x7b if timer() > 2 \x7b stamp; \x7d \x7d\n" ++
          "on \"draw\" \x7b \x7d\n").toUTF8
      else .error (.absent file) }

-- What the project of these files tells: its extensions, and the messages of each target.
def summary (project : Document) : List (Option String) × List (List (String × Option String)) :=
  (project.extensions.map text?,
    project.targets.map fun target => (target.entries "broadcasts").map fun (m, d) => (m, d.text?))

theorem document_drawFiles_summarizes :
    ∃ p, (compile drawFiles ⟨"p"⟩).result = .ok p ∧
      summary (p.document []) = ([some "pen"], [[("draw", some "draw"), ("go", some "go")], []]) ∧
      (p.document []).Summarizes := by
  have h : (compile drawFiles ⟨"p"⟩).result.toOption.map (fun p => summary (p.document [])) =
      some ([some "pen"], [[("draw", some "draw"), ("go", some "go")], []]) := by
    decide +kernel
  cases hp : (compile drawFiles ⟨"p"⟩).result
  case error e => simp [hp, Except.toOption] at h
  case ok p =>
    rw [hp] at h
    exact ⟨p, rfl, Option.some.inj h, document_summarizes hp []⟩

end Project

end BlockLang
