import BlockLang.Proofs.Graph.Slots
import BlockLang.Proofs.Project.Links
import BlockLang.Proofs.Sprite.Shadow

/-!
How the inputs of records hold other records, and which records are shadows.
-/

namespace BlockLang

namespace Document

-- Does a record say that it is a shadow?
def isShadow (record : Document) : Bool :=
  match record.member? "shadow" with
  | some (bool b) => b
  | _ => false

-- An input that holds a record as a shadow.
def shadowLink (id : String) : Document :=
  list [int 1, text id]

def shadowId? : Document → Option String
  | list [int 1, text id] => some id
  | _ => none

-- An input that only what has the same shape fits into.
def shapedLink (id : String) : Document :=
  list [int 2, text id]

-- An input that is an empty text without the record in it.
def reporterLink (id : String) : Document :=
  list [int 3, text id, list [int 10, text ""]]

-- What is held as a shadow in a target, and whether it says that it is one.
def heldShadows (target : Document) : List (String × Option Bool) :=
  target.blocks.flatMap fun (_, record) => (record.entries "inputs").filterMap fun (_, tuple) =>
    tuple.shadowId?.map fun id => (id, (target.blocks.lookup id).map isShadow)

theorem eq_of_shadowId? {tuple : Document} {id : String} (h : tuple.shadowId? = some id) :
    tuple = shadowLink id := by
  unfold shadowId? at h
  split at h
  · exact Option.some.inj h ▸ rfl
  · contradiction

theorem of_mem_heldShadows {target : Document} {held : String} {shadow : Bool}
    (h : (held, some shadow) ∈ target.heldShadows) : ∃ id r name q, (id, r) ∈ target.blocks ∧
      (name, shadowLink held) ∈ r.entries "inputs" ∧ (held, q) ∈ target.blocks ∧
      q.isShadow = shadow := by
  obtain ⟨⟨id, r⟩, hr, h⟩ := List.mem_flatMap.mp h
  obtain ⟨⟨name, tuple⟩, ht, h⟩ := List.mem_filterMap.mp h
  obtain ⟨_, hi, h⟩ := Option.map_eq_some_iff.mp h
  obtain ⟨rfl, hs⟩ := Prod.mk.inj h
  obtain ⟨q, hq, hs⟩ := Option.map_eq_some_iff.mp hs
  exact ⟨id, r, name, q, hr, eq_of_shadowId? hi ▸ ht, mem_of_lookup_eq_some hq, hs⟩

end Document

open Document

namespace Record

variable {r : Record}

theorem member?_shadow : r.document.member? "shadow" = some (.bool r.shadow) := by
  simp [Record.document, member?_ofMembers, List.lookup_append, List.lookup_cons, lookup_toList_map,
    reverse_toList, -Option.map_map]

@[simp]
theorem isShadow_document : r.document.isShadow = r.shadow := by
  simp [isShadow, member?_shadow]

theorem mem_entries_document {name : String} {d : Document}
    (h : (name, d) ∈ r.document.entries "inputs") :
    ∃ s, (name, s) ∈ r.slots ∧ s.document = d := by
  rw [entries, member?_inputs, Option.map_some, Option.getD_some] at h
  obtain ⟨⟨_, s⟩, hs, he⟩ := List.mem_map.mp (mem_of_mem_ofMembers h)
  obtain ⟨rfl, rfl⟩ := Prod.mk.inj he
  exact ⟨s, hs, rfl⟩

end Record

-- How an input is to hold the record of the first of its blocks: as a shadow if it is one, or else
-- with its shape if it has one. The exception is the argument of a call for a parameter which has
-- the name under which a definition holds its head.
structure Document.Plugged (call : Bool) (i : Input) (held : String) (record tuple : Document) :
    Prop where
  shadow   : tuple = shadowLink held ↔ record.isShadow ∨ i.isShaped = false ∧ call
  shaped   : tuple = shapedLink held ↔ i.isShaped
  reporter : tuple = reporterLink held ↔
    i.isShaped = false ∧ record.isShadow = false ∧ call = false

-- Each record of a target is that of a block, and holds the records of the blocks in its inputs.
structure Sprite.MarksShadows (s : Sprite) (target : Document) (blockOf : String → Block) :
    Prop where
  blocks : ∀ {id r}, (id, r) ∈ target.blocks → blockOf id ∈ Block.blocksAll s.blocks ∧
    r.opcode? = some (blockOf id).opcode ∧ r.isShadow = (blockOf id).isShadow
  inputs : ∀ {id r name tuple held}, (id, r) ∈ target.blocks →
    (name, tuple) ∈ r.entries "inputs" → tuple.heldId? = some held →
    ∃ i q, (name, i) ∈ (blockOf id).inputs ∧ i.first? = some (blockOf held) ∧
      (held, q) ∈ target.blocks ∧ Plugged ((blockOf id).passesHead name) i held q tuple

section Slots

variable {pairs : List (Block × Record)} {b c : Block} {r : Record} {i : Input} {name held : String}
  {s : Slot} {id : Nat}

-- A slot with a record in it is that of the first block of an input.
theorem Slot.Of.exists_first (h : Slot.Of pairs name i s) (hs : s.id? = some id) :
    ∃ c r, (c, r) ∈ pairs ∧ r.id = id ∧ i.first? = some c ∧
      s = if i.isShaped then .shaped id
        else if c.isMenu || name = "custom_block" || c.isShadowArgument then .shadow id
        else .reporter id := by
  cases h
  case block c r hm =>
    obtain rfl : r.id = id := Option.some.inj (Block.id?_slot.symm.trans hs)
    exact ⟨c, r, hm, rfl, rfl, by simp [Block.slot, Input.isShaped]⟩
  case stack c cs r hm =>
    obtain rfl : r.id = id := Option.some.inj hs
    exact ⟨c, r, hm, rfl, rfl, rfl⟩
  all_goals cases hs

theorem Block.MarksInput.plugged (h : b.MarksInput name i c) (hr : r.shadow = c.isShadow)
    (hs : s = if i.isShaped then .shaped r.id
      else if c.isMenu || name = "custom_block" || c.isShadowArgument then .shadow r.id
      else .reporter r.id) :
    Plugged (b.passesHead name) i (Record.idText r.id) r.document s.document := by
  subst hs
  cases hi : i.isShaped
  case true =>
    have hc := hr.trans (h.shaped hi)
    constructor <;> simp [Slot.document, shadowLink, shapedLink, reporterLink, hi, hc]
  case false =>
    have hm := h.shadow hi
    rw [← hr] at hm
    cases hc : (r.shadow || b.passesHead name)
    case true =>
      rw [hc] at hm
      simp only [Bool.or_eq_true] at hc
      have hn : ¬(r.shadow = false ∧ b.passesHead name = false) := by
        cases hc <;> simp_all
      constructor <;> simp [Slot.document, shadowLink, shapedLink, reporterLink, hi, hm, hc, hn]
    case false =>
      rw [hc] at hm
      have ⟨hr, hp⟩ : r.shadow = false ∧ b.passesHead name = false := by simpa using hc
      constructor <;>
        simp [Slot.document, Slot.document.emptyText, shadowLink, shapedLink, reporterLink, hi, hm,
          hr, hp]

end Slots

namespace Sprite

variable {s : Sprite} {target : Document}

-- The block that a record with some name is paired with.
def pairedBlock (pairs : List (Block × Record)) (id : String) : Block :=
  ((pairs.map fun p => (Record.idText p.2.id, p.1)).lookup id).getD default

theorem pairedBlock_eq {bs : List Block} {rs : List Record} (hl : bs.length = rs.length)
    (hn : (rs.map (·.id)).Nodup) {b : Block} {r : Record} (h : (b, r) ∈ bs.zip rs) :
    pairedBlock (bs.zip rs) (Record.idText r.id) = b := by
  have hk : (((bs.zip rs).map fun p => (Record.idText p.2.id, p.1)).map (·.1)).Nodup := by
    have hm : (((bs.zip rs).map fun p => (Record.idText p.2.id, p.1)).map (·.1)) =
        (((bs.zip rs).map (·.2)).map (·.id)).map Record.idText := by simp
    rw [hm, List.map_snd_zip (Nat.le_of_eq hl.symm)]
    exact hn.map Record.idText_injective
  rw [pairedBlock, (lookup_eq_some_iff_mem hk).mpr (List.mem_map.mpr ⟨_, h, rfl⟩)]
  rfl

theorem exists_marksShadows (h : ∀ b ∈ Block.blocksAll s.blocks, b.Marks)
    (ht : Project.Target s target) : ∃ blockOf, s.MarksShadows target blockOf := by
  obtain ⟨fresh, costumes, layer, messages, rfl⟩ := ht
  let rs := (Block.flattenScripts fresh s.blocks).records
  let pairs := (Block.blocksAll s.blocks).zip rs
  have hp : List.Forall₂ (Record.Plugs pairs) (Block.blocksAll s.blocks) rs :=
    Block.flattenScripts_plugs (List.Subset.refl _)
  have hn : (rs.map (·.id)).Nodup :=
    (Block.flattenScripts_numbers s.blocks fresh).ids.nodup_iff.mpr List.nodup_range'
  have hb {b r} (hm : (b, r) ∈ pairs) : pairedBlock pairs (Record.idText r.id) = b :=
    pairedBlock_eq hp.length_eq hn hm
  have hz {b r} (hm : (b, r) ∈ pairs) : Record.Plugs pairs b r := (List.forall₂_iff_zip.mp hp).2 hm
  -- Each record is paired with a block.
  have hr {r} (hm : r ∈ rs) : ∃ b, (b, r) ∈ pairs := by
    rw [← List.map_snd_zip (Nat.le_of_eq hp.length_eq.symm)] at hm
    have ⟨⟨b, _⟩, hm, he⟩ := List.mem_map.mp hm
    exact ⟨b, he ▸ hm⟩
  refine ⟨pairedBlock pairs, ⟨fun hd => ?blocks, fun hd ht hh => ?inputs⟩⟩
  case blocks =>
    obtain ⟨r, hrs, rfl, rfl⟩ := (mem_blocks_document hn).mp hd
    have ⟨b, hm⟩ := hr hrs
    rw [hb hm, Record.opcode?_document, Record.isShadow_document, (hz hm).opcode]
    exact ⟨(List.of_mem_zip hm).1, rfl, (hz hm).shadow⟩
  case inputs =>
    obtain ⟨r, hrs, rfl, rfl⟩ := (mem_blocks_document hn).mp hd
    obtain ⟨slot, hs, rfl⟩ := Record.mem_entries_document ht
    have ⟨b, hm⟩ := hr hrs
    have ⟨i, hi, ho⟩ := (hz hm).slots _ hs
    rw [Record.heldId?_document] at hh
    obtain ⟨id, hid, rfl⟩ := Option.map_eq_some_iff.mp hh
    obtain ⟨c, q, hq, rfl, hf, he⟩ := ho.exists_first hid
    have hi' := h b (List.of_mem_zip hm).1 _ i c hi hf
    rw [hb hm, hb hq]
    exact ⟨i, q.document, hi, hf,
      (mem_blocks_document hn).mpr ⟨q, (List.of_mem_zip hq).2, rfl, rfl⟩,
      hi'.plugged (hz hq).shadow he⟩

end Sprite

theorem Compiled.marks {source : FileSource} {root : Path} {globals : Globals} {tree : SpriteTree}
    {symbols : Symbols} {s : Sprite} (h : Compiled source root globals tree symbols s) :
    ∀ b ∈ Block.blocksAll s.blocks, b.Marks := by
  refine Block.forall_mem_blocksAll.mpr fun b hb => ?_
  have ⟨_, _, _, _, _, hs, hp⟩ := h.script_of_mem hb
  exact hp.marks (hs.marks Vocabulary.builtin_ordinary)

namespace Project

theorem document_marksShadows {source : FileSource} {root : Path} {p : Project}
    (h : (compile source root).result = .ok p) (costumes : List (List Costume)) :
    List.Forall₂ (fun s target => ∃ blockOf, s.MarksShadows target blockOf) p.targets
      (p.document costumes).targets := by
  have ht : List.Forall₂ Target p.targets (p.document costumes).targets := forall₂_targets_document
  have ⟨hl, ht⟩ := List.forall₂_iff_zip.mp ht
  refine List.forall₂_iff_zip.mpr ⟨hl, fun {s t} hz => ?_⟩
  have ⟨_, _, _, hc, _⟩ := compiled_of_mem_targets h (List.of_mem_zip hz).1
  exact Sprite.exists_marksShadows hc.marks (ht hz)

-- A sprite whose function has a parameter with the name under which definitions hold their heads.
def shadowFiles : FileSource :=
  { sampleFiles with
    readBytes file :=
      if file.text = "p/stage.gs" then .ok "costumes \"a\";\n".toUTF8
      else if file.text = "p/cat.gs" then
        .ok ("costumes \"a\";\nvariables x;\ndef f custom_block \x7b x = $custom_block; \x7d\n" ++
          "onflag \x7b f x + 1; \x7d\n").toUTF8
      else .error (.absent file) }

theorem exists_compile_shadowFiles : ∃ p, (compile shadowFiles ⟨"p"⟩).result = .ok p ∧
    (p.document []).targets.map heldShadows =
      [[], [("block_2", some true), ("block_3", some true), ("block_8", some false)]] := by
  have h : (compile shadowFiles ⟨"p"⟩).result.toOption.map
      (fun p => (p.document []).targets.map heldShadows) =
      some [[], [("block_2", some true), ("block_3", some true), ("block_8", some false)]] := by
    decide +kernel
  cases hp : (compile shadowFiles ⟨"p"⟩).result
  case error e => simp [hp, Except.toOption] at h
  case ok p =>
    rw [hp] at h
    exact ⟨p, rfl, Option.some.inj h⟩

theorem document_shadowFiles_marksShadows : ∃ p, (compile shadowFiles ⟨"p"⟩).result = .ok p ∧
    (p.document []).targets.map heldShadows =
      [[], [("block_2", some true), ("block_3", some true), ("block_8", some false)]] ∧
    List.Forall₂ (fun s target => ∃ blockOf, s.MarksShadows target blockOf) p.targets
      (p.document []).targets :=
  have ⟨p, hp, hs⟩ := exists_compile_shadowFiles
  ⟨p, hp, hs, document_marksShadows hp []⟩

-- The argument for this parameter is held as a shadow, which it is not.
theorem shadowLink_without_shadow : ∃ p target id r name held q,
    (compile shadowFiles ⟨"p"⟩).result = .ok p ∧ target ∈ (p.document []).targets ∧
    (id, r) ∈ target.blocks ∧ (name, shadowLink held) ∈ r.entries "inputs" ∧
    (held, q) ∈ target.blocks ∧ q.isShadow = false := by
  have ⟨p, hp, hs⟩ := exists_compile_shadowFiles
  have hm : [("block_2", some true), ("block_3", some true), ("block_8", some false)] ∈
      (p.document []).targets.map heldShadows := by simp [hs]
  have ⟨target, ht, he⟩ := List.mem_map.mp hm
  have hh : ("block_8", some false) ∈ target.heldShadows := by simp [he]
  have ⟨id, r, name, q, hr, hn, hq, hf⟩ := of_mem_heldShadows hh
  exact ⟨p, target, id, r, name, _, q, hp, ht, hr, hn, hq, hf⟩

end Project

end BlockLang
