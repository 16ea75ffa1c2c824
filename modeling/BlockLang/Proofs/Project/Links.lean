import BlockLang.Proofs.Project.Compile

/-!
The records of a compiled project form forests, with links that agree in both directions.
-/

namespace BlockLang

open Document

-- The name of a record is in exactly one place of another one: it comes next, or is in one input.
def Document.ReachesOnce (record : Document) (id : String) : Prop :=
  record.nextId = some id ∧ id ∉ record.heldIds ∨
    record.nextId ≠ some id ∧ record.heldIds.count id = 1

structure Sprite.WellLinked (s : Sprite) (target : Document) : Prop where
  count     : target.blocks.length = Block.countAll s.blocks
  distinct  : (target.blocks.map (·.1)).Nodup
  roots     : ∀ {id r}, (id, r) ∈ target.blocks → (r.parentId = none ↔ r.isTopLevel)
  scripts   : ((target.blocks.filter fun b => b.2.parentId.isNone).map fun b => b.2.opcode?).Perm
    (s.blocks.map fun b => some b.opcode)
  reached   : ∀ {id r p}, (id, r) ∈ target.blocks → r.parentId = some p →
    ∃ q, (p, q) ∈ target.blocks ∧ q.ReachesOnce id
  forest    : ∃ rank : String → Nat, ∀ {id r p}, (id, r) ∈ target.blocks → r.parentId = some p →
    rank p < rank id
  reaches   : ∀ {p q id}, (p, q) ∈ target.blocks → q.nextId = some id ∨ id ∈ q.heldIds →
    ∃ r, (id, r) ∈ target.blocks ∧ r.parentId = some p
  comment   : ∀ {id c}, (id, c) ∈ target.comments → id ≠ Sprite.commentId →
    ∃ b r, c.member? "blockId" = some (.text b) ∧ (b, r) ∈ target.blocks ∧ r.commentId = some id
  commented : ∀ {id r c}, (id, r) ∈ target.blocks → r.commentId = some c →
    c ∈ target.comments.map (·.1)

namespace Record

variable {q : Record} {id : Nat}

-- The links of a record are found in its document.
theorem links_document (h : (q.slots.map (·.1)).Nodup) :
    (q.document.nextId.toList ++ q.document.heldIds).Perm (q.links.map idText) := by
  rw [links, List.map_append, nextId_document]
  refine (List.Perm.refl _).append (heldIds_document h) |>.trans (.of_eq ?_)
  cases q.next <;> rfl

theorem reachesOnce_document (h : (q.slots.map (·.1)).Nodup) (hc : q.links.count id = 1) :
    q.document.ReachesOnce (idText id) := by
  have hp := (links_document h).count_eq (idText id)
  rw [List.count_map_of_injective _ _ idText_injective, hc, List.count_append] at hp
  by_cases hn : q.document.nextId = some (idText id)
  case pos =>
    have hh : q.document.heldIds.count (idText id) = 0 := by
      simp only [hn, Option.toList_some, List.count_singleton_self] at hp
      omega
    exact .inl ⟨hn, List.count_eq_zero.mp hh⟩
  case neg =>
    have hz : q.document.nextId.toList.count (idText id) = 0 :=
      List.count_eq_zero.mpr fun hm => hn (by simpa using hm)
    exact .inr ⟨hn, by omega⟩

theorem mem_links_of_document (h : (q.slots.map (·.1)).Nodup) {name : String}
    (hn : q.document.nextId = some name ∨ name ∈ q.document.heldIds) :
    ∃ id ∈ q.links, idText id = name := by
  have hm : name ∈ q.document.nextId.toList ++ q.document.heldIds := by simpa using hn
  exact List.mem_map.mp ((links_document h).mem_iff.mp hm)

end Record

namespace Sprite

variable {R : Ref → Prop} {s : Sprite} {records : List Record} {costumes : List Costume}
  {layer : Nat} {messages : List String}

theorem mem_blocks_document (h : (records.map (·.id)).Nodup) {id : String} {d : Document} :
    (id, d) ∈ (s.document records costumes layer messages).blocks ↔
      ∃ r ∈ records, Record.idText r.id = id ∧ r.document = d := by
  rw [(blocks_document_perm h).mem_iff]
  simp

section Forest

variable (h : (records.map (·.id)).Nodup)

include h

theorem isTopLevel_of_document (hr : ∀ r ∈ records, r.parent = none ↔ r.place ≠ none)
    {id : String} {d : Document}
    (hd : (id, d) ∈ (s.document records costumes layer messages).blocks) :
    d.parentId = none ↔ d.isTopLevel := by
  obtain ⟨r, hr', rfl, rfl⟩ := (mem_blocks_document h).mp hd
  rw [Record.parentId_document, Record.isTopLevel_document, Option.map_eq_none_iff, hr r hr']
  cases r.place <;> simp

theorem reached_document (hl : Record.Links records [] [])
    (hs : ∀ r ∈ records, (r.slots.map (·.1)).Nodup) {id p : String} {d : Document}
    (hd : (id, d) ∈ (s.document records costumes layer messages).blocks)
    (hp : d.parentId = some p) :
    ∃ q, (p, q) ∈ (s.document records costumes layer messages).blocks ∧ q.ReachesOnce id := by
  obtain ⟨r, hr, rfl, rfl⟩ := (mem_blocks_document h).mp hd
  rw [Record.parentId_document] at hp
  have ⟨n, hn, he⟩ := Option.map_eq_some_iff.mp hp
  have ⟨q, hq, hqn, hc⟩ := hl.reached h hr hn
  exact ⟨q.document, (mem_blocks_document h).mpr ⟨q, hq, hqn ▸ he, rfl⟩,
    Record.reachesOnce_document (hs q hq) hc⟩

-- The number of a record is its rank.
theorem rank_document (hr : ∀ r ∈ records, r.Descends) :
    ∃ rank : String → Nat, ∀ {id d p},
      (id, d) ∈ (s.document records costumes layer messages).blocks → d.parentId = some p →
      rank p < rank id := by
  refine ⟨Function.invFun Record.idText, fun {id d p} hd hp => ?_⟩
  obtain ⟨r, hr', rfl, rfl⟩ := (mem_blocks_document h).mp hd
  rw [Record.parentId_document] at hp
  have ⟨n, hn, he⟩ := Option.map_eq_some_iff.mp hp
  have hi := Function.leftInverse_invFun Record.idText_injective
  rw [← he, hi, hi]
  exact hr r hr' n hn

theorem reaches_document (hl : Record.Links records [] [])
    (hs : ∀ r ∈ records, (r.slots.map (·.1)).Nodup) {p id : String} {d : Document}
    (hd : (p, d) ∈ (s.document records costumes layer messages).blocks)
    (hi : d.nextId = some id ∨ id ∈ d.heldIds) :
    ∃ r, (id, r) ∈ (s.document records costumes layer messages).blocks ∧
      r.parentId = some p := by
  obtain ⟨q, hq, rfl, rfl⟩ := (mem_blocks_document h).mp hd
  have ⟨n, hn, he⟩ := Record.mem_links_of_document (hs q hq) hi
  have ⟨r, hr, hrn, hrp⟩ := hl.reaches h hq hn
  exact ⟨r.document, (mem_blocks_document h).mpr ⟨r, hr, hrn ▸ he, rfl⟩, by simp [hrp]⟩

end Forest

-- All comments but that of the sprite itself are those of records.
theorem mem_comments_document {id : String} {c : Document}
    (h : (id, c) ∈ (s.document records costumes layer messages).comments) (hi : id ≠ commentId) :
    ∃ r ∈ records, Record.commentId r.id = id ∧ r.comment.isSome ∧
      c.member? "blockId" = some (.text (Record.idText r.id)) := by
  rw [comments_document] at h
  cases List.mem_append.mp (mem_of_mem_ofMembers h)
  case inl h =>
    obtain ⟨r, hr, h⟩ := List.mem_filterMap.mp h
    obtain ⟨_, ht, he⟩ := Option.map_eq_some_iff.mp h
    obtain ⟨rfl, rfl⟩ := Prod.mk.inj he
    refine ⟨r, hr, rfl, by simp [ht], ?_⟩
    simp [commentDocument, member?_ofMembers, List.lookup_cons, Record.link, ofOption]
  case inr h =>
    obtain ⟨_, ht, he⟩ := Option.map_eq_some_iff.mp (Option.mem_toList.mp h)
    exact absurd (Prod.mk.inj he).1.symm hi

theorem blockId_document (hd : (records.map (·.id)).Nodup) {id : String} {c : Document}
    (h : (id, c) ∈ (s.document records costumes layer messages).comments) (hi : id ≠ commentId) :
    ∃ b r, c.member? "blockId" = some (.text b) ∧
      (b, r) ∈ (s.document records costumes layer messages).blocks ∧ r.commentId = some id := by
  have ⟨r, hr, he, hs, hb⟩ := mem_comments_document h hi
  refine ⟨_, r.document, hb, (mem_blocks_document hd).mpr ⟨r, hr, rfl, rfl⟩, ?_⟩
  have ⟨_, ht⟩ := Option.isSome_iff_exists.mp hs
  simp [ht, he]

theorem mem_commentIds_document (hd : (records.map (·.id)).Nodup) {id c : String} {d : Document}
    (h : (id, d) ∈ (s.document records costumes layer messages).blocks)
    (hc : d.commentId = some c) :
    c ∈ (s.document records costumes layer messages).comments.map (·.1) := by
  obtain ⟨r, hr, rfl, rfl⟩ := (mem_blocks_document hd).mp h
  rw [Record.commentId_document] at hc
  obtain ⟨text, ht, rfl⟩ := Option.map_eq_some_iff.mp hc
  have hm : (Record.commentId r.id, commentDocument (some r.id) text) ∈ s.comments records :=
    List.mem_append_left _ (List.mem_filterMap.mpr ⟨r, hr, by rw [ht]; rfl⟩)
  exact comments_document ▸ mem_keys_ofMembers (List.mem_map_of_mem hm)

-- The scripts are found among the records, as those without a parent.
theorem scripts_document (h : ∀ b ∈ s.blocks, b.TidyScript R) {fresh : Nat}
    {blocks : List (String × Document)}
    (hb : blocks.Perm ((Block.flattenScripts fresh s.blocks).records.map fun r =>
      (Record.idText r.id, r.document))) :
    ((blocks.filter fun b => b.2.parentId.isNone).map fun b => b.2.opcode?).Perm
      (s.blocks.map fun b => some b.opcode) := by
  have hs := Block.flattenScripts_starts h fresh
  have ho : ∀ {bs rs}, List.Forall₂ Record.Starts bs rs →
      rs.map (fun r => some r.opcode) = bs.map fun b => some b.opcode := by
    intro bs rs hr
    induction hr
    case nil => rfl
    case cons b r _ _ hr _ hi => rw [List.map_cons, List.map_cons, hi, hr.opcode]
  refine ((hb.filter _).map _).trans (.of_eq ?_)
  rw [List.filter_map, List.map_map, ← ho hs]
  simp [Function.comp_def]

theorem wellLinked_of_tidyScript (h : ∀ b ∈ s.blocks, b.TidyScript R) {target : Document}
    (ht : Project.Target s target) : s.WellLinked target := by
  obtain ⟨fresh, costumes, layer, messages, rfl⟩ := ht
  have hn := Block.flattenScripts_numbers s.blocks fresh
  have hl := Block.flattenScripts_links h fresh
  have hp := Block.flattenScripts_parent h fresh
  have hd : ((Block.flattenScripts fresh s.blocks).records.map (·.id)).Nodup :=
    hn.ids.nodup_iff.mpr List.nodup_range'
  let target := s.document (Block.flattenScripts fresh s.blocks).records costumes layer messages
  have hb : target.blocks.Perm _ := blocks_document_perm hd
  exact {
    count     := by
      rw [hb.length_eq, List.length_map]
      simpa using hn.ids.length_eq
    distinct  := by
      rw [(hb.map _).nodup_iff]
      simpa [Function.comp_def] using hd.map Record.idText_injective
    roots     := isTopLevel_of_document hd fun r hr => (hp r hr).2
    scripts   := scripts_document h hb
    reached   := reached_document hd hl fun r hr => (hp r hr).1
    forest    := rank_document hd (Block.flattenScripts_descends s.blocks fresh)
    reaches   := reaches_document hd hl fun r hr => (hp r hr).1
    comment   := blockId_document hd
    commented := mem_commentIds_document hd
  }

end Sprite

namespace Project

theorem document_wellLinked {source : FileSource} {root : Path} {p : Project}
    (h : (compile source root).result = .ok p) (costumes : List (List Costume)) :
    ((p.document costumes).targets.flatMap fun t => t.blocks.map (·.1)).Nodup ∧
      List.Forall₂ Sprite.WellLinked p.targets (p.document costumes).targets :=
  ⟨nodup_ids_document, forall₂_targets_of_compile h costumes fun hs ht =>
    Sprite.wellLinked_of_tidyScript hs ht⟩

theorem document_sampleFiles_wellLinked :
    ∃ p, (compile sampleFiles ⟨"p"⟩).result = .ok p ∧
      p.targets.map (fun s => Block.countAll s.blocks) = [3, 11] ∧
      ((p.document []).targets.flatMap fun t => t.blocks.map (·.1)).Nodup ∧
      List.Forall₂ Sprite.WellLinked p.targets (p.document []).targets :=
  have ⟨p, hp, hc, _⟩ := exists_compile_sampleFiles
  ⟨p, hp, hc, document_wellLinked hp []⟩

end Project

end BlockLang
