import Mathlib.Data.List.Perm.Basic
import BlockLang.Project.Document
import BlockLang.Proofs.Graph.Document
import BlockLang.Proofs.Graph.Flatten
import BlockLang.Proofs.Graph.Slots

/-!
What is found in the documents of projects.
-/

namespace BlockLang

namespace Document

-- The stage and the sprites of a project.
def targets (project : Document) : List Document :=
  ((project.member? "targets").map items).getD []

end Document

open Document

namespace Sprite

variable {s : Sprite} {records : List Record} {costumes : List Costume} {layer : Nat}
  {messages : List String}

theorem blocks_document : (s.document records costumes layer messages).blocks =
    (ofMembers (records.map fun r => (Record.idText r.id, r.document))).members := by
  cases h : s.isStage <;>
    simp [Document.blocks, entries, document, extraMembers, member?_ofMembers, List.lookup_cons,
      h]

theorem comments_document : (s.document records costumes layer messages).comments =
    (ofMembers (s.comments records)).members := by
  cases h : s.isStage <;>
    simp [Document.comments, entries, document, extraMembers, member?_ofMembers, List.lookup_cons,
      h]

-- No record is lost if no number repeats.
theorem blocks_document_perm (h : (records.map (·.id)).Nodup) :
    (s.document records costumes layer messages).blocks.Perm
      (records.map fun r => (Record.idText r.id, r.document)) := by
  rw [blocks_document]
  apply members_ofMembers_perm
  rw [List.map_map]
  simpa [Function.comp_def] using h.map Record.idText_injective

end Sprite

namespace Project

variable {p : Project} {costumes : List (List Costume)}

-- The document of a target is made of the records of its scripts.
def Target (s : Sprite) (target : Document) : Prop :=
  ∃ fresh costumes layer messages,
    target = s.document (Block.flattenScripts fresh s.blocks).records costumes layer messages

-- The records of a target are those of the blocks of its scripts.
theorem Target.exists_blocks {s : Sprite} {target : Document} (h : Target s target) :
    ∃ rs, List.Forall₂ Record.Of (Block.blocksAll s.blocks) rs ∧
      (target.blocks.map (·.2)).Perm (rs.map Record.document) := by
  obtain ⟨fresh, costumes, layer, messages, rfl⟩ := h
  let rs := (Block.flattenScripts fresh s.blocks).records
  have hn : (rs.map (·.id)).Nodup :=
    (Block.flattenScripts_numbers s.blocks fresh).ids.nodup_iff.mpr List.nodup_range'
  have hb : (s.document rs costumes layer messages).blocks.Perm _ := Sprite.blocks_document_perm hn
  refine ⟨rs, Block.flattenScripts_of s.blocks fresh, ?_⟩
  simpa [Function.comp_def] using hb.map (·.2)

theorem targets_document : (p.document costumes).targets =
    p.flatten.zipIdx.map fun ((s, records), layer) =>
      s.document records (costumes.getD layer []) layer p.messages := by
  simp [Document.targets, document, member?_ofMembers, List.lookup_cons]

theorem ids_flattenTargets {ss : List Sprite} {fresh : Nat} :
    ((flattenTargets fresh ss).flatMap fun x => x.2.map (·.id)).Perm
      (List.range' fresh (ss.map fun s => Block.countAll s.blocks).sum) := by
  induction ss generalizing fresh
  case nil => exact .refl _
  case cons s ss hi =>
    have hn := Block.flattenScripts_numbers s.blocks fresh
    rw [List.map_cons, List.sum_cons, ← List.range'_append_1, ← hn.counter]
    exact hn.ids.append hi

-- The document of each target, with the costumes and the layer that its place comes with.
theorem forall₂_zipIdx_document :
    List.Forall₂ (fun x target => ∃ fresh, target =
        x.1.document (Block.flattenScripts fresh x.1.blocks).records (costumes.getD x.2 []) x.2
          p.messages)
      p.targets.zipIdx (p.document costumes).targets := by
  have ht : ∀ {ss : List Sprite} {fresh layer : Nat},
      List.Forall₂ (fun x target => ∃ fresh, target =
          x.1.document (Block.flattenScripts fresh x.1.blocks).records (costumes.getD x.2 []) x.2
            p.messages)
        (ss.zipIdx layer) (((flattenTargets fresh ss).zipIdx layer).map
          fun ((s, records), layer) =>
            s.document records (costumes.getD layer []) layer p.messages) := by
    intro ss
    induction ss
    case nil => exact .nil
    case cons s ss hi => exact .cons ⟨_, rfl⟩ hi
  exact targets_document ▸ ht

theorem forall₂_targets_document :
    List.Forall₂ Target p.targets (p.document costumes).targets := by
  rw [← List.zipIdx_map_fst 0 p.targets, List.forall₂_map_left_iff]
  exact forall₂_zipIdx_document.imp fun _ _ ⟨_, ht⟩ => ⟨_, _, _, _, ht⟩

-- No name is given to two records of a project, also not to records of different targets.
theorem nodup_ids_document :
    ((p.document costumes).targets.flatMap fun t => t.blocks.map (·.1)).Nodup := by
  have hi : (p.flatten.flatMap fun x => x.2.map (·.id)).Nodup :=
    ids_flattenTargets.nodup_iff.mpr List.nodup_range'
  have hs : ∀ x ∈ p.flatten, (x.2.map (·.id)).Nodup := (List.nodup_flatMap.mp hi).1
  have hp : ((p.document costumes).targets.flatMap fun t => t.blocks.map (·.1)).Perm
      ((p.flatten.flatMap fun x => x.2.map (·.id)).map Record.idText) := by
    have hf : p.flatten.flatMap (fun x => x.2.map fun r => Record.idText r.id) =
        p.flatten.zipIdx.flatMap fun x => x.1.2.map fun r => Record.idText r.id := by
      conv_lhs => rw [← List.zipIdx_map_fst 0 p.flatten, List.flatMap_map]
    rw [targets_document, List.flatMap_map, List.map_flatMap]
    simp only [List.map_map, Function.comp_def, hf]
    apply List.Perm.flatMap_left _
    intro x hx
    have hx := hs x.1 (List.fst_mem_of_mem_zipIdx hx)
    simpa [Function.comp_def] using (Sprite.blocks_document_perm hx).map (·.1)
  exact hp.nodup_iff.mpr (hi.map Record.idText_injective)

end Project

end BlockLang
