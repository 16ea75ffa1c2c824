import BlockLang.Proofs.Document.Texts
import BlockLang.Proofs.Graph.Document
import BlockLang.Proofs.Graph.Flatten

/-!
Records hold all of the blocks that they come from: the blocks can be read from them again.
-/

namespace BlockLang

mutual

-- What is told of a block by its record and by those of the blocks in it. Of inputs and fields the
-- order does not matter.
structure Tree where
  opcode : String
  inputs : List (String × Held)
  fields : List (String × Field)
  mutation : Option Mutation
  comment : Option String

-- What an input holds. Blocks stand in the order in which they run.
inductive Held where
  | literal (text : String)
  | var (name : String)
  | list (name : String)
  | blocks (trees : List Tree)

end

mutual

-- What an input holds, if it does not hold a stack without blocks.
def Input.held? : Input → Option Held
  | .literal text => some (.literal text)
  | .var name => some (.var name)
  | .list name => some (.list name)
  | .block b => some (.blocks b.trees)
  | .stack bs => if bs.isEmpty then none else some (.blocks (Block.treesAll bs))

-- A block, and the body if it is the start of a script.
def Block.trees : Block → List Tree
  | ⟨opcode, kind, inputs, fields, comment, span⟩ =>
    let b : Block := ⟨opcode, kind, inputs, fields, comment, span⟩
    ⟨opcode, byName (Input.heldAll inputs), byName fields, b.mutation?, comment⟩ :: kind.trees

def BlockKind.trees : BlockKind → List Tree
  | .hat body _ => Block.treesAll body
  | .plain | .condition | .argument _ | .call _ _ | .prototype _ _ => []

def Block.treesAll : List Block → List Tree
  | [] => []
  | b :: bs => b.trees ++ Block.treesAll bs

def Input.heldAll : List (String × Input) → List (String × Held)
  | [] => []
  | (name, i) :: is => (i.held?.map (name, ·)).toList ++ Input.heldAll is

end

namespace Document

-- The text of a comment.
def commentText? (target : Document) (id : String) : Option String := do
  let comment ← target.comments.lookup id
  (← comment.member? "text").text?

-- Reads what is told about a function.
def readMutation (d : Document) : Option Mutation := do
  let code ← (← d.member? "proccode").text?
  let arguments ← readTexts (← (← d.member? "argumentids").text?)
  let warp ← match ← d.member? "warp" with
    | bool b => some b
    | text "true" => some true
    | text "false" => some false
    | _ => none
  return ⟨code, arguments, warp, (d.member? "argumentnames").isSome⟩

-- Reads the field of some name.
def readField (key : String) : Document → Option Field
  | list [text t, null] => some (.literal t)
  | list [text name, text _] => some (if key = "LIST" then .list name else .var name)
  | _ => none

-- Reads an input. Blocks are read from the name of the first one.
def readHeld (read : Option String → Option (List Tree)) : Document → Option Held
  | list [int 1, list [int 10, text t]] => some (.literal t)
  | list [int 3, list [int 12, text name, text _], _] => some (.var name)
  | list [int 3, list [int 13, text name, text _], _] => some (.list name)
  | list (int _ :: text id :: _) => (read (some id)).map .blocks
  | _ => none

-- Reads the block whose record has some name, and those that come next. A block within another one
-- is read in fewer steps, and so is one that comes next.
def readTrees (target : Document) : Nat → Option String → Option (List Tree)
  | _, none => some []
  | 0, some _ => none
  | n + 1, some id => do
    let record ← target.blocks.lookup id
    let opcode ← record.opcode?
    let inputs ← (← record.member? "inputs").readMembers fun _ => readHeld (target.readTrees n)
    let fields ← (← record.member? "fields").readMembers readField
    let mutation ← (record.member? "mutation").mapM readMutation
    let comment ← record.commentId.mapM target.commentText?
    let next ← target.readTrees n record.nextId
    return ⟨opcode, inputs, fields, mutation, comment⟩ :: next

end Document

open Document

theorem Mutation.readMutation_document {m : Mutation} : readMutation m.document = some m := by
  obtain ⟨code, arguments, warp, defines⟩ := m
  cases defines <;> cases warp <;>
    simp [readMutation, Mutation.document, member?_ofMembers, List.lookup_cons, readTexts_listText]

theorem Field.readField_document {key : String} {f : Field} (h : f.Fits key) :
    readField key f.document = some f := by
  cases f
  case literal => rfl
  case var => exact congrArg some (if_neg h)
  case list => exact congrArg some (if_pos h)

-- What is read from a slot, if its blocks are read.
theorem Slot.readHeld_document {s : Slot} {id : Nat} {read : Option String → Option (List Tree)}
    {ts : List Tree} (hs : s.id? = some id) (hr : read (some (Record.idText id)) = some ts) :
    readHeld read s.document = some (.blocks ts) := by
  cases s <;> simp_all [Slot.id?, Slot.document, readHeld]

-- The record is one of a target, and so is its comment.
structure Document.Holds (target : Document) (r : Record) : Prop where
  record  : target.blocks.lookup (Record.idText r.id) = some r.document
  comment : r.comment.isSome → target.commentText? (Record.commentId r.id) = r.comment

namespace Record

variable {r : Record} {target : Document} {n : Nat} {held : List (String × Held)} {ts : List Tree}

theorem mapM_readMutation_document :
    (r.document.member? "mutation").mapM readMutation = some r.mutation := by
  rw [member?_mutation]
  cases r.mutation <;> simp [Mutation.readMutation_document]

theorem mapM_commentText?_document (h : target.Holds r) :
    r.document.commentId.mapM target.commentText? = some r.comment := by
  have hc := h.comment
  rw [commentId_document]
  cases ht : r.comment <;> simp_all

-- Slots are read in the order of their names.
theorem readMembers_slots {read : Option String → Option (List Tree)}
    (hs : (r.slots.map (·.1)).Nodup)
    (hi : List.Forall₂ (fun s i => s.1 = i.1 ∧ readHeld read s.2.document = some i.2)
      r.slots held) :
    (ofMembers (r.slots.map fun (name, s) => (name, s.document))).readMembers
      (fun _ => readHeld read) = some (byName held) := by
  apply readMembers_ofMembers (by simpa [Function.comp_def] using hs)
  rw [List.forall₂_map_left_iff]
  apply hi.imp
  intro s i h
  simp [h.1, h.2]

theorem readMembers_fields (hf : (r.fields.map (·.1)).Nodup)
    (hk : ∀ f ∈ r.fields, f.2.Fits f.1) :
    (ofMembers (r.fields.map fun (name, f) => (name, f.document))).readMembers readField =
      some (byName r.fields) := by
  apply readMembers_ofMembers (by simpa [Function.comp_def] using hf)
  rw [List.forall₂_map_left_iff, List.forall₂_same]
  intro f hm
  simp [Field.readField_document (hk f hm)]

theorem readTrees_document (h : target.Holds r) (hs : (r.slots.map (·.1)).Nodup)
    (hf : (r.fields.map (·.1)).Nodup) (hk : ∀ f ∈ r.fields, f.2.Fits f.1)
    (hi : List.Forall₂ (fun s i => s.1 = i.1 ∧
      readHeld (target.readTrees n) s.2.document = some i.2) r.slots held)
    (hn : target.readTrees n (r.next.map idText) = some ts) :
    target.readTrees (n + 1) (some (idText r.id)) =
      some (⟨r.opcode, byName held, byName r.fields, r.mutation, r.comment⟩ :: ts) := by
  simp [readTrees, h.record, member?_inputs, member?_fields, readMembers_slots hs hi,
    readMembers_fields hf hk, mapM_readMutation_document, mapM_commentText?_document h, hn,
    -commentId_document]

end Record

variable {R : Ref → Prop} {target : Document} {n : Nat} {ts : List Tree}

-- A block within another one has no body.
theorem BlockKind.Inner.trees {kind : BlockKind} {fields : List (String × Field)}
    (h : kind.Inner R fields) : kind.trees = [] := by
  cases kind
  case hat => exact h.elim
  all_goals rfl

mutual

theorem Block.readTrees_flatten : ∀ (b : Block) (id : Nat) (next parent : Option Nat) (fresh : Nat)
    {n : Nat} {ts : List Tree}, b.Tidy R →
    (∀ r ∈ (b.flatten id next parent fresh).records, target.Holds r) → b.within ≤ n →
    target.readTrees n (next.map Record.idText) = some ts →
    target.readTrees (n + 1) (some (Record.idText id)) = some (b.trees ++ ts)
  | ⟨opcode, kind, inputs, fields, comment, span⟩, id, next, parent, fresh, n, ts, ht, hr, hw, hn =>
    by
    have ⟨hb, hk, hi⟩ := Block.tidy_iff.mp ht
    rw [Block.flatten, hk.flatten, List.append_nil] at hr
    have ⟨hr, hrs⟩ := List.forall_mem_cons.mp hr
    have hw : Input.countAll inputs ≤ n := Nat.le_of_add_right_le hw
    have hi := Input.readHeld_flattenAll inputs id fresh hi hrs hw
    have hb := Record.readTrees_document hr (hb.inputs.sublist Input.flattenAll_names) hb.fields
      hb.fit hi hn
    rw [Block.trees, hk.trees]
    exact hb

theorem Block.readTrees_flattenAll : ∀ (bs : List Block) (parent id fresh : Nat) {n : Nat},
    Block.AllTidy R bs → (∀ r ∈ (Block.flattenAll parent id fresh bs).records, target.Holds r) →
    Block.countAll bs ≤ n →
    target.readTrees n ((Block.firstId? id bs).map Record.idText) = some (Block.treesAll bs)
  | [], _, _, _, _, _, _, _ => by rw [Block.firstId?]; exact readTrees.eq_1 ..
  | b :: bs, parent, id, fresh, n, ht, hr, hw => by
    have ⟨hb, hbs⟩ := Block.allTidy_cons.mp ht
    rw [Block.flattenAll] at hr
    have ⟨hr, hrs⟩ := List.forall_mem_append.mp hr
    rw [Block.countAll, Block.count_eq] at hw
    obtain ⟨n, rfl⟩ : ∃ m, n = m + 1 := ⟨n - 1, by omega⟩
    have hbs := Block.readTrees_flattenAll bs id (id + 1) _ hbs hrs (n := n) (by omega)
    exact Block.readTrees_flatten b id _ _ _ hb hr (by omega) hbs

theorem Input.readHeld_flatten : ∀ (i : Input) (name : String) (parent fresh : Nat) {n : Nat},
    i.Tidy R → (∀ r ∈ (i.flatten name parent fresh).records, target.Holds r) → i.count ≤ n →
    List.Forall₂ (fun s h => s.1 = h.1 ∧ readHeld (target.readTrees n) s.2.document = some h.2)
      ((i.flatten name parent fresh).value.map (name, ·)).toList
      (i.held?.map (name, ·)).toList
  | .literal _, _, _, _, _, _, _, _ | .var _, _, _, _, _, _, _, _ | .list _, _, _, _, _, _, _, _ =>
    .cons ⟨rfl, rfl⟩ .nil
  | .block b, name, parent, fresh, n, ht, hr, hw => by
    rw [Input.flatten] at hr
    rw [Input.count, Block.count_eq] at hw
    obtain ⟨n, rfl⟩ : ∃ m, n = m + 1 := ⟨n - 1, by omega⟩
    have hb := Block.readTrees_flatten b fresh none (some parent) (fresh + 1)
      (Input.tidy_block.mp ht) hr (n := n) (by omega) (readTrees.eq_1 ..)
    rw [List.append_nil] at hb
    rw [Input.flatten, Input.held?]
    exact .cons ⟨rfl, Slot.readHeld_document Block.id?_slot hb⟩ .nil
  | .stack [], _, _, _, _, _, _, _ => .nil
  | .stack (b :: bs), name, parent, fresh, n, ht, hr, hw => by
    rw [Input.flatten] at hr
    have hbs := Block.readTrees_flattenAll (b :: bs) parent fresh _ (Input.tidy_stack.mp ht) hr hw
    rw [Input.flatten, Input.held?]
    exact .cons ⟨rfl, Slot.readHeld_document rfl hbs⟩ .nil

theorem Input.readHeld_flattenAll : ∀ (is : List (String × Input)) (parent fresh : Nat) {n : Nat},
    Input.AllTidy R is → (∀ r ∈ (Input.flattenAll parent fresh is).records, target.Holds r) →
    Input.countAll is ≤ n →
    List.Forall₂ (fun s h => s.1 = h.1 ∧ readHeld (target.readTrees n) s.2.document = some h.2)
      (Input.flattenAll parent fresh is).value (Input.heldAll is)
  | [], _, _, _, _, _, _ => .nil
  | (name, i) :: is, parent, fresh, n, ht, hr, hw => by
    have ⟨hi, his⟩ := Input.allTidy_cons.mp ht
    rw [Input.flattenAll] at hr
    have ⟨hr, hrs⟩ := List.forall_mem_append.mp hr
    rw [Input.countAll] at hw
    have hi := Input.readHeld_flatten i name parent fresh hi hr (n := n) (by omega)
    have his := Input.readHeld_flattenAll is parent _ his hrs (n := n) (by omega)
    rw [Input.flattenAll, Input.heldAll]
    exact List.rel_append hi his

end

-- The numbers of the records that scripts start with.
def Record.roots (rs : List Record) : List Nat :=
  (rs.filter fun r => r.parent.isNone).map (·.id)

namespace Block

variable {b : Block} {bs : List Block}

end Block

end BlockLang
