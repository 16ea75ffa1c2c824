import Std.Data.String.ToNat
import BlockLang.Graph.Document
import BlockLang.Proofs.Document.Members
import BlockLang.Proofs.Graph.Links

/-!
What is found in the documents of records.
-/

namespace BlockLang

namespace Document

-- The members of an object within an object.
def entries (key : String) (d : Document) : List (String × Document) :=
  ((d.member? key).map members).getD []

-- The records of a target, by their names.
def blocks (target : Document) : List (String × Document) :=
  target.entries "blocks"

-- The comments of a target, by their names.
def comments (target : Document) : List (String × Document) :=
  target.entries "comments"

-- The name of the record that comes next.
def nextId (record : Document) : Option String :=
  (record.member? "next").bind text?

-- The name of the record that a record follows or is plugged into.
def parentId (record : Document) : Option String :=
  (record.member? "parent").bind text?

-- The name of the comment of a record.
def commentId (record : Document) : Option String :=
  (record.member? "comment").bind text?

-- The name of the record that an input holds, if it holds one.
def heldId? : Document → Option String
  | list (_ :: text id :: _) => some id
  | _ => none

-- The names of the records that the inputs of a record hold.
def heldIds (record : Document) : List String :=
  (record.entries "inputs").filterMap (·.2.heldId?)

-- Is the record the start of a script?
def isTopLevel (record : Document) : Bool :=
  match record.member? "topLevel" with
  | some (bool b) => b
  | _ => false

-- The opcode of a record.
def opcode? (record : Document) : Option String :=
  (record.member? "opcode").bind text?

end Document

open Document

namespace Record

theorem idText_injective : Function.Injective idText := by
  intro m n h
  have h : "block_" ++ toString m = "block_" ++ toString n := by
    simpa [idText, String.append_assoc] using h
  exact Nat.repr_injective ((String.append_right_inj _).mp h)

variable {r : Record}

section Members

theorem member?_opcode : r.document.member? "opcode" = some (.text r.opcode) := by
  simp [Record.document, member?_ofMembers, List.lookup_append, List.lookup_cons, lookup_toList_map,
    reverse_toList, -Option.map_map]

theorem member?_next : r.document.member? "next" = some (link r.next) := by
  simp [Record.document, member?_ofMembers, List.lookup_append, List.lookup_cons, lookup_toList_map,
    reverse_toList, -Option.map_map]

theorem member?_parent : r.document.member? "parent" = some (link r.parent) := by
  simp [Record.document, member?_ofMembers, List.lookup_append, List.lookup_cons, lookup_toList_map,
    reverse_toList, -Option.map_map]

theorem member?_inputs : r.document.member? "inputs" =
    some (.ofMembers (r.slots.map fun (name, s) => (name, s.document))) := by
  simp [Record.document, member?_ofMembers, List.lookup_append, List.lookup_cons, lookup_toList_map,
    reverse_toList, -Option.map_map]

theorem member?_fields : r.document.member? "fields" =
    some (.ofMembers (r.fields.map fun (name, f) => (name, f.document))) := by
  simp [Record.document, member?_ofMembers, List.lookup_append, List.lookup_cons, lookup_toList_map,
    reverse_toList, -Option.map_map]

theorem member?_topLevel : r.document.member? "topLevel" = some (.bool r.place.isSome) := by
  simp [Record.document, member?_ofMembers, List.lookup_append, lookup_toList_map,
    reverse_toList, -Option.map_map]

theorem member?_mutation : r.document.member? "mutation" = r.mutation.map Mutation.document := by
  simp [Record.document, member?_ofMembers, List.lookup_append, List.lookup_cons, lookup_toList_map,
    reverse_toList, -Option.map_map]

theorem member?_comment : r.document.member? "comment" =
    r.comment.map fun _ => .text (commentId r.id) := by
  simp [Record.document, member?_ofMembers, List.lookup_append, List.lookup_cons, lookup_toList_map,
    reverse_toList, -Option.map_map]

end Members

@[simp]
theorem nextId_document : r.document.nextId = r.next.map idText := by
  simp [nextId, member?_next, link]

@[simp]
theorem parentId_document : r.document.parentId = r.parent.map idText := by
  simp [parentId, member?_parent, link]

@[simp]
theorem commentId_document :
    r.document.commentId = r.comment.map fun _ => commentId r.id := by
  cases h : r.comment <;> simp [Document.commentId, member?_comment, h]

@[simp]
theorem opcode?_document : r.document.opcode? = some r.opcode := by
  simp [opcode?, member?_opcode]

@[simp]
theorem isTopLevel_document : r.document.isTopLevel = r.place.isSome := by
  simp [isTopLevel, member?_topLevel]

theorem heldId?_document {s : Slot} : s.document.heldId? = s.id?.map idText := by
  cases s <;> rfl

-- The inputs hold what the slots do if no name repeats.
theorem heldIds_document (h : (r.slots.map (·.1)).Nodup) :
    r.document.heldIds.Perm ((r.slots.filterMap (·.2.id?)).map idText) := by
  have hn : ((r.slots.map fun (name, s) => (name, s.document)).map (·.1)).Nodup := by
    simpa [Function.comp_def] using h
  have hp := (members_ofMembers_perm hn).filterMap (·.2.heldId?)
  simpa [heldIds, entries, member?_inputs, List.filterMap_map, List.map_filterMap,
    Function.comp_def, heldId?_document] using hp

end Record

end BlockLang
