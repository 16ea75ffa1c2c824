import BlockLang.Document
import BlockLang.Graph.Record

/-!
Records as documents.
-/

namespace BlockLang

def Record.idText (id : Nat) : String :=
  s!"block_{id}"

def Record.commentId (id : Nat) : String :=
  s!"{idText id}_comment"

def Record.link (id : Option Nat) : Document :=
  .ofOption (id.map idText)

def Slot.document : Slot → Document
  | literal text => .list [.int 1, .list [.int 10, .text text]]
  | var name => .list [.int 3, .list [.int 12, .text name, .text name], emptyText]
  | list name => .list [.int 3, .list [.int 13, .text name, .text name], emptyText]
  | shadow id => .list [.int 1, .text (Record.idText id)]
  | shaped id => .list [.int 2, .text (Record.idText id)]
  | reporter id => .list [.int 3, .text (Record.idText id), emptyText]
where
  -- What is left behind when a reporter is taken out.
  emptyText : Document := .list [.int 10, .text ""]

def Field.document : Field → Document
  | literal text => .list [.text text, .null]
  | var name | list name => .list [.text name, .text name]

def listText (texts : List String) : String :=
  (Document.list (texts.map .text)).write

def Mutation.document (m : Mutation) : Document :=
  let common := [("tagName", Document.text "mutation"), ("children", .list []),
    ("proccode", .text m.code), ("argumentids", .text (listText m.arguments))]
  if m.defines then
    .ofMembers (common ++ [
      ("argumentnames", .text (listText m.arguments)),
      ("argumentdefaults", .text (listText (m.arguments.map fun _ => "0"))),
      ("warp", .text (if m.warp then "true" else "false"))])
  else .ofMembers (common ++ [("warp", .bool m.warp)])

def Record.document (r : Record) : Document :=
  let member (name : String) (d : Option Document) : List (String × Document) :=
    (d.map (name, ·)).toList
  .ofMembers ([
    ("opcode", .text r.opcode), ("next", link r.next), ("parent", link r.parent),
    ("inputs", .ofMembers (r.slots.map fun (name, s) => (name, s.document))),
    ("fields", .ofMembers (r.fields.map fun (name, f) => (name, f.document))),
    ("shadow", .bool r.shadow), ("topLevel", .bool r.place.isSome)] ++
    member "x" (r.place.map fun (x, _) => .int x) ++
    member "y" (r.place.map fun (_, y) => .int y) ++
    member "mutation" (r.mutation.map Mutation.document) ++
    member "comment" (r.comment.map fun _ => .text (commentId r.id)))

def commentDocument (block : Option Nat) (text : String) : Document :=
  .ofMembers [
    ("blockId", Record.link block), ("x", .int 0), ("y", .int 0), ("width", .int 200),
    ("height", .int 200), ("minimized", .bool false), ("text", .text text)]

end BlockLang
