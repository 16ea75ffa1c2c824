import BlockLang.Costume.Basic
import BlockLang.Graph.Document
import BlockLang.Graph.Flatten
import BlockLang.Project.Basic

/-!
Projects as documents.
-/

namespace BlockLang

-- A costume in the document of its sprite. Images made of pixels tell how many of these make up one
-- unit.
def Costume.document (c : Costume) : Document :=
  .ofMembers ([
    ("name", Document.text c.name), ("assetId", .text c.digest), ("md5ext", .text c.fileName),
    ("dataFormat", .text c.format), ("rotationCenterX", .float c.center.1),
    ("rotationCenterY", .float c.center.2)] ++
    if c.isBitmap then [("bitmapResolution", .int 1)] else [])

namespace Sprite

def commentId : String := "__docComment__"

-- The comments of a sprite: those on its blocks and the one on itself.
def comments (s : Sprite) (records : List Record) : List (String × Document) :=
  (records.filterMap fun r => r.comment.map fun text =>
    (Record.commentId r.id, commentDocument (some r.id) text)) ++
  (s.comment.map fun text => (commentId, commentDocument none text)).toList

-- What the document of the stage tells beyond that of a sprite, and the other way around.
def extraMembers (s : Sprite) : List (String × Document) :=
  if s.isStage then [
    ("tempo", .int 60), ("videoTransparency", .int 50), ("videoState", .text "on"),
    ("textToSpeechLanguage", .null)]
  else [
    ("visible", .bool true), ("x", .int 0), ("y", .int 0), ("size", .int 100),
    ("direction", .int 90), ("draggable", .bool false), ("rotationStyle", .text "all around")]

-- A sprite as a document. The stage holds the messages of all sprites.
def document (s : Sprite) (records : List Record) (costumes : List Costume) (layer : Nat)
    (messages : List String) : Document :=
  .ofMembers ([
    ("isStage", Document.bool s.isStage), ("name", .text s.name),
    ("variables", .ofMembers (s.vars.keys.map fun name =>
      (name, .list [.text name, .int 0]))),
    ("lists", .ofMembers (s.lists.toList.map fun (name, l) =>
      (name, .list [.text name, .list (l.data.map .text)]))),
    ("broadcasts", .ofMembers (if s.isStage then messages.map fun m => (m, .text m) else [])),
    ("blocks", .ofMembers (records.map fun r => (Record.idText r.id, r.document))),
    ("comments", .ofMembers (s.comments records)),
    ("currentCostume", .int 0), ("costumes", .list (costumes.map Costume.document)),
    ("sounds", .list []), ("volume", .int 100), ("layerOrder", .int layer)] ++ s.extraMembers)

end Sprite

namespace Project

def agent : String := "blockscript-rs 0.4.0"

-- Sprites with their records, which are numbered from `fresh` on.
def flattenTargets (fresh : Nat) : List Sprite → List (Sprite × List Record)
  | [] => []
  | s :: ss =>
    let flat := Block.flattenScripts fresh s.blocks
    (s, flat.records) :: flattenTargets flat.fresh ss

-- The stage and the sprites with their records. No number is given twice.
def flatten (p : Project) : List (Sprite × List Record) :=
  flattenTargets 1 p.targets

def document (p : Project) (costumes : List (List Costume)) : Document :=
  .ofMembers [
    ("targets", .list (p.flatten.zipIdx.map fun ((s, records), layer) =>
      s.document records (costumes.getD layer []) layer p.messages)),
    ("monitors", .list []),
    ("extensions", .list (if p.usesPen then [.text "pen"] else [])),
    ("meta", .ofMembers [("semver", .text "3.0.0"), ("vm", .text "0.2.0"), ("agent", .text agent)])]

end Project

end BlockLang
