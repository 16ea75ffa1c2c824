import BlockLang.Image.Xml
import BlockLang.Number.Binary

/-!
The center of a drawing, from the size that it tells.
-/

namespace BlockLang

namespace Svg

inductive Fault where
  | notXml
  | badViewBox (text : String)
  | emptyViewBox
  deriving DecidableEq, Repr

-- The fault in words. What is wrong with a document is not told.
def Fault.message? : Fault → Option String
  | notXml => none
  | badViewBox text => some s!"bad viewBox '{text}'"
  | emptyViewBox => some "viewBox must have a positive size"

-- The parts of a view box, which have blanks and commas between them.
def viewBoxParts (text : String) : List String :=
  let parts := Text.splitBy (fun c => Text.isBlank c || c = ',') text.toList
  (parts.filter (· ≠ [])).map String.ofList

def viewBoxCenter (text width height : String) : Except Fault (Float × Float) :=
  match readFloat? width, readFloat? height with
  | some w, some h => if w ≤ 0.0 || h ≤ 0.0 then .error .emptyViewBox else .ok (w / 2.0, h / 2.0)
  | _, _ => .error (.badViewBox text)

def length? (text : String) : Option Float :=
  let digits := (Text.trim text).toList.takeWhile fun c =>
    c.isDigit || c = '.' || c = '-' || c = '+'
  (readFloat? (String.ofList digits)).filter fun x => 0.0 < x

def sizeCenter (attributes : List (String × String)) : Float × Float :=
  match (attributes.lookup "width").bind length?, (attributes.lookup "height").bind length? with
  | some w, some h => (w / 2.0, h / 2.0)
  | _, _ => (0.0, 0.0)

-- The center by the attributes of a drawing. Of attributes with one name the last one counts, and a
-- view box counts only if it has four parts.
def centerOf (attributes : List (String × String)) : Except Fault (Float × Float) :=
  let attributes := attributes.reverse
  match attributes.lookup "viewBox" with
  | some box =>
    match viewBoxParts box with
    | [_, _, width, height] => viewBoxCenter box width height
    | _ => .ok (sizeCenter attributes)
  | none => .ok (sizeCenter attributes)

def center (text : String) : Except Fault (Float × Float) :=
  match Xml.rootAttributes? text with
  | some attributes => centerOf attributes
  | none => .error .notXml

end Svg

end BlockLang
