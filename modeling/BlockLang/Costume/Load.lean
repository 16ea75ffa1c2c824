import BlockLang.Bytes.Md5
import BlockLang.Costume.Basic
import BlockLang.Files.Source
import BlockLang.Image.Png.Header
import BlockLang.Image.Svg
import BlockLang.Symbols.Basic
import BlockLang.Text.Lowercase

/-!
Costumes from their files.
-/

namespace BlockLang

inductive CostumeFault where
  | unreadable (reason : ReadError)
  | svg (fault : Svg.Fault)
  | png
  deriving DecidableEq, Repr

structure CostumeError where
  file : Path
  fault : CostumeFault
  deriving DecidableEq, Repr

namespace CostumeError

def messages (e : CostumeError) : List String :=
  let file := e.file.shown
  match e.fault with
  | .unreadable _ => [s!"Could not read costume '{file}'"]
  | .svg fault => s!"Invalid SVG costume '{file}'" :: fault.message?.toList
  | .png => [s!"Invalid PNG costume '{file}'"]

def reason? (e : CostumeError) : Option String :=
  match e.fault with
  | .unreadable reason => some reason.message
  | _ => none

def summary (e : CostumeError) : String :=
  ": ".intercalate e.messages

def message (e : CostumeError) : String :=
  ": ".intercalate (e.messages ++ e.reason?.toList)

end CostumeError

namespace Costume

def slashMark : List Char := "\x7b\x7bfwslash\x7d\x7d".toList

def withSlashes (cs : List Char) : List Char :=
  match cs with
  | [] => []
  | c :: cs =>
    if slashMark.isPrefixOf (c :: cs) then '/' :: withSlashes (cs.drop (slashMark.length - 1))
    else c :: withSlashes cs
termination_by cs.length
decreasing_by all_goals simp only [List.length_drop, List.length_cons]; omega

def pngCenter? (bytes : List UInt8) : Option (Float × Float) :=
  (Png.Header.ofFile? bytes).map fun (h, _) =>
    (Float.ofNat h.width / 2.0, Float.ofNat h.height / 2.0)

-- The center of an image. That of a drawing is looked up only if `centerSvg` is set, and that of an
-- image of an unknown format is not known.
def centerOf (format : String) (centerSvg : Bool) (bytes : ByteArray) :
    Except CostumeFault (Float × Float) :=
  if format = "svg" then
    if centerSvg then
      match Utf8.decode bytes with
      | .ok text => (Svg.center text).mapError .svg
      | .error _ => .error (.svg .notXml)
    else .ok (0.0, 0.0)
  else if format = "png" then
    match pngCenter? bytes.toList with
    | some center => .ok center
    | none => .error .png
  else .ok (0.0, 0.0)

def load (source : FileSource) (centerSvg : Bool) (file : CostumeFile) :
    Except CostumeError Costume :=
  match source.readBytes file.path with
  | .error e => .error ⟨file.path, .unreadable e⟩
  | .ok bytes =>
    let format := Text.lowercase (file.path.extension?.getD "")
    match centerOf format centerSvg bytes with
    | .error fault => .error ⟨file.path, fault⟩
    | .ok center => .ok {
        name := String.ofList (withSlashes file.name.toList)
        digest := Md5.hex bytes.toList
        format
        center
        bytes
      }

end Costume

end BlockLang
