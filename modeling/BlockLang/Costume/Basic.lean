/-!
Costumes: images with the point that they turn around.
-/

namespace BlockLang

structure Costume where
  name : String
  digest : String
  -- The form of the image, in lower case.
  format : String
  center : Float × Float
  bytes : ByteArray

namespace Costume

-- The name of the file that the image is stored in. Equal images share a file.
def fileName (c : Costume) : String :=
  s!"{c.digest}.{c.format}"

def isBitmap (c : Costume) : Bool :=
  c.format ≠ "svg"

end Costume

end BlockLang
