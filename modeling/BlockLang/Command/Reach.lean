import BlockLang.Include.Merge

/-!
Where the texts of a project lead: the files that they can name.
-/

namespace BlockLang

namespace Reach

def everySecond : List (List Char) → List String
  | _ :: s :: rest => String.ofList s :: everySecond rest
  | _ => []

def quotedTexts (text : String) : List String :=
  everySecond (Text.splitBy (· = '"') text.toList)

-- The files that a source text can name, seen from the root of its project.
def ofText (root : Path) (text : String) : List Path :=
  (quotedTexts text).flatMap fun s => [root.child s, root.child (s ++ Merged.sourceExtension)]

end Reach

end BlockLang
