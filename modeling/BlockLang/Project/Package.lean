import BlockLang.Archive
import BlockLang.Costume.Load
import BlockLang.Project.Document
import BlockLang.Project.Progress

/-!
Projects with the images of their costumes, ready to be stored.
-/

namespace BlockLang

-- The document of a project, and the images that it names, in the order of their names.
structure Package where
  document : Document
  images : List (String × ByteArray)

def Package.archive (p : Package) : Archive :=
  ⟨("project.json", p.document.pretty.toUTF8) :: p.images⟩

structure PackageError where
  sprite : String
  cause : CostumeError
  deriving DecidableEq, Repr

def PackageError.heading (e : PackageError) : String :=
  s!"Could not load costumes of `{e.sprite}`"

def PackageError.summary (e : PackageError) : String :=
  s!"{e.heading}: {e.cause.summary}"

def PackageError.message (e : PackageError) : String :=
  s!"{e.heading}: {e.cause.message}"

namespace Project

variable (source : FileSource) (centerSvg : Bool)

def loadCostumes (s : Sprite) : Except PackageError (List Costume) :=
  (s.costumes.mapM (Costume.load source centerSvg)).mapError (⟨s.name, ·⟩)

-- The costumes of some targets, the first of which has the number `number`.
def loadAll (total : Nat) (number : Nat) :
    List Sprite → Progress PackageError (List (List Costume))
  | [] => pure []
  | s :: ss => do
    Progress.report number total "Loading costumes"
    let costumes ← Progress.ofExcept (loadCostumes source centerSvg s)
    let rest ← loadAll total (number + 1) ss
    return costumes :: rest

def images (costumes : List Costume) : List (String × ByteArray) :=
  (costumes.foldl (fun t c => t.insert c.fileName c.bytes)
    (∅ : Std.TreeMap String ByteArray)).toList

-- The steps of storing so many images. If there are none, that is a step too.
def storeSteps (count : Nat) : List Step :=
  let total := max count 1
  (List.range' 1 total).map (⟨·, total, "Packaging assets"⟩)

def package (p : Project) : Progress PackageError Package := do
  let targets := p.targets
  let costumes ← loadAll source centerSvg targets.length 1 targets
  let images := images costumes.flatten
  Progress.report 1 1 "Writing project.json"
  ⟨storeSteps images.length, .ok ⟨p.document costumes, images⟩⟩

end Project

end BlockLang
