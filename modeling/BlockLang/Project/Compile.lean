import BlockLang.Block.Layout
import BlockLang.Include.Merge
import BlockLang.Macro.Expand
import BlockLang.Project.Basic
import BlockLang.Project.Progress
import BlockLang.Symbols.Collect
import BlockLang.Tree.Parser.Decl

/-!
Projects from their directories: the stage has a file of its own, and each other source file that
lies in the directory is a sprite.
-/

namespace BlockLang

namespace Project

def stageFile : String := "stage.gs"

def headerExtension : String := ".h.gs"

def withoutEnding? (ending s : String) : Option String :=
  if ending.toList.isSuffixOf s.toList then
    some (String.ofList (s.toList.take (s.length - ending.length)))
  else none

variable (source : FileSource) (root : Path)

def similarDirectory? : Option String :=
  let siblings := match root.parent? with
    | none => []
    | some parent =>
      match source.listDir parent with
      | .ok entries => entries
      | .error _ => []
  Text.suggest (root.fileName?.getD "") ((siblings.filter source.isDir).filterMap Path.fileName?)

-- The name of the sprite that a file holds, if it holds one. The name of the stage is taken.
def spriteName? (file : Path) : Except Diagnostic (Option String) :=
  match file.fileName? with
  | none => .ok none
  | some name =>
    if name = stageFile || (withoutEnding? headerExtension name).isSome || !source.isFile file then
      .ok none
    else
      match withoutEnding? Merged.sourceExtension name with
      | none => .ok none
      | some sprite =>
        if sprite = Sprite.stageName then
          .error ((Diagnostic.file .reservedSpriteName
            (some s!"Rename the file or move its code into {stageFile}")).inFile file)
        else .ok (some sprite)

def spritesAmong (files : List Path) : Except Diagnostic (List (String × Path)) := do
  let named ← files.mapM fun file => do return (← spriteName? source file).map (·, file)
  return (named.filterMap id).mergeSort fun p q => FileSource.inOrder p.2 q.2

def spriteFiles : Except Diagnostic (List (String × Path)) :=
  if !source.isDir root then
    .error (.project (.missingDirectory root.shown)
      (Diagnostic.didYouMean (similarDirectory? source root)))
  else if !source.isFile (root.child stageFile) then
    .error (.project (.missingStage root.shown)
      (some "Every project needs a stage; run with --init to create one"))
  else
    match source.listDir root with
    | .error e => .error (.project (.unreadableDirectory root.shown e.message))
    | .ok files => spritesAmong source files

-- The sprite that a source text makes up, and the variables and lists that it declares.
def compileText (name : String) (globals : Globals) (text : String) :
    Except Diagnostic (Sprite × Globals) := do
  let tree ← SpriteTree.ofSource text
  let symbols ← Symbols.ofTree source root globals tree
  if symbols.costumes.isEmpty then
    .error (.file .noCostumes (some "Add a costumes statement"))
  else
    let tree ← SpriteTree.expandMacros symbols tree
    let sprite ← Sprite.ofTree .builtin name symbols tree
    return ({ sprite with blocks := Layout.arrange sprite.blocks }, .ofStage symbols)

-- The sprite of a file with all that it includes, and the variables and lists that it declares.
def compileFile (name : String) (file : Path) (globals : Globals) :
    Except Diagnostic (Sprite × Globals) := do
  let merged ← Merged.ofEntry source root file
  (compileText source root name globals merged.text).mapError merged.resolve

-- The sprites of some files, the first of which is the one with the number `number` to be compiled.
def compileSprites (globals : Globals) (total : Nat) (number : Nat) :
    List (String × Path) → Progress Diagnostic (List Sprite)
  | [] => pure []
  | (name, file) :: files => do
    Progress.report number total name
    let (sprite, _) ← Progress.ofExcept (compileFile source root name file globals)
    let sprites ← compileSprites globals total (number + 1) files
    return sprite :: sprites

def compile : Progress Diagnostic Project := do
  let files ← Progress.ofExcept (spriteFiles source root)
  let total := files.length + 1
  Progress.report 1 total Sprite.stageName
  let (stage, globals) ← Progress.ofExcept
    (compileFile source root Sprite.stageName (root.child stageFile) .none)
  let sprites ← compileSprites source root globals total 2 files
  return ⟨stage, sprites⟩

end Project

end BlockLang
