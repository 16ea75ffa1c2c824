import BlockLang.Sprite.Script

/-!
Sprites: their variables, lists and costumes, and the blocks of their scripts.
-/

namespace BlockLang

-- A sprite, or the stage. The blocks are the starts of its scripts.
structure Sprite where
  name : String
  vars : Std.TreeMap String Variable
  lists : Std.TreeMap String StoredList
  blocks : List Block
  costumes : List CostumeFile
  comment : Option String

namespace Sprite

def stageName : String := "Stage"

def isStage (s : Sprite) : Bool :=
  s.name = stageName

-- The script that a declaration stands for, if it stands for one.
def script? (vocabulary : Vocabulary) (symbols : Symbols) : Decl → Except Diagnostic (Option Block)
  | .function name params body _ =>
    match symbols.functions[name.text]? with
    | none => .error (.span name.span (.unknownFunction name.text))
    | some f => do
      let body ← Stmt.stack ⟨symbols, vocabulary, some f⟩ body
      return some ((Block.definition f.code f.warp (params.map (·.text)) body).writtenAt name.span)
  | .event s event body => do
    let scope : Scope := ⟨symbols, vocabulary, none⟩
    let body ← Stmt.stack scope body
    return some ((← event.hat scope body).writtenAt s)
  | _ => .ok none

-- The sprite that a tree without macro calls stands for, by the names that it declares.
def ofTree (vocabulary : Vocabulary) (name : String) (symbols : Symbols) (tree : SpriteTree) :
    Except Diagnostic Sprite := do
  let scripts ← tree.mapM (script? vocabulary symbols)
  return {
    name
    vars := symbols.vars
    lists := symbols.lists
    blocks := scripts.filterMap id
    costumes := symbols.costumes
    comment := symbols.comment
  }

end Sprite

end BlockLang
