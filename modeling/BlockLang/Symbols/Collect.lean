import BlockLang.Diagnostic
import BlockLang.Files.Source
import BlockLang.Image.Png.Pixels
import BlockLang.Symbols.Mention
import BlockLang.Text.Distance
import BlockLang.Text.Lines
import BlockLang.Token.Literal

/-!
The names that a sprite declares.

Macros are declared first, wherever they stand, because their bodies can declare variables and
lists. All else is declared in order.
-/

namespace BlockLang

-- The names so far, and those of them that are declared in so many words.
structure Collection where
  symbols : Symbols
  declared : List String

namespace Symbols

def addMacro (s : Symbols) : Decl → Except Diagnostic Symbols
  | .exprMacro name params body =>
    if s.exprMacros.contains name.text then redeclared name
    else .ok { s with
      exprMacros := s.exprMacros.insert name.text ⟨name, params.map (·.text), body⟩ }
  | .blockMacro name params body =>
    if s.blockMacros.contains name.text then redeclared name
    else .ok { s with
      blockMacros := s.blockMacros.insert name.text ⟨name, params.map (·.text), body⟩ }
  | _ => .ok s
where
  -- Two macros of one kind cannot share a name.
  redeclared (name : Name) : Except Diagnostic Symbols :=
    .error (.span name.span .redeclaredMacro (some "Rename this macro"))

def addMentions (locals : List String) (mentions : List Mention) (s : Symbols) : Symbols :=
  mentions.foldl (Mention.declare locals) s

def repeated? (seen : List String) : List Name → Option Name
  | [] => none
  | p :: ps => if seen.contains p.text then some p else repeated? (p.text :: seen) ps

def addFunction (name : Name) (params : List Name) (body : List Stmt) (warp : Bool) (s : Symbols) :
    Except Diagnostic Symbols :=
  if s.functions.contains name.text then
    .error (.span name.span .redeclaredFunction (some "Rename this function"))
  else match repeated? [] params with
    | some p => .error (.span p.span (.repeatedParameter p.text) (some "Rename this argument"))
    | none =>
      let mentions := Mention.all s.blockMacros body
      let locals := Mention.locals mentions
      let s := (mentions.filterMap Mention.localName?).foldl
        (fun s n => s.putLocal name.text n) s
      let s := s.addMentions locals mentions
      .ok { s with functions := s.functions.insert name.text ⟨name, warp, params, locals, none⟩ }

end Symbols

namespace Collection

def note (name : Name) (storage : Storage) (c : Collection) : Except Diagnostic Collection :=
  if c.declared.contains name.text then
    .error (.span name.span (.redeclared storage name.text) (some "Remove this declaration"))
  else .ok { c with declared := name.text :: c.declared }

-- Notes that a list with contents is declared. Its name must not be that of a variable.
def noteFilled (name : Name) (c : Collection) : Except Diagnostic Collection := do
  let c ← c.note name .list
  if c.symbols.vars.contains name.text || c.symbols.globals.vars.contains name.text then
    .error (.span name.span (.alreadyVariable name.text) (some "Rename this list"))
  else return c

def update (f : Symbols → Symbols) (c : Collection) : Collection :=
  { c with symbols := f c.symbols }

variable (source : FileSource) (root : Path)

-- What helps if a file is not there: the file next to it whose name is most like its own.
def missingHelp (missing : Path) : Option String :=
  match missing.parent?, missing.fileName? with
  | some parent, some wanted =>
    match source.listDir parent with
    | .error _ => none
    | .ok entries =>
      let names := (entries.filter source.isFile).filterMap Path.fileName?
      (Text.suggest wanted names).map fun found =>
        let file := parent.child found
        s!"Did you mean {((file.relativeTo? root).getD file).text}?"
  | _, _ => none

def dataFile (token : Token) : Except Diagnostic Path := do
  let path := root.child (← token.literal)
  if source.isFile path then return path
  else .error (.span token.span .missingData (missingHelp source root path))

def dataLines (token : Token) : Except Diagnostic (List String) := do
  let file ← dataFile source root token
  match source.readText file with
  | .ok text => return Text.lines text
  | .error e => .error (.span token.span (.unreadableData e.message))

-- The pixels of an image file. There is only one format for them, which cannot be named.
def imageData (token : Token) (format : Option Name) : Except Diagnostic (List String) := do
  let file ← dataFile source root token
  match format with
  | some format =>
    .error (.span format.span .imageFormat (some "formats are not implemented"))
  | none =>
    match source.readBytes file with
    | .error e => .error (.span token.span (.unreadableImage e.message))
    | .ok bytes =>
      match Png.pixels? bytes.toList with
      | some pixels => return pixels.map fun b => toString b.toNat
      | none => .error (.span token.span .undecodableImage)

-- The pattern that stands for a costume for each visible character.
def characterSet : String := "*machine:ASCII"

def characterImage : String := "blank.svg"

def characters : List Char :=
  (List.range' 33 94).map Char.ofNat

def stemInOrder (p q : Path) : Bool :=
  match p.stem?, q.stem? with
  | some s, some t => (compare s t).isLE
  | none, _ => true
  | some _, none => false

def costumes (token : Token) : Except Diagnostic (List CostumeFile) := do
  let pattern ← token.literal
  if pattern = characterSet then
    let image := root.child characterImage
    if source.isFile image then
      return characters.map fun c => ⟨image, some (String.singleton c)⟩
    else .error (.span token.span (.missingCostume characterImage)
      (some "`*machine:ASCII` uses blank.svg from the project root"))
  else if pattern.toList.contains '*' then
    match source.glob root pattern with
    | .error e => .error (.span token.span (.invalidGlob e.message))
    | .ok [] => .error (.span token.span (.unmatchedCostumes pattern))
    | .ok files => return (files.mergeSort stemInOrder).map (⟨·, none⟩)
  else
    let path := root.child pattern
    if source.isFile path then return [⟨path, none⟩]
    else .error (.span token.span (.missingCostume pattern) (missingHelp source root path))

def declare (c : Collection) : Decl → Except Diagnostic Collection
  | .costumes tokens => tokens.foldlM (fun c token => do
      let more ← costumes source root token
      return c.update fun s => { s with costumes := s.costumes ++ more }) c
  | .vars names => names.foldlM (fun c name => do
      return (← c.note name .scalar).update (Symbols.addVariable [] name)) c
  | .lists names => names.foldlM (fun c name => do
      return (← c.note name .list).update (Symbols.addList name)) c
  | .dataList name token => do
    let c ← c.noteFilled name
    let data ← dataLines source root token
    return c.update (Symbols.putList name data)
  | .imageList name token format => do
    let c ← c.noteFilled name
    let data ← imageData source root token format
    return c.update (Symbols.putList name data)
  | .function name params body warp => do
    let symbols ← c.symbols.addFunction name params body warp
    return { c with symbols }
  | .event _ _ body =>
    .ok (c.update fun s => s.addMentions [] (Mention.all s.blockMacros body))
  | .docComment token => do
    let comment ← token.literal
    return c.update fun s => { s with comment }
  | .exprMacro _ _ _ | .blockMacro _ _ _ => .ok c

end Collection

-- The names of a sprite. The files that it names are looked up from `root`.
def Symbols.ofTree (source : FileSource) (root : Path) (globals : Globals) (tree : SpriteTree) :
    Except Diagnostic Symbols := do
  let s ← tree.foldlM Symbols.addMacro (.initial globals)
  let c ← tree.foldlM (Collection.declare source root) ⟨s, []⟩
  return c.symbols

end BlockLang
