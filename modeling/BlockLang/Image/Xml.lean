import BlockLang.Rest
import BlockLang.Text.Blank
import BlockLang.Text.Ranges

/-!
Documents of tagged elements: whether a text is one, and the attributes of its first element.

Elements nest, names have prefixes that must have been declared, and everything that is not markup
has to be made of characters that such documents allow.
-/

namespace BlockLang

namespace Xml

def isBlank (c : Char) : Bool :=
  c = ' ' || c = '\t' || c = '\n' || c = '\r'

def isAllowed (c : Char) : Bool :=
  isBlank c || (' ' ≤ c && c ≠ '\ufffe' && c ≠ '\uffff')

def nameStarts : Text.Ranges := #[
  (0xc0, 0xd6), (0xd8, 0xf6), (0xf8, 0x2ff), (0x370, 0x37d), (0x37f, 0x1fff), (0x200c, 0x200d),
  (0x2070, 0x218f), (0x2c00, 0x2fef), (0x3001, 0xd7ff), (0xf900, 0xfdcf), (0xfdf0, 0xfffd),
  (0x10000, 0xeffff)]

-- The characters beyond the first 128 that can go on a name but not start one.
def nameRests : Text.Ranges := #[(0xb7, 0xb7), (0x300, 0x36f), (0x203f, 0x2040)]

def isNameStart (c : Char) : Bool :=
  c.isAlpha || c = '_' || c = ':' || nameStarts.has c

def isNameChar (c : Char) : Bool :=
  isNameStart c || c.isDigit || c = '-' || c = '.' || nameRests.has c

structure QName where
  space : Option String
  own : String
  deriving DecidableEq, Repr

-- A name from its text. At most one colon may stand in it, and neither part may be empty.
def QName.ofChars? (cs : List Char) : Option QName :=
  match Text.splitBy (· = ':') cs with
  | [own] => some ⟨none, String.ofList own⟩
  | [space, own] =>
    if space.isEmpty || own.isEmpty then none
    else some ⟨some (String.ofList space), String.ofList own⟩
  | _ => none

def skip (p : Char → Bool) (cs : List Char) : Upto cs Unit :=
  ⟨(), cs.dropWhile p, (List.dropWhile_sublist p).length_le⟩

def name? (cs : List Char) : Option (After cs (List Char)) :=
  match cs with
  | [] => none
  | c :: cs =>
    if isNameStart c then
      let ⟨(), rest, h⟩ := skip isNameChar cs
      some ⟨c :: cs.takeWhile isNameChar, rest, by simp; omega⟩
    else none

def qname? (cs : List Char) : Option (After cs QName) := do
  let ⟨n, rest, h⟩ ← name? cs
  return ⟨← QName.ofChars? n, rest, h⟩

def mark? (mark : List Char) (cs : List Char) : Option (Upto cs Unit) :=
  if mark.isPrefixOf cs then some ⟨(), cs.drop mark.length, by simp⟩ else none

def until? (mark : List Char) (cs : List Char) : Option (After cs (List Char)) :=
  match cs with
  | [] => none
  | c :: cs =>
    if mark.isPrefixOf (c :: cs) then
      some ⟨[], cs.drop (mark.length - 1), by simp only [List.length_drop, List.length_cons]; omega⟩
    else if isAllowed c then
      (until? mark cs).map fun ⟨before, rest, h⟩ => ⟨c :: before, rest, by simp; omega⟩
    else none

abbrev Entities := List (String × List Char)

def predefined : Entities :=
  [("lt", ['<']), ("gt", ['>']), ("amp", ['&']), ("apos", ['\'']), ("quot", ['"'])]

def charNumber? (cs : List Char) : Option Nat :=
  let digits (base : Nat) (cs : List Char) : Option Nat :=
    if cs.isEmpty then none
    else cs.foldlM (fun n c =>
      let d := if c.isDigit then c.toNat - 48 else c.toLower.toNat - 87
      if (c.isDigit || ('a' ≤ c.toLower && c.toLower ≤ 'f')) && d < base then some (n * base + d)
      else none) 0
  match cs with
  | 'x' :: cs => digits 16 cs
  | cs => digits 10 cs

def referent? (entities : Entities) (cs : List Char) : Option (List Char) :=
  match cs with
  | '#' :: cs => do
    let n ← charNumber? cs
    let c := Char.ofNat n
    if c.toNat = n && isAllowed c then some [c] else none
  | cs => entities.lookup (String.ofList cs)

def reference? (entities : Entities) (cs : List Char) : Option (After cs (List Char)) := do
  let ⟨name, rest, h⟩ ← until? [';'] cs
  return ⟨← referent? entities name, rest, h⟩

-- Reads the value of an attribute up to its quote. Blanks count as spaces.
def value? (entities : Entities) (quote : Char) (cs : List Char) :
    Option (After cs (List Char)) :=
  match cs with
  | [] => none
  | c :: cs =>
    if c = quote then some ⟨[], cs, by simp⟩
    else if c = '<' || !isAllowed c then none
    else if c = '&' then do
      let ⟨text, rest, h⟩ ← reference? entities cs
      let ⟨more, rest, h₁⟩ ← value? entities quote rest
      return ⟨text ++ more, rest, by simp; omega⟩
    else do
      let ⟨more, rest, h⟩ ← value? entities quote cs
      return ⟨(if isBlank c then ' ' else c) :: more, rest, by simp; omega⟩
termination_by cs.length

def quoted? (entities : Entities) (cs : List Char) : Option (After cs String) :=
  match cs with
  | [] => none
  | c :: cs =>
    if c = '"' || c = '\'' then
      (value? entities c cs).map fun ⟨v, rest, h⟩ => ⟨String.ofList v, rest, by simp; omega⟩
    else none

abbrev Attributes := List (QName × String)

-- Reads attributes, with blanks before each of them, and the blanks after them.
def attributes? (entities : Entities) (cs : List Char) : Option (Upto cs Attributes) := do
  let ⟨(), rest, h⟩ := skip isBlank cs
  match rest.head? with
  | none => none
  | some c =>
    if !isNameStart c then return ⟨[], rest, h⟩
    else if rest.length = cs.length then none
    else
      let ⟨name, rest, h₁⟩ ← qname? rest
      let ⟨(), rest, h₂⟩ := skip isBlank rest
      let ⟨(), rest, h₃⟩ ← mark? ['='] rest
      let ⟨(), rest, h₄⟩ := skip isBlank rest
      let ⟨v, rest, h₅⟩ ← quoted? entities rest
      let ⟨more, rest, h₆⟩ ← attributes? entities rest
      if more.any (·.1 = name) then none else return ⟨(name, v) :: more, rest, by omega⟩
termination_by cs.length

-- The prefixes that attributes declare, and the attributes that declare none. A prefix cannot be
-- taken back, and two of them cannot be declared anew.
def declarations? (attributes : Attributes) : Option (List String × Attributes) :=
  attributes.foldrM (fun (name, v) (spaces, others) =>
    if name.space = some "xmlns" then
      if v = "" || name.own = "xmlns" || name.own = "xml" then none
      else some (name.own :: spaces, others)
    else if name = ⟨none, "xmlns"⟩ then some (spaces, others)
    else some (spaces, (name, v) :: others)) ([], [])

def isBound (spaces : List String) (name : QName) : Bool :=
  match name.space with
  | none => true
  | some s => s = "xml" || spaces.contains s

-- An element that is not closed yet, and the prefixes that are declared in it.
structure Element where
  name : QName
  spaces : List String

-- What has been read of a document: the elements that are not closed, the innermost first, and the
-- attributes of the first element.
structure Progress where
  entities : Entities
  path : List Element
  root : Option Attributes

def Progress.start? (p : Progress) (name : QName) (attributes : Attributes) : Option Progress := do
  let (spaces, others) ← declarations? attributes
  let spaces := spaces ++ ((p.path.head?.map (·.spaces)).getD [])
  if isBound spaces name && others.all fun (n, _) => isBound spaces n then
    return { p with path := ⟨name, spaces⟩ :: p.path, root := p.root <|> some others }
  else none

def Progress.finish? (p : Progress) (name : QName) : Option Progress :=
  match p.path with
  | e :: path => if e.name = name then some { p with path } else none
  | [] => none

-- Reads what follows the start of an instruction: a name, and more after a blank. Instructions
-- cannot be named like the head of a document.
def instruction? (cs : List Char) : Option (After cs Unit) := do
  let ⟨name, rest, h⟩ ← name? cs
  let ⟨more, rest, h₁⟩ ← until? ['?', '>'] rest
  if name.map Char.toLower = ['x', 'm', 'l'] then none
  else if more.isEmpty || isBlank (more.headD 'x') then return ⟨(), rest, by omega⟩
  else none

-- Reads what follows the start of a comment. Two dashes end it.
def comment? (cs : List Char) : Option (After cs Unit) := do
  let ⟨_, rest, h⟩ ← until? ['-', '-'] cs
  let ⟨(), rest, h₁⟩ ← mark? ['>'] rest
  return ⟨(), rest, by omega⟩

def entity? (cs : List Char) : Option (After cs (String × List Char)) := do
  let ⟨(), rest, h⟩ := skip isBlank cs
  let ⟨name, rest, h₁⟩ ← name? rest
  let ⟨(), rest, h₂⟩ := skip isBlank rest
  match hq : rest with
  | quote :: rest =>
    if quote = '"' || quote = '\'' then
      let ⟨v, rest, h₃⟩ ← until? [quote] rest
      return ⟨(String.ofList name, v), rest, by simp [hq] at h₂; omega⟩
    else none
  | [] => none

-- Reads the type of a document up to its end, and the texts that it defines. `inner` tells whether
-- this is within brackets.
def doctype? (inner : Bool) (entities : Entities) (cs : List Char) :
    Option (After cs Entities) :=
  match cs with
  | [] => none
  | c :: cs =>
    let next (inner : Bool) : Option (After (c :: cs) Entities) := do
      let ⟨e, rest, h⟩ ← doctype? inner entities cs
      return ⟨e, rest, by simp; omega⟩
    if !isAllowed c then none
    else if c = '>' && !inner then some ⟨entities, cs, by simp⟩
    else if c = '[' then if inner then none else next true
    else if c = ']' then if inner then next false else none
    else if c = '"' || c = '\'' then do
      let ⟨_, rest, h⟩ ← until? [c] cs
      let ⟨e, rest, h₁⟩ ← doctype? inner entities rest
      return ⟨e, rest, by simp; omega⟩
    else if c = '<' && inner then
      match mark? "!--".toList cs, mark? "!ENTITY".toList cs, mark? ['?'] cs with
      | some ⟨(), rest, h⟩, _, _ => do
        let ⟨(), rest, h₁⟩ ← comment? rest
        let ⟨e, rest, h₂⟩ ← doctype? inner entities rest
        return ⟨e, rest, by simp; omega⟩
      | none, some ⟨(), rest, h⟩, _ =>
        match entity? rest with
        | some ⟨entity, rest, h₁⟩ => do
          let ⟨e, rest, h₂⟩ ← doctype? inner (entities ++ [entity]) rest
          return ⟨e, rest, by simp; omega⟩
        | none => next inner
      | none, none, some ⟨(), rest, h⟩ => do
        let ⟨(), rest, h₁⟩ ← instruction? rest
        let ⟨e, rest, h₂⟩ ← doctype? inner entities rest
        return ⟨e, rest, by simp; omega⟩
      | none, none, none => next inner
    else next inner
termination_by cs.length

-- Reads a tag that opens an element, after its first sign. It may close the element as well.
def startTag? (p : Progress) (cs : List Char) : Option (After cs Progress) := do
  let ⟨name, rest, h⟩ ← qname? cs
  let ⟨attributes, rest, h₁⟩ ← attributes? p.entities rest
  let opened ← p.start? name attributes
  match hr : rest with
  | '>' :: rest => return ⟨opened, rest, by simp [hr] at h₁; omega⟩
  | '/' :: '>' :: rest => return ⟨← opened.finish? name, rest, by simp [hr] at h₁; omega⟩
  | _ => none

def endTag? (p : Progress) (cs : List Char) : Option (After cs Progress) := do
  let ⟨name, rest, h⟩ ← qname? cs
  let ⟨(), rest, h₁⟩ := skip isBlank rest
  let ⟨(), rest, h₂⟩ ← mark? ['>'] rest
  return ⟨← p.finish? name, rest, by omega⟩

def markup? (p : Progress) (cs : List Char) : Option (Upto cs Progress) :=
  match cs with
  | '!' :: '-' :: '-' :: rest => do
    let ⟨(), rest, h⟩ ← comment? rest
    return ⟨p, rest, by simp; omega⟩
  | '!' :: '[' :: rest => do
    if p.path.isEmpty then none
    else
      let ⟨(), rest, h⟩ ← mark? "CDATA[".toList rest
      let ⟨_, rest, h₁⟩ ← until? "]]>".toList rest
      return ⟨p, rest, by simp; omega⟩
  | '!' :: rest => do
    if p.root.isSome then none
    else
      let ⟨(), rest, h⟩ ← mark? "DOCTYPE".toList rest
      let ⟨entities, rest, h₁⟩ ← doctype? false p.entities rest
      return ⟨{ p with entities }, rest, by simp; omega⟩
  | '?' :: rest => do
    let ⟨(), rest, h⟩ ← instruction? rest
    return ⟨p, rest, by simp; omega⟩
  | '/' :: rest => do
    let ⟨p, rest, h⟩ ← endTag? p rest
    return ⟨p, rest, by simp; omega⟩
  | cs => do
    let ⟨p, rest, h⟩ ← startTag? p cs
    return ⟨p, rest, by omega⟩

-- Reads a document to its end. Text stands only within elements, and all elements have to be
-- closed.
def content? (p : Progress) (cs : List Char) : Option Attributes :=
  match cs with
  | [] => if p.path.isEmpty then p.root else none
  | c :: cs =>
    if c = '<' then do
      let ⟨p, rest, _h⟩ ← markup? p cs
      content? p rest
    else if isBlank c then content? p cs
    else if p.path.isEmpty || !isAllowed c || "]]>".toList.isPrefixOf (c :: cs) then none
    else if c = '&' then do
      let ⟨_, rest, _h⟩ ← reference? p.entities cs
      content? p rest
    else content? p cs
termination_by cs.length
decreasing_by all_goals simp only [List.length_cons]; omega

-- Reads the head of a document, if there is one, which tells the version of the format.
def head? (cs : List Char) : Option (List Char) :=
  match mark? "<?xml".toList cs with
  | none => some cs
  | some ⟨(), rest, _⟩ =>
    if isBlank (rest.headD 'x') then do
      let ⟨attributes, rest, _⟩ ← attributes? predefined rest
      let ⟨(), rest, _⟩ ← mark? ['?', '>'] rest
      match attributes.map fun (name, v) => (name.own, v) with
      | ("version", version) :: others =>
        let names := others.map (·.1)
        if (version = "1.0" || version = "1.1") &&
            names = ["encoding", "standalone"].filter names.contains &&
            (others.lookup "standalone").all (fun v => v = "yes" || v = "no") then some rest
        else none
      | _ => none
    else some cs

-- The attributes of the first element of a document, without their prefixes. A byte order mark may
-- come before everything else.
def rootAttributes? (text : String) : Option (List (String × String)) := do
  let cs := match text.toList with
    | '\ufeff' :: cs => cs
    | cs => cs
  let attributes ← content? ⟨predefined, [], none⟩ (← head? cs)
  return attributes.map fun (name, v) => (name.own, v)

end Xml

end BlockLang
