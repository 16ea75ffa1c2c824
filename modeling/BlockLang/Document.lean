import Std.Data.TreeMap.Basic
import BlockLang.Number.Layout

/-!
Documents of nested lists and objects, and how they are written.
-/

namespace BlockLang

-- A document. The members of an object stand in the order of their keys.
inductive Document where
  | null
  | bool (b : Bool)
  | int (n : Int)
  | float (x : Float)
  | text (s : String)
  | list (items : List Document)
  | object (members : List (String × Document))
  deriving Inhabited

namespace Document

-- An object of some members. Of two members with one key the later one counts.
def ofMembers (members : List (String × Document)) : Document :=
  object (members.foldl (fun t (key, value) => t.insert key value)
    (∅ : Std.TreeMap String Document)).toList

def ofOption (s : Option String) : Document :=
  match s with
  | some s => text s
  | none => null

-- The escaped form of a character in a quoted text. Quotes, backslashes and controls have one.
def escape (c : Char) : List Char :=
  if c = '"' then ['\\', '"']
  else if c = '\\' then ['\\', '\\']
  else if c = '\n' then ['\\', 'n']
  else if c = '\r' then ['\\', 'r']
  else if c = '\t' then ['\\', 't']
  else if c = '\x08' then ['\\', 'b']
  else if c = '\x0c' then ['\\', 'f']
  else if c.toNat < 0x20 then
    '\\' :: 'u' :: '0' :: '0' :: Nat.digitChar (c.toNat / 16) :: [Nat.digitChar (c.toNat % 16)]
  else [c]

def quote (s : String) : String :=
  "\"" ++ String.ofList (s.toList.flatMap escape) ++ "\""

def writeFloat (x : Float) : String :=
  if x.isFinite then NumberLayout.document.write x else "null"

mutual

def write : Document → String
  | null => "null"
  | bool b => if b then "true" else "false"
  | int n => toString n
  | float x => writeFloat x
  | text s => quote s
  | list items => "[" ++ ",".intercalate (writeItems items) ++ "]"
  | object members => "\x7b" ++ ",".intercalate (writeMembers members) ++ "\x7d"

def writeItems : List Document → List String
  | [] => []
  | d :: ds => write d :: writeItems ds

def writeMembers : List (String × Document) → List String
  | [] => []
  | (k, d) :: ds => (quote k ++ ":" ++ write d) :: writeMembers ds

end

-- Items on lines of their own between brackets, two blanks further in.
def block (opening closing indent : String) (items : List String) : String :=
  if items.isEmpty then opening ++ closing
  else
    opening ++ "\n" ++ ",\n".intercalate (items.map (indent ++ "  " ++ ·)) ++ "\n" ++ indent ++
      closing

mutual

def layOut (indent : String) : Document → String
  | null => "null"
  | bool b => if b then "true" else "false"
  | int n => toString n
  | float x => writeFloat x
  | text s => quote s
  | list items => block "[" "]" indent (layOutItems (indent ++ "  ") items)
  | object members => block "\x7b" "\x7d" indent (layOutMembers (indent ++ "  ") members)

def layOutItems (indent : String) : List Document → List String
  | [] => []
  | d :: ds => layOut indent d :: layOutItems indent ds

def layOutMembers (indent : String) : List (String × Document) → List String
  | [] => []
  | (k, d) :: ds => (quote k ++ ": " ++ layOut indent d) :: layOutMembers indent ds

end

def pretty (d : Document) : String :=
  layOut "" d

end Document

end BlockLang
