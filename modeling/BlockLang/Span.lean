/-!
Places in source text.
-/

namespace BlockLang

-- A run of characters on one line. Lines and columns count from one, lengths in characters.
structure Span where
  line : Nat
  column : Nat
  length : Nat
  deriving DecidableEq, Repr, Inhabited

def Span.none : Span := ⟨0, 0, 0⟩

structure Name where
  text : String
  span : Span
  deriving DecidableEq, Repr, Inhabited

structure Position where
  line : Nat
  column : Nat
  deriving DecidableEq, Repr

namespace Position

def start : Position := ⟨1, 1⟩

def next (p : Position) (c : Char) : Position :=
  if c = '\n' then ⟨p.line + 1, 1⟩ else ⟨p.line, p.column + 1⟩

def after (p : Position) (cs : List Char) : Position :=
  cs.foldl next p

theorem after_append (p : Position) (cs ds : List Char) :
    p.after (cs ++ ds) = (p.after cs).after ds :=
  List.foldl_append

theorem after_of_no_newline {p : Position} {cs : List Char} (h : '\n' ∉ cs) :
    p.after cs = ⟨p.line, p.column + cs.length⟩ := by
  induction cs generalizing p with
  | nil => rfl
  | cons c cs ih =>
    have hc : c ≠ '\n' := fun e => h (by simp [e])
    have hcs : '\n' ∉ cs := fun e => h (by simp [e])
    show (p.next c).after cs = _
    rw [ih hcs]
    simp [next, hc, Nat.add_comm, Nat.add_left_comm]

def span (p : Position) (length : Nat) : Span :=
  ⟨p.line, p.column, length⟩

end Position

end BlockLang
