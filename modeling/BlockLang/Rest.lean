/-!
What is read from the head of a list, together with what is left of it.

The proof that the rest is shorter comes along with it, which is why nothing that reads a list piece
by piece can go on forever.
-/

namespace BlockLang

variable {τ : Type}

-- What was read from the head of `s`, and what is left.
structure After (s : List τ) (α : Type) where
  value : α
  rest : List τ
  shorter : rest.length < s.length

-- As `After`, but there may have been nothing to read.
structure Upto (s : List τ) (α : Type) where
  value : α
  rest : List τ
  noLonger : rest.length ≤ s.length

variable {r s : List τ} {α β : Type}

namespace Upto

def nothing (s : List τ) (value : α) : Upto s α :=
  ⟨value, s, Nat.le_refl _⟩

def map (f : α → β) (x : Upto s α) : Upto s β :=
  ⟨f x.value, x.rest, x.noLonger⟩

def since (x : Upto r α) (h : r.length < s.length) : After s α :=
  ⟨x.value, x.rest, Nat.lt_of_le_of_lt x.noLonger h⟩

def within (x : Upto r α) (h : r.length ≤ s.length) : Upto s α :=
  ⟨x.value, x.rest, Nat.le_trans x.noLonger h⟩

def tail {t : τ} (x : Upto s α) : After (t :: s) α :=
  x.since (Nat.lt_succ_self _)

end Upto

namespace After

def one (t : τ) (s : List τ) (value : α) : After (t :: s) α :=
  ⟨value, s, Nat.lt_succ_self _⟩

def map (f : α → β) (x : After s α) : After s β :=
  ⟨f x.value, x.rest, x.shorter⟩

def as (value : β) (x : After s α) : After s β :=
  ⟨value, x.rest, x.shorter⟩

def upto (x : After s α) : Upto s α :=
  ⟨x.value, x.rest, Nat.le_of_lt x.shorter⟩

def since (x : After r α) (h : r.length < s.length) : After s α :=
  x.upto.since h

def within (x : After r α) (h : r.length ≤ s.length) : After s α :=
  ⟨x.value, x.rest, Nat.lt_of_lt_of_le x.shorter h⟩

def tail {t : τ} (x : After s α) : After (t :: s) α :=
  x.upto.tail

end After

end BlockLang
