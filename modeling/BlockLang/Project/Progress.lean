/-!
Work that reports its progress.
-/

namespace BlockLang

-- A step that is about to be taken, or has just been taken, out of so many.
structure Step where
  number : Nat
  total : Nat
  label : String
  deriving DecidableEq, Repr

-- What some work comes to, with the steps that were reported until it ended or failed.
structure Progress (ε α : Type) where
  steps : List Step
  result : Except ε α

namespace Progress

variable {ε α β : Type}

def report (number total : Nat) (label : String) : Progress ε Unit :=
  ⟨[⟨number, total, label⟩], .ok ()⟩

def ofExcept (result : Except ε α) : Progress ε α :=
  ⟨[], result⟩

-- Work that goes on with the result of other work, unless that has failed.
def andThen (x : Progress ε α) (f : α → Progress ε β) : Progress ε β :=
  match x.result with
  | .error e => ⟨x.steps, .error e⟩
  | .ok a =>
    let y := f a
    ⟨x.steps ++ y.steps, y.result⟩

instance : Monad (Progress ε) where
  pure a := ofExcept (.ok a)
  bind := andThen

end Progress

end BlockLang
