import Mathlib.Data.List.Forall2
import Mathlib.Data.Prod.Basic
import Mathlib.Logic.Function.Iterate
import Mathlib.Logic.Relation

/-!
Steps that come to an end do not lead back to where they started, and what comes of doing the same
thing over and over until it changes nothing any more.
-/

namespace BlockLang

section Loops

open Relation

variable {α : Type} {r : α → α → Prop} {a b : α}

-- Every chain of steps from `a` comes to an end.
def Halts (r : α → α → Prop) (a : α) : Prop :=
  Acc (Function.swap r) a

namespace Halts

theorem of_steps (h : ∀ b, r a b → Halts r b) : Halts r a :=
  .intro a h

theorem trans (h : Halts r a) (hr : ReflTransGen r a b) : Halts r b := by
  induction hr
  case refl => exact h
  case tail hs hi => exact hi.inv hs

theorem not_back (h : Halts r a) : ¬ TransGen r a a := by
  replace h : Acc (TransGen (Function.swap r)) a := Acc.transGen h
  induction h
  case intro a _ hi => exact fun hr => hi a (transGen_swap.mpr hr) hr

end Halts

end Loops

section Repetition

variable {α β : Type} {f : α → α} {g : β → β} {k : α → β} {a b : α} {c d : β} {as bs : List α}

-- Step by step, `f` takes `a` to `b`, and it leaves `b` as it is.
def Settles (f : α → α) (a b : α) : Prop :=
  ∃ n, ∀ m ≥ n, f^[m] a = b

namespace Settles

theorem of_fixed (h : f b = b) : Settles f b b :=
  ⟨0, fun m _ => Function.iterate_fixed h m⟩

theorem step (h : Settles f (f a) b) : Settles f a b := by
  have ⟨n, hn⟩ := h
  refine ⟨n + 1, fun m hm => ?_⟩
  cases m
  case zero => contradiction
  case succ m => exact hn m (Nat.le_of_succ_le_succ hm)

theorem map (hk : Function.Semiconj k f g) (h : Settles f a b) : Settles g (k a) (k b) := by
  have ⟨n, hn⟩ := h
  refine ⟨n, fun m hm => ?_⟩
  rw [← (hk.iterate_right m).eq, hn m hm]

theorem prod (h₁ : Settles f a b) (h₂ : Settles g c d) :
    Settles (Prod.map f g) (a, c) (b, d) := by
  have ⟨n₁, h₁⟩ := h₁
  have ⟨n₂, h₂⟩ := h₂
  refine ⟨max n₁ n₂, fun m hm => ?_⟩
  have ⟨hm₁, hm₂⟩ := Nat.max_le.mp hm
  rw [Prod.map_iterate, Prod.map_apply, h₁ m hm₁, h₂ m hm₂]

theorem list (h : List.Forall₂ (Settles f) as bs) : Settles (List.map f) as bs := by
  induction h
  case nil => exact of_fixed rfl
  case cons ha _ hi =>
    have hk : Function.Semiconj (fun p : α × List α => p.1 :: p.2) (Prod.map f (List.map f))
      (List.map f) := fun _ => rfl
    exact (ha.prod hi).map hk

-- What settles for each of some items settles for all of them at once.
theorem all {k : α → α} (h : ∀ a ∈ as, Settles f a (k a)) :
    ∃ n, ∀ m ≥ n, ∀ a ∈ as, f^[m] a = k a := by
  induction as
  case nil => exact ⟨0, nofun⟩
  case cons a as hi =>
    have ⟨h₁, h₂⟩ := List.forall_mem_cons.mp h
    have ⟨n₁, h₁⟩ := h₁
    have ⟨n₂, h₂⟩ := hi h₂
    refine ⟨max n₁ n₂, fun m hm => ?_⟩
    have ⟨hm₁, hm₂⟩ := Nat.max_le.mp hm
    exact List.forall_mem_cons.mpr ⟨h₁ m hm₁, h₂ m hm₂⟩

end Settles

-- Something is done over and over, until it is done.
def Ends (f : α → α) (isDone : α → Prop) (a b : α) : Prop :=
  isDone b ∧ ∃ n, f^[n] a = b

namespace Ends

variable {isDone : α → Prop}

theorem of_settles (h : Settles f a b) (hb : isDone b) : Ends f isDone a b :=
  have ⟨n, hn⟩ := h
  ⟨hb, n, hn n (Nat.le_refl n)⟩

-- What is done does not change, so it does not matter how often it is done again.
theorem unique (hf : ∀ {a}, isDone a → f a = a) {b c : α} (hb : Ends f isDone a b)
    (hc : Ends f isDone a c) : b = c := by
  have ⟨hb, n, hn⟩ := hb
  have ⟨hc, m, hm⟩ := hc
  have hbm : f^[m + n] a = b := by
    rw [Function.iterate_add_apply, hn, Function.iterate_fixed (hf hb)]
  have hcn : f^[n + m] a = c := by
    rw [Function.iterate_add_apply, hm, Function.iterate_fixed (hf hc)]
  rw [← hbm, ← hcn, Nat.add_comm]

end Ends

end Repetition

end BlockLang
