import Mathlib.Data.List.Forall2

/-!
Computations that have not failed, and what holds of a computation whether it fails or not.
-/

namespace BlockLang

variable {ε ε' α β σ : Type}

theorem bind_eq_ok {x : Except ε α} {f : α → Except ε β} {b : β} :
    x >>= f = .ok b ↔ ∃ a, x = .ok a ∧ f a = .ok b := by
  cases x <;> simp [bind, Except.bind]

theorem pure_eq_ok {a b : α} : (pure a : Except ε α) = .ok b ↔ a = b :=
  Except.ok.injEq a b ▸ Iff.rfl

theorem bind_eq_error {x : Except ε α} {f : α → Except ε β} {e : ε} :
    x >>= f = .error e ↔ x = .error e ∨ ∃ a, x = .ok a ∧ f a = .error e := by
  cases x <;> simp [bind, Except.bind]

theorem pure_ne_error {a : α} {e : ε} : (pure a : Except ε α) ≠ .error e :=
  nofun

theorem map_eq_ok {x : Except ε α} {f : α → β} {b : β} :
    x.map f = .ok b ↔ ∃ a, x = .ok a ∧ f a = b := by
  cases x <;> simp [Except.map]

theorem map_eq_error {x : Except ε α} {f : α → β} {e : ε} : x.map f = .error e ↔ x = .error e := by
  cases x <;> simp [Except.map]

theorem mapError_eq_ok {x : Except ε α} {f : ε → ε'} {a : α} :
    x.mapError f = .ok a ↔ x = .ok a := by
  cases x <;> simp [Except.mapError]

theorem mapError_eq_error {x : Except ε α} {f : ε → ε'} {e : ε'} :
    x.mapError f = .error e ↔ ∃ e', x = .error e' ∧ f e' = e := by
  cases x <;> simp [Except.mapError]

theorem eq_ok_of_toOption {x : Except ε α} {a : α} (h : x.toOption = some a) : x = .ok a := by
  cases x
  case ok => exact congrArg Except.ok (Option.some.inj h)
  case error => contradiction

-- Each item has been mapped on its own.
theorem forall₂_of_mapM {f : α → Except ε β} {as : List α} {bs : List β}
    (h : as.mapM f = .ok bs) : List.Forall₂ (fun a b => f a = .ok b) as bs := by
  induction as generalizing bs
  case nil => exact pure_eq_ok.mp h ▸ .nil
  case cons a as hi =>
    simp only [List.mapM_cons, bind_eq_ok, pure_eq_ok] at h
    have ⟨b, ha, bs, has, he⟩ := h
    exact he ▸ .cons ha (hi has)

theorem mem_of_forall₂ {r : α → β → Prop} {as : List α} {bs : List β} {b : β}
    (h : List.Forall₂ r as bs) (hb : b ∈ bs) : ∃ a ∈ as, r a b := by
  induction h
  case nil => contradiction
  case cons a b' as bs ha _ hi =>
    cases List.mem_cons.mp hb
    case inl he => exact ⟨a, by simp, he ▸ ha⟩
    case inr hb =>
      have ⟨a', ha', hr⟩ := hi hb
      exact ⟨a', by simp [ha'], hr⟩

theorem exists_mem_iff_of_forall₂ {r : α → β → Prop} {as : List α} {bs : List β} {P : α → Prop}
    {Q : β → Prop} (h : List.Forall₂ r as bs) (hp : ∀ {a b}, r a b → (P a ↔ Q b)) :
    (∃ a ∈ as, P a) ↔ ∃ b ∈ bs, Q b := by
  induction h
  case nil => simp
  case cons ha _ hi =>
    simp only [List.mem_cons, or_and_right, exists_or, exists_eq_left, hp ha, hi]

theorem forall₂_trans {γ : Type} {r : α → β → Prop} {q : β → γ → Prop} {p : α → γ → Prop}
    {as : List α} {bs : List β} {cs : List γ} (h : List.Forall₂ r as bs) (k : List.Forall₂ q bs cs)
    (hp : ∀ {a b c}, r a b → q b c → p a c) : List.Forall₂ p as cs := by
  induction h generalizing cs
  case nil =>
    cases k
    exact .nil
  case cons ha _ hi =>
    cases k
    case cons hb hbs => exact .cons (hp ha hb) (hi hbs)

theorem mem_of_mapM {f : α → Except ε β} {as : List α} {bs : List β} {b : β}
    (h : as.mapM f = .ok bs) (hb : b ∈ bs) : ∃ a ∈ as, f a = .ok b :=
  mem_of_forall₂ (r := fun a b => f a = .ok b) (forall₂_of_mapM h) hb

theorem mapM_eq_map {f : α → Except ε β} {g : α → β} {as : List α}
    (h : ∀ a ∈ as, f a = .ok (g a)) : as.mapM f = .ok (as.map g) := by
  induction as
  case nil => rfl
  case cons a as hi =>
    have ⟨ha, has⟩ := List.forall_mem_cons.mp h
    rw [List.mapM_cons, ha, hi has]
    rfl

theorem mapM_eq_self {f : α → Except ε α} {as : List α} (h : ∀ a ∈ as, f a = .ok a) :
    as.mapM f = .ok as := by
  rw [mapM_eq_map h, List.map_id']

-- Another function that comes to `g` of each result does so for all items.
theorem mapM_map_results {γ : Type} {f : α → Except ε β} {f' : α → Except ε γ} {g : β → γ}
    {as : List α} {bs : List β} (hf : ∀ a ∈ as, ∀ {b}, f a = .ok b → f' a = .ok (g b))
    (h : as.mapM f = .ok bs) : as.mapM f' = .ok (bs.map g) := by
  induction as generalizing bs
  case nil =>
    obtain rfl := pure_eq_ok.mp h
    rfl
  case cons a as hi =>
    obtain ⟨ha, has⟩ := List.forall_mem_cons.mp hf
    simp only [List.mapM_cons, bind_eq_ok, pure_eq_ok] at h ⊢
    obtain ⟨b, hb, bs, hbs, rfl⟩ := h
    exact ⟨g b, ha hb, bs.map g, hi has hbs, rfl⟩

-- If not all items can be mapped, then one of them is the first that cannot.
theorem exists_of_mapM_eq_error {f : α → Except ε β} {as : List α} {e : ε}
    (h : as.mapM f = .error e) : ∃ a ∈ as, f a = .error e := by
  induction as
  case nil => exact absurd h pure_ne_error
  case cons a as hi =>
    simp only [List.mapM_cons, bind_eq_error, pure_ne_error, and_false, exists_false,
      or_false] at h
    cases h
    case inl h => exact ⟨a, by simp, h⟩
    case inr h =>
      have ⟨_, _, h⟩ := h
      have ⟨b, hb, h⟩ := hi h
      exact ⟨b, by simp [hb], h⟩

-- What is picked out of the results is what is picked out of the items.
theorem filterMap_of_mapM {γ : Type} {f : α → Except ε β} {p : α → Option γ} {q : β → Option γ}
    {as : List α} {bs : List β} (h : as.mapM f = .ok bs)
    (hf : ∀ {a b}, f a = .ok b → q b = p a) : bs.filterMap q = as.filterMap p := by
  replace h := forall₂_of_mapM h
  induction h
  case nil => rfl
  case cons ha _ hi => simp only [List.filterMap_cons, hf ha, hi]

-- A loop keeps what each of its steps keeps.
theorem foldlM_induction {f : σ → α → Except ε σ} {P : σ → Prop} {as : List α} {s s' : σ}
    (hf : ∀ a ∈ as, ∀ s s', f s a = .ok s' → P s → P s') (h : as.foldlM f s = .ok s')
    (hs : P s) : P s' := by
  induction as generalizing s
  case nil => exact pure_eq_ok.mp h ▸ hs
  case cons a as hi =>
    simp only [List.foldlM_cons, bind_eq_ok] at h
    have ⟨t, ha, has⟩ := h
    exact hi (fun a' ha' => hf a' (by simp [ha'])) has (hf a (by simp) s t ha hs)

-- What each step adds to a list, where it keeps what that list is about, is added by the loop in
-- order.
theorem foldlM_flatMap {f : σ → α → Except ε σ} {P : List β → σ → Prop} {g : α → List β}
    {as : List α} {bs : List β} {s s' : σ}
    (hf : ∀ a ∈ as, ∀ bs s s', f s a = .ok s' → P bs s → P (bs ++ g a) s')
    (h : as.foldlM f s = .ok s') (hs : P bs s) : P (bs ++ as.flatMap g) s' := by
  induction as generalizing s bs
  case nil => simpa [pure_eq_ok.mp h] using hs
  case cons a as hi =>
    simp only [List.foldlM_cons, bind_eq_ok] at h
    have ⟨t, ha, has⟩ := h
    have ht : P (bs ++ g a) t := hf a (by simp) bs s t ha hs
    rw [List.flatMap_cons, ← List.append_assoc]
    exact hi (fun a' ha' => hf a' (by simp [ha'])) has ht

-- The state after a loop is related to the one before it as it is for each step.
theorem foldlM_rel {f : σ → α → Except ε σ} {r : σ → σ → Prop} {as : List α} {s s' : σ}
    (hrefl : ∀ s, r s s) (htrans : ∀ {s t u}, r s t → r t u → r s u)
    (hf : ∀ a ∈ as, ∀ s s', f s a = .ok s' → r s s') (h : as.foldlM f s = .ok s') : r s s' :=
  foldlM_induction (fun a ha t t' ht hr => htrans hr (hf a ha t t' ht)) h (hrefl s)

-- A loop over other items takes the same steps, as long as the state is one in which the items do
-- the same.
theorem foldlM_eq_of_forall₂ {f : σ → α → Except ε σ} {P : σ → Prop} {r : α → α → Prop}
    {as bs : List α} {s s' : σ} (hr : List.Forall₂ r as bs)
    (hf : ∀ {s t a b}, P s → r a b → f s a = .ok t → f s b = .ok t ∧ P t)
    (h : as.foldlM f s = .ok s') (hs : P s) : bs.foldlM f s = .ok s' := by
  induction hr generalizing s
  case nil => exact h
  case cons ha _ hi =>
    simp only [List.foldlM_cons, bind_eq_ok] at h ⊢
    have ⟨t, h₁, h₂⟩ := h
    have ⟨h₁, ht⟩ := hf hs ha h₁
    exact ⟨t, h₁, hi h₂ ht⟩

-- Two loops over the same items stay related as long as each step keeps them so.
theorem foldlM_sim {σ' : Type} {f : σ → α → Except ε σ} {f' : σ' → α → Except ε σ'}
    {r : σ → σ' → Prop} {as : List α} {s t : σ} {s' : σ'}
    (hf : ∀ a ∈ as, ∀ {s s' t}, r s s' → f s a = .ok t → ∃ t', f' s' a = .ok t' ∧ r t t')
    (hs : r s s') (h : as.foldlM f s = .ok t) : ∃ t', as.foldlM f' s' = .ok t' ∧ r t t' := by
  induction as generalizing s s'
  case nil =>
    obtain rfl := pure_eq_ok.mp h
    exact ⟨s', rfl, hs⟩
  case cons a as hi =>
    obtain ⟨ha, has⟩ := List.forall_mem_cons.mp hf
    rw [List.foldlM_cons] at h
    obtain ⟨u, hu, h⟩ := bind_eq_ok.mp h
    obtain ⟨u', hu', hr⟩ := ha hs hu
    obtain ⟨t', ht, hr⟩ := hi (fun a ha => has a ha) hr h
    exact ⟨t', by rw [List.foldlM_cons]; exact bind_eq_ok.mpr ⟨u', hu', ht⟩, hr⟩

-- Each step of a loop is taken between its start and its end.
theorem foldlM_step {f : σ → α → Except ε σ} {as : List α} {a : α} {s s' : σ}
    {r : σ → σ → Prop} (hrefl : ∀ s, r s s) (htrans : ∀ {s t u}, r s t → r t u → r s u)
    (hf : ∀ {s a s'}, f s a = .ok s' → r s s') (h : as.foldlM f s = .ok s') (ha : a ∈ as) :
    ∃ t t', r s t ∧ f t a = .ok t' ∧ r t' s' := by
  induction as generalizing s
  case nil => contradiction
  case cons b as hi =>
    simp only [List.foldlM_cons, bind_eq_ok] at h
    have ⟨t, hb, has⟩ := h
    cases List.mem_cons.mp ha
    case inl he =>
      have hr : r t s' := foldlM_rel hrefl htrans (fun _ _ _ _ hs => hf hs) has
      exact ⟨s, t, hrefl s, he ▸ hb, hr⟩
    case inr ha =>
      have ⟨u, u', hu, hs, hu'⟩ := hi has ha
      exact ⟨u, u', htrans (hf hb) hu, hs, hu'⟩

-- A computation comes to a value with `Q`, or else to an error with `E`.
def Yields (Q : α → Prop) (E : ε → Prop) : Except ε α → Prop
  | .ok a => Q a
  | .error e => E e

namespace Yields

variable {Q Q' : α → Prop} {R : β → Prop} {E E' : ε → Prop} {x : Except ε α}

theorem pure {a : α} (h : Q a) : Yields Q E (pure a) := h

theorem bind {f : α → Except ε β} (h : Yields Q E x) (hf : ∀ a, Q a → Yields R E (f a)) :
    Yields R E (x >>= f) := by
  cases x
  case ok a => exact hf a h
  case error => exact h

theorem map {f : α → β} (h : Yields Q E x) (hf : ∀ a, Q a → R (f a)) : Yields R E (x.map f) := by
  cases x
  case ok a => exact hf a h
  case error => exact h

theorem mapError {f : ε → ε'} {E' : ε' → Prop} (h : Yields Q E x) (hf : ∀ e, E e → E' (f e)) :
    Yields Q E' (x.mapError f) := by
  cases x
  case ok => exact h
  case error e => exact hf e h

theorem mono (h : Yields Q E x) (hQ : ∀ a, Q a → Q' a) (hE : ∀ e, E e → E' e) : Yields Q' E' x := by
  cases x
  case ok a => exact hQ a h
  case error e => exact hE e h

theorem value {a : α} (h : Yields Q E x) (hx : x = .ok a) : Q a := by
  subst hx
  exact h

theorem fault {e : ε} (h : Yields Q E x) (hx : x = .error e) : E e := by
  subst hx
  exact h

-- The value is the one that the computation comes to.
theorem withEq (h : Yields Q E x) : Yields (fun a => x = .ok a ∧ Q a) E x := by
  cases x
  case ok => exact ⟨rfl, h⟩
  case error => exact h

theorem mapM {f : α → Except ε β} {as : List α} (h : ∀ a ∈ as, Yields R E (f a)) :
    Yields (fun bs => ∀ b ∈ bs, R b) E (as.mapM f) := by
  induction as
  case nil => exact pure nofun
  case cons a as hi =>
    have ⟨ha, has⟩ := List.forall_mem_cons.mp h
    rw [List.mapM_cons]
    exact ha.bind fun b hb => (hi has).bind fun bs hbs => pure (List.forall_mem_cons.mpr ⟨hb, hbs⟩)

theorem foldlM {f : σ → α → Except ε σ} {P : σ → Prop} {as : List α} {s : σ} (hs : P s)
    (h : ∀ a ∈ as, ∀ s, P s → Yields P E (f s a)) : Yields P E (as.foldlM f s) := by
  induction as generalizing s
  case nil => exact pure hs
  case cons a as hi =>
    have ⟨ha, has⟩ := List.forall_mem_cons.mp h
    rw [List.foldlM_cons]
    exact (ha s hs).bind fun t ht => hi ht has

end Yields

theorem mapM_eq_some {f : α → Option β} {as : List α} {bs : List β}
    (h : List.Forall₂ (fun a b => f a = some b) as bs) : as.mapM f = some bs := by
  induction h
  case nil => rfl
  case cons ha _ hi => simp [ha, hi]

end BlockLang
