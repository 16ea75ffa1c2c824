import Mathlib.Data.List.Nodup
import Mathlib.Data.List.Perm.Subperm
import Std.Data.TreeMap.Lemmas

/-!
What is found by name, in lists of pairs and in tables, and the order of pairs by their names.
-/

namespace BlockLang

section Pairs

variable {κ β : Type} [BEq κ] [LawfulBEq κ] {l l' : List (κ × β)} {k : κ} {v : β}

theorem mem_of_lookup_eq_some (h : l.lookup k = some v) : (k, v) ∈ l := by
  have ⟨l₁, l₂, hl, _⟩ := List.lookup_eq_some_iff.mp h
  simp [hl]

theorem lookup_cons_ite [DecidableEq κ] {k' : κ} :
    ((k', v) :: l).lookup k = if k = k' then some v else l.lookup k := by
  rw [List.lookup_cons]
  cases h : k == k'
  case true => rw [if_pos (beq_iff_eq.mp h)]
  case false => rw [if_neg (beq_eq_false_iff_ne.mp h)]

-- A pair that is found may be put before all others, which are what is left without it.
theorem perm_of_lookup_eq_some [DecidableEq κ] (h : l.lookup k = some v) :
    l.Perm ((k, v) :: l.eraseP (·.1 = k)) := by
  induction l
  case nil => cases h
  case cons p l hi =>
    rw [lookup_cons_ite] at h
    split at h
    case isTrue hp =>
      cases h
      rw [List.eraseP_cons_of_pos (by simpa using hp.symm), hp]
    case isFalse hp =>
      rw [List.eraseP_cons_of_neg (by simpa using Ne.symm hp)]
      exact ((hi h).cons p).trans (.swap _ _ _)

theorem lookup_eraseP_of_ne [DecidableEq κ] {k' : κ} (h : k ≠ k') :
    (l.eraseP (·.1 = k')).lookup k = l.lookup k := by
  induction l
  case nil => rfl
  case cons p l hi =>
    by_cases hp : p.1 = k'
    · rw [List.eraseP_cons_of_pos (by simpa using hp), lookup_cons_ite,
        if_neg fun he => h (he.trans hp)]
    · rw [List.eraseP_cons_of_neg (by simpa using hp), lookup_cons_ite, lookup_cons_ite, hi]

-- If no key repeats, then looking a key up finds each of the pairs.
theorem lookup_eq_some_iff_mem (hl : (l.map (·.1)).Nodup) :
    l.lookup k = some v ↔ (k, v) ∈ l := by
  refine ⟨mem_of_lookup_eq_some, fun h => ?_⟩
  have ⟨l₁, l₂, hl'⟩ := List.append_of_mem h
  refine List.lookup_eq_some_iff.mpr ⟨l₁, l₂, hl', fun p hp => ?_⟩
  subst hl'
  simp only [List.map_append, List.map_cons, List.nodup_append] at hl
  have hne := hl.2.2 p.1 (List.mem_map_of_mem hp) k (by simp)
  simpa using hne.symm

omit [LawfulBEq κ] in
theorem lookup_map_snd {γ : Type} {f : β → γ} :
    (l.map (Prod.map id f)).lookup k = (l.lookup k).map f := by
  induction l
  case nil => rfl
  case cons p ps hi =>
    rw [List.map_cons, List.lookup_cons, List.lookup_cons, hi]
    cases h : k == p.1 <;> simp [h]

-- A member that is not always there.
omit [LawfulBEq κ] in
theorem lookup_toList_map {name : κ} {o : Option β} :
    (o.map (name, ·)).toList.lookup k = if k == name then o else none := by
  cases o <;> by_cases h : k == name <;> simp [List.lookup_cons, h]

theorem reverse_toList {o : Option β} : o.toList.reverse = o.toList := by
  cases o <;> rfl

end Pairs

-- If no key repeats, then each is that of one item.
theorem filter_eq_singleton {α κ : Type} [DecidableEq κ] {key : α → κ} {as : List α} {a : α}
    (h : (as.map key).Nodup) (ha : a ∈ as) : as.filter (fun b => key b = key a) = [a] := by
  induction as
  case nil => contradiction
  case cons b bs hi =>
    have ⟨hb, hbs⟩ := List.nodup_cons.mp h
    cases List.mem_cons.mp ha
    case inl he =>
      subst he
      have hn : bs.filter (fun b => key b = key a) = [] := by
        refine List.filter_eq_nil_iff.mpr fun c hc he => hb ?_
        exact List.mem_map.mpr ⟨c, hc, of_decide_eq_true he⟩
      rw [List.filter_cons_of_pos (by simp), hn]
    case inr ha =>
      have hne : key b ≠ key a := fun he => hb (List.mem_map.mpr ⟨a, ha, he.symm⟩)
      rw [List.filter_cons_of_neg (by simpa using hne), hi hbs ha]

-- Of several equal items the first one is kept.
theorem nodup_eraseDups {α : Type} [BEq α] [LawfulBEq α] {l : List α} : l.eraseDups.Nodup := by
  induction h : l.length using Nat.strongRecOn generalizing l
  case ind n hi =>
    subst h
    cases l
    case nil => exact .nil
    case cons a as =>
      rw [List.eraseDups_cons, List.nodup_cons]
      have hl : (as.filter fun b => !b == a).length < (a :: as).length :=
        Nat.lt_succ_of_le (List.length_filter_le ..)
      exact ⟨by simp, hi _ hl rfl⟩

-- The same items are equal after they have been mapped.
theorem eraseDups_map {α β : Type} [BEq α] [LawfulBEq α] [BEq β] [LawfulBEq β] {f : α → β}
    {l : List α} (hf : ∀ a ∈ l, ∀ b ∈ l, f a = f b → a = b) :
    (l.map f).eraseDups = l.eraseDups.map f := by
  induction h : l.length using Nat.strongRecOn generalizing l
  case ind n hi =>
    subst h
    cases l
    case nil => rfl
    case cons a as =>
      have hl : (as.filter fun b => !b == a).length < (a :: as).length :=
        Nat.lt_succ_of_le (List.length_filter_le ..)
      have he : (as.map f).filter (fun b => !b == f a) =
          (as.filter fun b => !b == a).map f := by
        rw [List.filter_map]
        refine congrArg _ (List.filter_congr fun b hb => ?_)
        have hb : (f b == f a) = (b == a) := by
          rw [Bool.eq_iff_iff, beq_iff_eq, beq_iff_eq]
          exact ⟨hf b (List.mem_cons_of_mem a hb) a List.mem_cons_self, congrArg f⟩
        exact congrArg not hb
      rw [List.map_cons, List.eraseDups_cons, List.eraseDups_cons, List.map_cons, he,
        hi _ hl (fun b hb c hc => ?_) rfl]
      exact hf b (List.mem_cons_of_mem a (List.mem_filter.mp hb).1) c
        (List.mem_cons_of_mem a (List.mem_filter.mp hc).1)

section Order

variable {α : Type}

-- Pairs in the order of their names.
def byName (ps : List (String × α)) : List (String × α) :=
  ps.mergeSort fun p q => (compare p.1 q.1).isLE

-- There is one way only to put pairs in order if no name repeats.
theorem eq_byName {ps qs : List (String × α)} (h : ps.Perm qs)
    (hs : ps.Pairwise fun p q => compare p.1 q.1 = .lt) : ps = byName qs := by
  have hn : (ps.map (·.1)).Nodup :=
    List.pairwise_map.mpr (hs.imp fun hc he => by simp [he] at hc)
  have hl : ps.Pairwise fun p q => (compare p.1 q.1).isLE := hs.imp fun hc => by simp [hc]
  have hr : (byName qs).Pairwise fun p q => (compare p.1 q.1).isLE := by
    refine List.pairwise_mergeSort (fun _ _ _ => Std.TransCmp.isLE_trans) ?_ _
    intro p q
    have he : compare q.1 p.1 = (compare p.1 q.1).swap := Std.OrientedCmp.eq_swap
    rw [he]
    cases compare p.1 q.1 <;> rfl
  refine (h.trans (List.mergeSort_perm _ _).symm).eq_of_pairwise ?_ hl hr
  intro p q hp hq hpq hqp
  have hq : q ∈ ps := h.mem_iff.mpr (List.mem_mergeSort.mp hq)
  have he := Std.LawfulEqCmp.eq_of_compare (Std.OrientedCmp.isLE_antisymm hpq hqp)
  exact List.inj_on_of_nodup_map hn hp hq he

end Order

section Table

section Entered

variable {κ β : Type} {cmp : κ → κ → Ordering} {t : Std.TreeMap κ β cmp} {ks : List κ} {k : κ}
  {v : β}

-- Keys of a table that have been entered one inside of the other. None of them is entered twice.
structure Entered (t : Std.TreeMap κ β cmp) (ks : List κ) : Prop where
  nodup : ks.Nodup
  mem   : ∀ k ∈ ks, k ∈ t

namespace Entered

theorem nil : Entered t [] :=
  ⟨.nil, nofun⟩

variable [Std.TransCmp cmp]

theorem cons (h : Entered t ks) (hk : t[k]? = some v) (hn : k ∉ ks) : Entered t (k :: ks) where
  nodup := List.nodup_cons.mpr ⟨hn, h.nodup⟩
  mem   := List.forall_mem_cons.mpr ⟨Std.TreeMap.mem_iff_isSome_getElem?.mpr (by simp [hk]), h.mem⟩

theorem length_le [Std.LawfulEqCmp cmp] (h : Entered t ks) : ks.length ≤ t.size := by
  have hs : ks ⊆ t.keys := fun k hk => Std.TreeMap.mem_keys.mpr (h.mem k hk)
  have hl := (List.subperm_of_subset h.nodup hs).length_le
  rwa [Std.TreeMap.length_keys] at hl

end Entered

end Entered

variable {β : Type} {t : Std.TreeMap String β} {k : String} {v : β}

-- What holds of all entries of a table and of one more also holds once that one is put in.
theorem forall_getElem?_insert {P : String → β → Prop} (h : ∀ {k v}, t[k]? = some v → P k v)
    (hv : P k v) : ∀ {k' v'}, (t.insert k v)[k']? = some v' → P k' v' := by
  intro k' v' hk
  rw [Std.TreeMap.getElem?_insert] at hk
  split at hk
  case isTrue he =>
    obtain rfl := Std.LawfulEqCmp.eq_of_compare he
    exact Option.some.inj hk ▸ hv
  case isFalse => exact h hk

-- Each value of a table is found by its own name.
def Keyed (name : β → String) (t : Std.TreeMap String β) : Prop :=
  ∀ k v, t[k]? = some v → name v = k

theorem keyed_empty {name : β → String} : Keyed name {} := by
  simp [Keyed]

theorem Keyed.insert {name : β → String} (h : Keyed name t) (hv : name v = k) :
    Keyed name (t.insert k v) :=
  fun _ _ => forall_getElem?_insert (P := fun k v => name v = k) (h _ _) hv

-- Of two entries with one name the later one is found.
theorem getElem?_foldl_insert {ps : List (String × β)} :
    (ps.foldl (fun t (k, v) => t.insert k v) t)[k]? = (ps.reverse.lookup k).or t[k]? := by
  induction ps generalizing t
  case nil => simp
  case cons p ps ih =>
    rw [List.foldl_cons, ih, List.reverse_cons, List.lookup_append, Option.or_assoc]
    congr 1
    by_cases h : p.1 = k
    · simp [List.lookup_cons (b := p.2), h]
    · have h' : (k == p.1) = false := by simpa using Ne.symm h
      simp [List.lookup_cons (b := p.2), h, h', Std.TreeMap.getElem?_insert]

-- A table that is made of some things, with the name and the value of each of them.
theorem getElem?_table {α : Type} (name : α → String) (value : α → β) {as : List α} :
    (as.foldl (fun t a => t.insert (name a) (value a)) (∅ : Std.TreeMap String β))[k]? =
      (as.reverse.map fun a => (name a, value a)).lookup k := by
  have hf : as.foldl (fun t a => t.insert (name a) (value a)) (∅ : Std.TreeMap String β) =
      (as.map fun a => (name a, value a)).foldl (fun t (k, v) => t.insert k v) ∅ := by
    rw [List.foldl_map]
  rw [hf, getElem?_foldl_insert, ← List.map_reverse]
  simp

-- A table of values by their names holds these values only.
theorem of_getElem?_table (name : β → String) {vs : List β}
    (h : (vs.foldl (fun t v => t.insert (name v) v) (∅ : Std.TreeMap String β))[k]? = some v) :
    v ∈ vs ∧ name v = k := by
  rw [getElem?_table name fun v => v] at h
  simpa [and_comm] using mem_of_lookup_eq_some h

end Table

end BlockLang
