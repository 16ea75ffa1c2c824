import Mathlib.Data.List.Count
import Mathlib.Data.List.Nodup
import BlockLang.Graph.Record

/-!
Links between records.
-/

namespace BlockLang

namespace Record

-- The numbers of the records that a record names.
def links (r : Record) : List Nat :=
  r.next.toList ++ r.slots.filterMap (·.2.id?)

-- Each record with what it names.
def held (rs : List Record) : List (Nat × Nat) :=
  rs.flatMap fun r => r.links.map (r.id, ·)

-- What each record is named by, with the record.
def parents (rs : List Record) : List (Nat × Nat) :=
  rs.filterMap fun r => r.parent.map (·, r.id)

theorem held_cons {r : Record} {rs : List Record} :
    held (r :: rs) = r.links.map (r.id, ·) ++ held rs :=
  List.flatMap_cons

theorem parents_cons {r : Record} {rs : List Record} :
    parents (r :: rs) = r.parent.toList.map (·, r.id) ++ parents rs := by
  cases h : r.parent <;> simp [parents, h]

@[simp]
theorem held_append {rs rs' : List Record} : held (rs ++ rs') = held rs ++ held rs' :=
  List.flatMap_append

@[simp]
theorem parents_append {rs rs' : List Record} : parents (rs ++ rs') = parents rs ++ parents rs' :=
  List.filterMap_append

-- All links agree with the parents of the records that they lead to, apart from those that lead out
-- of the records and those that come from without.
def Links (rs : List Record) (out into : List (Nat × Nat)) : Prop :=
  ∃ inner, (held rs).Perm (out ++ inner) ∧ (parents rs).Perm (into ++ inner)

section Links

variable {r : Record} {rs rs' : List Record} {out into out' into' : List (Nat × Nat)}

theorem Links.nil : Links [] [] [] :=
  ⟨[], .refl _, .refl _⟩

-- What leads out of some records can lead into others.
theorem Links.append (both : List (Nat × Nat)) (h : Links rs (both ++ out) into)
    (h' : Links rs' out' (both ++ into')) : Links (rs ++ rs') (out ++ out') (into ++ into') := by
  have ⟨i, hh, hp⟩ := h
  have ⟨j, hh', hp'⟩ := h'
  refine ⟨both ++ (i ++ j), ?_, ?_⟩ <;> rw [List.perm_iff_count] <;> intro link
  · have hh := hh.count_eq link
    have hh' := hh'.count_eq link
    simp only [held_append, List.count_append] at hh hh' ⊢
    omega
  · have hp := hp.count_eq link
    have hp' := hp'.count_eq link
    simp only [parents_append, List.count_append] at hp hp' ⊢
    omega

-- All that leads out of the first records leads into the others.
theorem Links.thread {both : List (Nat × Nat)} (h : Links rs both into)
    (h' : Links rs' [] both) : Links (rs ++ rs') [] into := by
  rw [← List.append_nil both] at h h'
  simpa using h.append both h'

-- A record leads to those that come from without.
theorem Links.cons (h : Links rs [] into) (hl : (r.links.map (r.id, ·)).Perm (out ++ into)) :
    Links (r :: rs) out (r.parent.toList.map (·, r.id)) := by
  have ⟨i, hh, hp⟩ := h
  refine ⟨into ++ i, ?_, ?_⟩
  · rw [held_cons, ← List.append_assoc]
    exact hl.append hh
  · exact parents_cons ▸ hp.append_left _

section Distinct

variable {p q : Record} {id n : Nat}

theorem count_links (r : Record) (id n : Nat) :
    (r.links.map (r.id, ·)).count (id, n) = if r.id = id then r.links.count n else 0 := by
  split
  case isTrue h =>
    exact h ▸ List.count_map_of_injective _ _ (fun _ _ he => (Prod.mk.inj he).2) n
  case isFalse h =>
    apply List.count_eq_zero_of_not_mem
    intro hm
    apply h
    have ⟨_, _, he⟩ := List.mem_map.mp hm
    exact (Prod.mk.inj he).1

theorem count_held_of_not_mem (hq : id ∉ rs.map (·.id)) : (held rs).count (id, n) = 0 := by
  apply List.count_eq_zero_of_not_mem
  intro hm
  apply hq
  have ⟨r, hr, hm⟩ := List.mem_flatMap.mp hm
  have ⟨_, _, he⟩ := List.mem_map.mp hm
  exact (Prod.mk.inj he).1 ▸ List.mem_map_of_mem hr

theorem count_held (hn : (rs.map (·.id)).Nodup) (hq : q ∈ rs) :
    (held rs).count (q.id, n) = q.links.count n := by
  induction rs
  case nil => contradiction
  case cons r rs hi =>
    have ⟨hr, hn⟩ := List.nodup_cons.mp hn
    rw [held_cons, List.count_append, count_links]
    cases List.mem_cons.mp hq
    case inl he =>
      subst he
      simp [count_held_of_not_mem hr]
    case inr hq =>
      have hne : r.id ≠ q.id := fun he => hr (List.mem_map.mpr ⟨q, hq, he.symm⟩)
      simp [hne, hi hn hq]

theorem mem_parents : (id, n) ∈ parents rs ↔ ∃ r ∈ rs, r.parent = some id ∧ r.id = n := by
  simp [parents]

theorem count_parents_le (hn : (rs.map (·.id)).Nodup) : (parents rs).count (id, n) ≤ 1 := by
  induction rs
  case nil => simp [parents]
  case cons r rs hi =>
    have ⟨hr, hn⟩ := List.nodup_cons.mp hn
    rw [parents_cons, List.count_append]
    by_cases he : r.id = n
    case pos =>
      have hz : (parents rs).count (id, n) = 0 := by
        apply List.count_eq_zero_of_not_mem
        intro hm
        apply hr
        have ⟨r', hr', _, he'⟩ := mem_parents.mp hm
        exact List.mem_map.mpr ⟨r', hr', he'.trans he.symm⟩
      have hl : (r.parent.toList.map (·, r.id)).count (id, n) ≤ 1 := by
        cases r.parent <;> simp [List.count_singleton]
        split <;> simp
      omega
    case neg =>
      have hz : (r.parent.toList.map (·, r.id)).count (id, n) = 0 := by
        cases r.parent <;> simp [he]
      have := hi hn
      omega

-- A record that has a parent is named by it, and only once.
theorem Links.reached (h : Links rs [] []) (hn : (rs.map (·.id)).Nodup) (hr : r ∈ rs)
    (hp : r.parent = some id) : ∃ q ∈ rs, q.id = id ∧ q.links.count r.id = 1 := by
  have ⟨_, hh, hp'⟩ := h
  have hc := (hh.trans hp'.symm).count_eq (id, r.id)
  have hm : 0 < (held rs).count (id, r.id) :=
    hc ▸ List.count_pos_iff.mpr (mem_parents.mpr ⟨r, hr, hp, rfl⟩)
  have ⟨q, hq, hm'⟩ := List.mem_flatMap.mp (List.count_pos_iff.mp hm)
  have ⟨_, _, he⟩ := List.mem_map.mp hm'
  obtain rfl := (Prod.mk.inj he).1
  have hle : (parents rs).count (q.id, r.id) ≤ 1 := count_parents_le hn
  rw [count_held hn hq] at hm hc
  exact ⟨q, hq, rfl, by omega⟩

-- A record that is named has the one that names it as its parent.
theorem Links.reaches (h : Links rs [] []) (hn : (rs.map (·.id)).Nodup) (hq : q ∈ rs)
    (hm : n ∈ q.links) : ∃ r ∈ rs, r.id = n ∧ r.parent = some q.id := by
  have ⟨_, hh, hp⟩ := h
  have hc := (hh.trans hp.symm).count_eq (q.id, n)
  rw [count_held hn hq] at hc
  have hm : 0 < (parents rs).count (q.id, n) := hc ▸ List.count_pos_iff.mpr hm
  have ⟨r, hr, hp, he⟩ := mem_parents.mp (List.count_pos_iff.mp hm)
  exact ⟨r, hr, he, hp⟩

end Distinct

end Links

end Record

end BlockLang
