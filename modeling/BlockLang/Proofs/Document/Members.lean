import Mathlib.Data.List.Perm.Basic
import BlockLang.Document
import BlockLang.Proofs.Except
import BlockLang.Proofs.Lookup

/-!
Objects, and what is found in them by name.
-/

namespace BlockLang

namespace Document

-- The members of an object.
def members : Document → List (String × Document)
  | object ms => ms
  | _ => []

-- The items of a list.
def items : Document → List Document
  | list ds => ds
  | _ => []

-- The text, if it is one.
def text? : Document → Option String
  | text s => some s
  | _ => none

-- The member of an object that has some name.
def member? (key : String) (d : Document) : Option Document :=
  d.members.lookup key

variable {ms : List (String × Document)} {key : String} {d : Document}

@[simp]
theorem members_object : (object ms).members = ms := rfl

@[simp]
theorem items_list {ds : List Document} : (list ds).items = ds := rfl

@[simp]
theorem text?_text {s : String} : (text s).text? = some s := rfl

@[simp]
theorem text?_null : null.text? = none := rfl

@[simp]
theorem text?_ofOption {s : Option String} : (ofOption s).text? = s := by
  cases s <;> rfl

theorem nodup_keys_ofMembers : ((ofMembers ms).members.map (·.1)).Nodup := by
  rw [List.Nodup, List.pairwise_map]
  exact Std.TreeMap.distinct_keys_toList.imp fun h h' => h (by simpa using h')

-- Of two members with one name the later one is found.
theorem member?_ofMembers : (ofMembers ms).member? key = ms.reverse.lookup key := by
  apply Option.ext
  intro v
  rw [member?, lookup_eq_some_iff_mem nodup_keys_ofMembers]
  simp [ofMembers, getElem?_foldl_insert]

theorem mem_of_mem_ofMembers (h : (key, d) ∈ (ofMembers ms).members) : (key, d) ∈ ms := by
  rw [← lookup_eq_some_iff_mem nodup_keys_ofMembers, ← member?, member?_ofMembers] at h
  exact List.mem_reverse.mp (mem_of_lookup_eq_some h)

-- All names are kept, also those that repeat.
theorem mem_keys_ofMembers (h : key ∈ ms.map (·.1)) : key ∈ (ofMembers ms).members.map (·.1) := by
  have hs : ((ofMembers ms).member? key).isSome := by
    rw [member?_ofMembers, List.lookup_isSome_iff]
    simpa using h
  have ⟨d, hd⟩ := Option.isSome_iff_exists.mp hs
  exact List.mem_map.mpr ⟨(key, d), mem_of_lookup_eq_some hd, rfl⟩

-- An object whose values come from their names has each name once.
theorem mem_ofMembers_map {keys : List String} {f : String → Document} :
    (key, d) ∈ (ofMembers (keys.map fun k => (k, f k))).members ↔ key ∈ keys ∧ d = f key := by
  have hv : ∀ {d}, (key, d) ∈ (ofMembers (keys.map fun k => (k, f k))).members →
      key ∈ keys ∧ d = f key := by
    intro d h
    obtain ⟨k, hk, he⟩ := List.mem_map.mp (mem_of_mem_ofMembers h)
    obtain ⟨rfl, rfl⟩ := Prod.mk.inj he
    exact ⟨hk, rfl⟩
  constructor
  case mp => exact hv
  case mpr =>
    rintro ⟨hk, rfl⟩
    have hm : key ∈ (keys.map fun k => (k, f k)).map (·.1) := by simpa using hk
    obtain ⟨⟨_, d⟩, h, rfl⟩ := List.mem_map.mp (mem_keys_ofMembers hm)
    exact (hv h).2 ▸ h

-- An object loses none of the members that it is made of if no name repeats.
theorem members_ofMembers_perm (h : (ms.map (·.1)).Nodup) : (ofMembers ms).members.Perm ms := by
  have hn : (ofMembers ms).members.Nodup := List.Nodup.of_map _ nodup_keys_ofMembers
  apply (List.perm_ext_iff_of_nodup hn (List.Nodup.of_map _ h)).mpr
  intro (k, v)
  have hr : (ms.reverse.map (·.1)).Nodup := by simpa using h
  rw [← lookup_eq_some_iff_mem nodup_keys_ofMembers, ← member?, member?_ofMembers,
    lookup_eq_some_iff_mem hr, List.mem_reverse]

section Read

variable {α : Type} {read : String → Document → Option α} {ps : List (String × α)}

theorem pairwise_members_ofMembers :
    (ofMembers ms).members.Pairwise fun p q => compare p.1 q.1 = .lt :=
  Std.TreeMap.ordered_keys_toList

-- Reads each member of an object.
def readMembers (read : String → Document → Option α) (d : Document) : Option (List (String × α)) :=
  d.members.mapM fun (name, d) => (read name d).map (name, ·)

theorem map_fst_of_forall₂
    (h : List.Forall₂ (fun m p => (read m.1 m.2).map (m.1, ·) = some p) ms ps) :
    ps.map (·.1) = ms.map (·.1) := by
  induction h
  case nil => rfl
  case cons hm _ hi =>
    have ⟨_, _, he⟩ := Option.map_eq_some_iff.mp hm
    rw [List.map_cons, List.map_cons, hi, ← he]

theorem readMembers_ofMembers
    (hn : (ms.map (·.1)).Nodup)
    (h : List.Forall₂ (fun m p => (read m.1 m.2).map (m.1, ·) = some p) ms ps) :
    readMembers read (ofMembers ms) = some (byName ps) := by
  have ⟨qs, hq, hp⟩ := List.perm_comp_forall₂ (members_ofMembers_perm hn) h
  have hs : (qs.map (·.1)).Pairwise fun k l => compare k l = .lt := by
    rw [map_fst_of_forall₂ hq]
    exact List.pairwise_map.mpr pairwise_members_ofMembers
  rw [← eq_byName hp (List.pairwise_map.mp hs)]
  exact mapM_eq_some hq

end Read

end Document

end BlockLang
