import Std.Data.TreeMap.Lemmas
import BlockLang.Files.Memory
import BlockLang.Proofs.Except
import BlockLang.Proofs.Files.Place
import BlockLang.Proofs.Lookup

/-!
The order of paths, and what lies in a directory of files that are held in memory: every name right
below the place of the directory once, in order, however deep the files are and however the
directory is spelled.
-/

namespace BlockLang

namespace Component

instance : Std.OrientedOrd Component where
  eq_swap {a b} := by
    cases a <;> cases b
    case name.name a b => exact Std.OrientedOrd.eq_swap (a := a) (b := b)
    all_goals rfl

-- Names are compared as texts, and everything else by rank.
instance : Std.TransOrd Component where
  isLE_trans {a b c} := by
    cases a <;> cases b <;> cases c
    case name.name.name a b c => exact Std.TransOrd.isLE_trans (a := a) (b := b) (c := c)
    all_goals simp [compare, Component.compare, compare.rank, compareOfLessAndEq]

instance : Std.LawfulEqOrd Component where
  compare_self {a} := by
    cases a
    case name a => exact Std.ReflOrd.compare_self (a := a)
    all_goals rfl
  eq_of_compare {a b} := by
    cases a <;> cases b
    case name.name a b => exact fun h => congrArg name (Std.LawfulEqOrd.eq_of_compare h)
    all_goals simp [compare, Component.compare, compare.rank, compareOfLessAndEq]

end Component

namespace FileSource

variable {p q r : Path}

theorem inOrder_trans (h : inOrder p q) (h' : inOrder q r) : inOrder p r :=
  Std.TransOrd.isLE_trans (a := p.components) (b := q.components) (c := r.components) h h'

theorem inOrder_total (p q : Path) : inOrder p q || inOrder q p := by
  by_cases h : inOrder p q
  · simp [h]
  · have h : compare q.components p.components = .lt := Std.OrientedCmp.lt_of_not_isLE h
    have h : inOrder q p := Ordering.isLE_of_eq_lt h
    simp [h]

theorem pairwise_mergeSort (files : List Path) :
    (files.mergeSort inOrder).Pairwise fun p q => inOrder p q := by
  apply List.pairwise_mergeSort
  · intro p q r h h'
    exact inOrder_trans h h'
  · exact inOrder_total

theorem pairwise_of_glob {source : FileSource} {base : Path} {pattern : String} {files : List Path}
    (h : source.glob base pattern = .ok files) : files.Pairwise fun p q => inOrder p q := by
  unfold glob at h
  split at h
  case h_1 => contradiction
  case h_2 => exact Except.ok.inj h ▸ pairwise_mergeSort _

end FileSource

namespace MemoryTree

variable {t : MemoryTree} {p q : Path} {text : String}

theorem readText_eq_ok : t.source.readText p = .ok text ↔
    ∃ bytes, t.files[p.place]? = some bytes ∧ Utf8.decode bytes = .ok text := by
  simp only [FileSource.readText, source, readBytes]
  cases t.files[p.place]? <;> simp [mapError_eq_ok]

-- What a file holds is told by its place.
theorem readText_of_place (h : t.source.readText p = .ok text) (he : q.place = p.place) :
    t.source.readText q = .ok text :=
  readText_eq_ok.mpr (he ▸ readText_eq_ok.mp h)

end MemoryTree

namespace FileSource

variable {p q : Path}

theorem compare_eq_lt (h : inOrder p q) (hn : p.components ≠ q.components) :
    compare p q = .lt := by
  have hn : compare p q ≠ .eq := fun he => hn (Std.LawfulEqOrd.eq_of_compare he)
  cases hc : compare p q
  case lt => rfl
  case eq => contradiction
  case gt => simp [inOrder, hc] at h

theorem components_ne (h : compare p q = .lt) : p.components ≠ q.components := by
  intro he
  have h : compare p.components q.components = .lt := h
  simp [he] at h

end FileSource

namespace MemoryTree

open BlockLang.Path

variable {t : MemoryTree} {files : List (Path × ByteArray)} {dir p : Path} {c : Component}
  {place cs : List Component}

-- The tree that holds some files. Of those that have one place the last one is held.
def ofFiles (files : List (Path × ByteArray)) : MemoryTree :=
  files.foldl (fun t file => t.insert file.1 file.2) empty

theorem mem_foldl_insert : place ∈ (files.foldl (fun t file => t.insert file.1 file.2) t).files ↔
    (∃ file ∈ files, file.1.place = place) ∨ place ∈ t.files := by
  induction files generalizing t
  case nil => simp
  case cons file files hi =>
    rw [List.foldl_cons, hi]
    simp [insert, Std.TreeMap.mem_insert, or_assoc, or_comm]

theorem mem_ofFiles : place ∈ (ofFiles files).files ↔ ∃ file ∈ files, file.1.place = place := by
  simp [ofFiles, mem_foldl_insert, empty]

theorem isFile_iff : t.source.isFile p ↔ p.place ∈ t.files :=
  Std.TreeMap.contains_iff_mem

-- Files are held at places only.
def Placed (t : MemoryTree) : Prop :=
  ∀ place ∈ t.files, IsPlace place

theorem placed_ofFiles : (ofFiles files).Placed := by
  intro place h
  have ⟨file, _, he⟩ := mem_ofFiles.mp h
  exact he ▸ isPlace_place

theorem below?_eq_some : below? place cs = some (c, ds) ↔ cs = place ++ c :: ds := by
  unfold below?
  split
  case isTrue h =>
    obtain ⟨es, rfl⟩ := List.isPrefixOf_iff_prefix.mp h
    rw [List.drop_left]
    cases es <;> simp
  case isFalse h =>
    refine ⟨nofun, fun he => absurd ?_ h⟩
    exact List.isPrefixOf_iff_prefix.mpr ⟨_, he.symm⟩

-- The first steps of the ways from a place to the files below it.
def stepsBelow (t : MemoryTree) (place : List Component) : List Component :=
  (t.files.keys.filterMap fun file => (below? place file).map (·.1)).eraseDups

theorem mem_stepsBelow : c ∈ t.stepsBelow place ↔ ∃ ds, place ++ c :: ds ∈ t.files := by
  simp only [stepsBelow, List.mem_eraseDups, List.mem_filterMap, Option.map_eq_some_iff,
    Prod.exists, below?_eq_some, Std.TreeMap.mem_keys]
  constructor
  · rintro ⟨_, hm, _, ds, rfl, rfl⟩
    exact ⟨ds, hm⟩
  · rintro ⟨ds, hm⟩
    exact ⟨_, hm, c, ds, rfl, rfl⟩

theorem listDir_perm :
    (t.listDir dir).Perm ((t.stepsBelow dir.place).map fun c => ofComponents (dir.place ++ [c])) :=
  List.mergeSort_perm _ _

theorem isPlace_of_mem_stepsBelow (ht : t.Placed) (h : c ∈ t.stepsBelow place) :
    IsPlace (place ++ [c]) := by
  have ⟨ds, hm⟩ := mem_stepsBelow.mp h
  have hp : IsPlace ((place ++ [c]) ++ ds) := by simpa using ht _ hm
  exact hp.of_append

theorem mem_listDir : p ∈ t.listDir dir ↔
    ∃ c ds, dir.place ++ c :: ds ∈ t.files ∧ p = ofComponents (dir.place ++ [c]) := by
  rw [listDir_perm.mem_iff, List.mem_map]
  constructor
  · rintro ⟨c, hc, rfl⟩
    have ⟨ds, hm⟩ := mem_stepsBelow.mp hc
    exact ⟨c, ds, hm, rfl⟩
  · rintro ⟨c, ds, hm, rfl⟩
    exact ⟨c, mem_stepsBelow.mpr ⟨ds, hm⟩, rfl⟩

theorem isPlace_of_mem_listDir (ht : t.Placed) (h : p ∈ t.listDir dir) :
    ∃ c, IsPlace (dir.place ++ [c]) ∧ p = ofComponents (dir.place ++ [c]) := by
  have ⟨c, ds, hm, he⟩ := mem_listDir.mp h
  exact ⟨c, isPlace_of_mem_stepsBelow ht (mem_stepsBelow.mpr ⟨ds, hm⟩), he⟩

theorem pairwise_listDir (ht : t.Placed) :
    (t.listDir dir).Pairwise fun p q => compare p q = .lt := by
  have hn : ((t.listDir dir).map components).Nodup := by
    refine (listDir_perm.map _).nodup_iff.mpr ?_
    rw [List.map_map]
    refine nodup_eraseDups.map_on fun c hc d hd he => ?_
    have hc := isPlace_of_mem_stepsBelow ht hc
    have hd := isPlace_of_mem_stepsBelow ht hd
    simpa [Function.comp, hc.components_ofComponents, hd.components_ofComponents] using he
  exact (FileSource.pairwise_mergeSort _).imp₂ (fun _ _ => FileSource.compare_eq_lt)
    (List.pairwise_map.mp hn)

end MemoryTree

end BlockLang
