import BlockLang.Proofs.Files.Memory

/-!
What is found below a directory of files that are held in memory, by a pattern and by going down
through the listings. The directory may be spelled with detours for every other question about it,
but a pattern finds nothing then.
-/

namespace BlockLang

namespace Path

-- A path without detours is its own place.
def IsDirect (p : Path) : Prop :=
  p.components = p.place

variable {p : Path} {cs : List Component}

-- No place has detours on the way to it.
theorem isDirect_of_prefix (h : IsPlace cs) (hp : p.components <+: cs) : p.IsDirect := by
  obtain ⟨way, rfl⟩ := hp
  exact h.of_append.foldl_follow.symm

end Path

namespace MemoryTree

open BlockLang.Path

-- The files of a list that lie below a directory, at places that a pattern matches as they are seen
-- from the place of the directory.
def Matches (files : List (Path × ByteArray)) (dir : Path) (pattern : String) (p : Path) : Prop :=
  ∃ file ∈ files, p = file.1.normalize ∧ ∃ way, way ≠ [] ∧
    p.components = dir.normalize.components ++ way ∧
    globMatches pattern ("/".intercalate (way.map Component.text))

variable {t : MemoryTree} {files : List (Path × ByteArray)} {dir base p : Path} {pattern : String}
  {place cs : List Component}

theorem isSome_below? : (below? place cs).isSome ↔ ∃ way, way ≠ [] ∧ cs = place ++ way := by
  simp only [Option.isSome_iff_exists, Prod.exists, below?_eq_some]
  constructor
  case mp =>
    rintro ⟨c, way, rfl⟩
    exact ⟨c :: way, List.cons_ne_nil c way, rfl⟩
  case mpr =>
    rintro ⟨way, hw, rfl⟩
    obtain ⟨c, way, rfl⟩ := List.exists_cons_of_ne_nil hw
    exact ⟨c, way, rfl⟩

theorem mem_walk : p ∈ t.walk dir ↔
    ∃ way, way ≠ [] ∧ dir.place ++ way ∈ t.files ∧ p = ofComponents (dir.place ++ way) := by
  simp only [walk, List.mem_map, List.mem_filter, Std.TreeMap.mem_keys, isSome_below?]
  constructor
  case mp =>
    rintro ⟨_, ⟨hm, way, hw, rfl⟩, rfl⟩
    exact ⟨way, hw, hm, rfl⟩
  case mpr =>
    rintro ⟨way, hw, hm, rfl⟩
    exact ⟨_, ⟨hm, way, hw, rfl⟩, rfl⟩

theorem nodup_components_walk (ht : t.Placed) : ((t.walk dir).map components).Nodup := by
  have hn : (t.files.keys.filter fun place => (below? dir.place place).isSome).Nodup :=
    Std.TreeMap.nodup_keys.filter _
  refine (List.map_map ▸ hn.map_on) fun cs hc ds hd he => ?_
  have hc := ht _ (Std.TreeMap.mem_keys.mp (List.mem_filter.mp hc).1)
  have hd := ht _ (Std.TreeMap.mem_keys.mp (List.mem_filter.mp hd).1)
  simpa [hc.components_ofComponents, hd.components_ofComponents] using he

-- What a pattern finds, before it is put in order.
def found (t : MemoryTree) (base : Path) (pattern : String) : List Path :=
  (t.walk base).filter fun file =>
    match FileSource.wayFrom? base file with
    | some way => globMatches pattern way
    | none => false

theorem glob_eq :
    t.source.glob base pattern = .ok ((t.found base pattern).mergeSort FileSource.inOrder) :=
  rfl

theorem pairwise_found (ht : t.Placed) :
    ((t.found base pattern).mergeSort FileSource.inOrder).Pairwise
      fun p q => compare p q = .lt := by
  have hp : ((t.found base pattern).mergeSort FileSource.inOrder).Perm (t.found base pattern) :=
    List.mergeSort_perm _ _
  have hn : ((t.found base pattern).map components).Nodup :=
    (nodup_components_walk ht).sublist (List.filter_sublist.map _)
  exact (FileSource.pairwise_mergeSort _).imp₂ (fun _ _ => FileSource.compare_eq_lt)
    (List.pairwise_map.mp ((hp.map _).nodup_iff.mpr hn))

-- The files are told by their places, and only a base without detours leads to a place.
theorem mem_found (ht : t.Placed) : p ∈ t.found base pattern ↔ base.IsDirect ∧
    ∃ way, way ≠ [] ∧ base.place ++ way ∈ t.files ∧ p = ofComponents (base.place ++ way) ∧
      globMatches pattern ("/".intercalate (way.map Component.text)) := by
  simp only [found, List.mem_filter, mem_walk]
  constructor
  case mp =>
    rintro ⟨⟨way, hw, hm, rfl⟩, hf⟩
    have hc := (ht _ hm).components_ofComponents
    simp only [FileSource.wayFrom?, startsWith, hc] at hf
    split at hf
    case h_2 => contradiction
    case h_1 h =>
      simp only [Option.ite_none_right_eq_some, Option.some.injEq] at h
      obtain ⟨hp, rfl⟩ := h
      have hb : base.IsDirect := isDirect_of_prefix (ht _ hm) (List.isPrefixOf_iff_prefix.mp hp)
      rw [hb, List.drop_left] at hf
      exact ⟨hb, way, hw, hm, rfl, hf⟩
  case mpr =>
    rintro ⟨hb, way, hw, hm, rfl, hf⟩
    refine ⟨⟨way, hw, hm, rfl⟩, ?_⟩
    have hc := (ht _ hm).components_ofComponents
    have hp : base.place.isPrefixOf (base.place ++ way) := by simp
    have hb : base.components = base.place := hb
    simpa [FileSource.wayFrom?, startsWith, hc, hb, hp] using hf

theorem matches_iff : Matches files base pattern p ↔
    ∃ way, way ≠ [] ∧ base.place ++ way ∈ (ofFiles files).files ∧
      p = ofComponents (base.place ++ way) ∧
      globMatches pattern ("/".intercalate (way.map Component.text)) := by
  simp only [Matches, mem_ofFiles, components_normalize]
  constructor
  case mp =>
    rintro ⟨file, hm, rfl, way, hw, hc, hf⟩
    rw [components_normalize] at hc
    exact ⟨way, hw, ⟨file, hm, hc⟩, hc ▸ rfl, hf⟩
  case mpr =>
    rintro ⟨way, hw, ⟨file, hm, hc⟩, rfl, hf⟩
    refine ⟨file, hm, hc ▸ rfl, way, hw, ?_, hf⟩
    rw [← hc, isPlace_place.components_ofComponents]

theorem walk_congr (h : dir.place = base.place) : t.walk dir = t.walk base := by
  simp only [walk, h]

theorem found_congr (hd : dir.IsDirect) (hb : base.IsDirect)
    (h : dir.place = base.place) : t.found dir pattern = t.found base pattern := by
  have hc : dir.components = base.components := hd.trans (h.trans hb.symm)
  have hw : FileSource.wayFrom? dir = FileSource.wayFrom? base := by
    funext file
    rw [FileSource.wayFrom?, FileSource.wayFrom?, startsWith, startsWith, hc]
  rw [found, found, hw, walk_congr h]

-- A pattern finds every file that it matches below a directory, and nothing else, if the directory
-- is spelled without detours. Otherwise it finds nothing.
theorem glob_ofFiles (files : List (Path × ByteArray)) (base : Path) (pattern : String) :
    ∃ found, (ofFiles files).source.glob base pattern = .ok found ∧
      found.Pairwise (fun p q => compare p q = .lt) ∧
      (∀ p, p ∈ found ↔ base.IsDirect ∧ Matches files base pattern p) ∧
      ∀ dir : Path, dir.normalize = base.normalize →
        (ofFiles files).source.isDir dir = (ofFiles files).source.isDir base ∧
        (ofFiles files).source.listDir dir = (ofFiles files).source.listDir base ∧
        (ofFiles files).source.walk dir = (ofFiles files).source.walk base ∧
        (dir.IsDirect → base.IsDirect → (ofFiles files).source.glob dir pattern = .ok found) := by
  refine ⟨_, glob_eq, pairwise_found placed_ofFiles, fun p => ?_, fun dir h => ?_⟩
  case refine_1 =>
    rw [(List.mergeSort_perm _ _).mem_iff, mem_found placed_ofFiles, matches_iff]
  case refine_2 =>
    have h := normalize_inj.mp h
    refine ⟨?_, ?_, ?_, fun hd hb => ?_⟩
    case refine_1 => simp only [source, isDir, h]
    case refine_2 => simp only [source, listDir, h]
    case refine_3 => simp only [source, walk_congr h]
    case refine_4 => rw [glob_eq, found_congr hd hb h]

-- Files on two levels, one of which is put there by a path with detours.
def levelFiles : List (Path × ByteArray) :=
  [(⟨"p/lib/b.gs"⟩, .empty), (⟨"./p/x/../a.gs"⟩, .empty), (⟨"p/a.svg"⟩, .empty)]

-- Slashes and dots that lead nowhere are no detours.
theorem glob_levelFiles : (⟨"p//./"⟩ : Path).normalize = (⟨"p"⟩ : Path).normalize ∧
    (⟨"p//./"⟩ : Path).IsDirect ∧ (⟨"p"⟩ : Path).IsDirect ∧
    Matches levelFiles ⟨"p"⟩ "**/*.gs" ⟨"p/a.gs"⟩ ∧
    (ofFiles levelFiles).source.glob ⟨"p"⟩ "**/*.gs" = .ok [⟨"p/a.gs"⟩, ⟨"p/lib/b.gs"⟩] ∧
    (ofFiles levelFiles).source.glob ⟨"p//./"⟩ "**/*.gs" = .ok [⟨"p/a.gs"⟩, ⟨"p/lib/b.gs"⟩] := by
  have hn : (⟨"p//./"⟩ : Path).normalize = (⟨"p"⟩ : Path).normalize := by decide +kernel
  have hd : (⟨"p//./"⟩ : Path).components = (⟨"p//./"⟩ : Path).place := by decide +kernel
  have hb : (⟨"p"⟩ : Path).components = (⟨"p"⟩ : Path).place := by decide +kernel
  have hl : (ofFiles levelFiles).found ⟨"p"⟩ "**/*.gs" = [⟨"p/a.gs"⟩, ⟨"p/lib/b.gs"⟩] := by
    decide +kernel
  have hg : (ofFiles levelFiles).source.glob ⟨"p"⟩ "**/*.gs" =
      .ok [⟨"p/a.gs"⟩, ⟨"p/lib/b.gs"⟩] := by
    rw [glob_eq, hl, List.mergeSort_of_pairwise (by decide +kernel)]
  have ⟨found, hf, _, hm, hs⟩ := glob_ofFiles levelFiles ⟨"p"⟩ "**/*.gs"
  obtain rfl := Except.ok.inj (hg.symm.trans hf)
  have ⟨_, h⟩ := (hm ⟨"p/a.gs"⟩).mp List.mem_cons_self
  have ⟨_, _, _, h'⟩ := hs ⟨"p//./"⟩ hn
  exact ⟨hn, hd, hb, h, hg, h' hd hb⟩

-- From a directory that is spelled with a detour, the same pattern finds nothing.
theorem glob_detour : (⟨"p/x/.."⟩ : Path).normalize = (⟨"p"⟩ : Path).normalize ∧
    Matches levelFiles ⟨"p/x/.."⟩ "*.gs" ⟨"p/a.gs"⟩ ∧
    (ofFiles levelFiles).source.walk ⟨"p/x/.."⟩ = (ofFiles levelFiles).source.walk ⟨"p"⟩ ∧
    (ofFiles levelFiles).source.glob ⟨"p"⟩ "*.gs" = .ok [⟨"p/a.gs"⟩] ∧
    (ofFiles levelFiles).source.glob ⟨"p/x/.."⟩ "*.gs" = .ok [] := by
  have hm : Matches levelFiles ⟨"p/x/.."⟩ "*.gs" ⟨"p/a.gs"⟩ :=
    ⟨(⟨"./p/x/../a.gs"⟩, .empty), by simp [levelFiles], by decide +kernel, [.name "a.gs"],
      List.cons_ne_nil _ _, by decide +kernel, by decide +kernel⟩
  exact ⟨by decide +kernel, hm, by decide +kernel, by decide +kernel, by decide +kernel⟩

end MemoryTree

-- The files that are found from a directory by its listing, and by the listings of the directories
-- that stand in it.
inductive FileSource.Finds (source : FileSource) : Path → Path → Prop
  | file {dir p : Path} {members : List Path} (hl : source.listDir dir = .ok members)
      (hm : p ∈ members) (hf : source.isFile p) : Finds source dir p
  | deeper {dir member p : Path} {members : List Path} (hl : source.listDir dir = .ok members)
      (hm : member ∈ members) (hd : source.isDir member) (h : Finds source member p) :
      Finds source dir p

namespace MemoryTree

open BlockLang.Path FileSource

variable {t : MemoryTree} {dir p : Path} {way : List Component}

theorem isDir_iff : t.source.isDir dir ↔ ∃ way, way ≠ [] ∧ dir.place ++ way ∈ t.files := by
  simp only [source, isDir, List.any_eq_true, Std.TreeMap.mem_keys, isSome_below?]
  constructor
  case mp =>
    rintro ⟨_, hm, way, hw, rfl⟩
    exact ⟨way, hw, hm⟩
  case mpr =>
    rintro ⟨way, hw, hm⟩
    exact ⟨_, hm, way, hw, rfl⟩

-- There is a first step on every way to a file.
theorem isDir_iff_listDir_ne_nil : t.source.isDir dir ↔ t.listDir dir ≠ [] := by
  rw [isDir_iff, ← List.isEmpty_eq_false_iff, List.isEmpty_eq_false_iff_exists_mem]
  simp only [mem_listDir]
  constructor
  case mp =>
    rintro ⟨way, hw, hm⟩
    obtain ⟨c, ds, rfl⟩ := List.exists_cons_of_ne_nil hw
    exact ⟨_, c, ds, hm, rfl⟩
  case mpr =>
    rintro ⟨_, c, ds, hm, rfl⟩
    exact ⟨c :: ds, List.cons_ne_nil c ds, hm⟩

-- What is listed is one step further down.
theorem place_of_mem_listDir (ht : t.Placed) (h : p ∈ t.listDir dir) :
    ∃ c, p.place = dir.place ++ [c] ∧ p = ofComponents p.place := by
  have ⟨c, hc, he⟩ := isPlace_of_mem_listDir ht h
  have hp : p.place = dir.place ++ [c] := he ▸ hc.place_ofComponents
  exact ⟨c, hp, hp ▸ he⟩

theorem isFile_or_isDir_of_mem_listDir (ht : t.Placed) (h : p ∈ t.listDir dir) :
    t.source.isFile p ∨ t.source.isDir p := by
  have ⟨c, ds, hm, he⟩ := mem_listDir.mp h
  have hp : p.place = dir.place ++ [c] :=
    he ▸ (isPlace_of_mem_stepsBelow ht (mem_stepsBelow.mpr ⟨ds, hm⟩)).place_ofComponents
  rw [isFile_iff, isDir_iff, hp]
  by_cases hd : ds = []
  case pos => exact .inl (hd ▸ hm)
  case neg => exact .inr ⟨ds, hd, by simpa using hm⟩

-- Going down a way, one directory after another.
theorem finds_of_way (ht : t.Placed) (hw : way ≠ []) (hm : dir.place ++ way ∈ t.files) :
    t.source.Finds dir (ofComponents (dir.place ++ way)) := by
  induction way generalizing dir
  case nil => contradiction
  case cons c ds hi =>
    have hl : ofComponents (dir.place ++ [c]) ∈ t.listDir dir := mem_listDir.mpr ⟨c, ds, hm, rfl⟩
    have hp : (ofComponents (dir.place ++ [c])).place = dir.place ++ [c] :=
      (isPlace_of_mem_stepsBelow ht (mem_stepsBelow.mpr ⟨ds, hm⟩)).place_ofComponents
    have he : dir.place ++ c :: ds = (ofComponents (dir.place ++ [c])).place ++ ds := by simp [hp]
    by_cases hd : ds = []
    case pos =>
      subst hd
      rw [← hp, ← isFile_iff] at hm
      exact .file rfl hl hm
    case neg =>
      rw [he] at hm ⊢
      have hn : t.source.isDir (ofComponents (dir.place ++ [c])) := isDir_iff.mpr ⟨ds, hd, hm⟩
      exact .deeper rfl hl hn (hi hd hm)

theorem way_of_finds (ht : t.Placed) (h : t.source.Finds dir p) :
    ∃ way, way ≠ [] ∧ dir.place ++ way ∈ t.files ∧ p = ofComponents (dir.place ++ way) := by
  induction h
  case file hl hm hf =>
    obtain rfl := Except.ok.inj hl
    have ⟨c, hc, he⟩ := place_of_mem_listDir ht hm
    rw [isFile_iff] at hf
    exact ⟨[c], List.cons_ne_nil c [], hc ▸ hf, hc ▸ he⟩
  case deeper hl hm _ _ hi =>
    obtain rfl := Except.ok.inj hl
    have ⟨c, hc, _⟩ := place_of_mem_listDir ht hm
    have ⟨way, _, hw, he⟩ := hi
    rw [hc, List.append_assoc] at hw he
    exact ⟨c :: way, List.cons_ne_nil c way, hw, he⟩

theorem mem_walk_iff_finds (ht : t.Placed) : p ∈ t.walk dir ↔ t.source.Finds dir p := by
  rw [mem_walk]
  constructor
  case mp =>
    rintro ⟨way, hw, hm, rfl⟩
    exact finds_of_way ht hw hm
  case mpr => exact way_of_finds ht

-- Files are held in the order of their paths.
theorem pairwise_walk (ht : t.Placed) : (t.walk dir).Pairwise fun p q => compare p q = .lt := by
  have hk : t.files.keys.Pairwise fun cs ds => compare cs ds = .lt := Std.TreeMap.ordered_keys
  refine List.pairwise_map.mpr ((hk.filter _).imp_of_mem fun {cs ds} hc hd h => ?_)
  have hc := ht cs (Std.TreeMap.mem_keys.mp (List.mem_filter.mp hc).1)
  have hd := ht ds (Std.TreeMap.mem_keys.mp (List.mem_filter.mp hd).1)
  change compare (ofComponents cs).components (ofComponents ds).components = .lt
  rwa [hc.components_ofComponents, hd.components_ofComponents]

-- A directory has something in it, and each thing is listed once, in order, and is there. All the
-- files below a directory are found through the listings, and are told once, in order.
theorem views_ofFiles (files : List (Path × ByteArray)) (dir : Path) : ∃ members below,
    (ofFiles files).source.listDir dir = .ok members ∧
    (ofFiles files).source.walk dir = .ok below ∧
    ((ofFiles files).source.isDir dir ↔ members ≠ []) ∧
    members.Pairwise (fun p q => compare p q = .lt) ∧
    (∀ p ∈ members, (ofFiles files).source.isFile p ∨ (ofFiles files).source.isDir p) ∧
    below.Pairwise (fun p q => compare p q = .lt) ∧
    ∀ p, p ∈ below ↔ (ofFiles files).source.Finds dir p :=
  ⟨_, _, rfl, rfl, isDir_iff_listDir_ne_nil, pairwise_listDir placed_ofFiles,
    fun _ => isFile_or_isDir_of_mem_listDir placed_ofFiles, pairwise_walk placed_ofFiles,
    fun _ => mem_walk_iff_finds placed_ofFiles⟩

-- One of these paths is that of a file and leads to another file as well.
def nestedFiles : List (Path × ByteArray) :=
  [(⟨"p/lib/b.gs"⟩, .empty), (⟨"p/x/../lib"⟩, .empty), (⟨"../p/a.gs"⟩, .empty)]

theorem views_nestedFiles :
    (ofFiles nestedFiles).source.listDir ⟨"./p"⟩ = .ok [⟨"p/lib"⟩] ∧
    (ofFiles nestedFiles).source.walk ⟨"./p"⟩ = .ok [⟨"p/lib"⟩, ⟨"p/lib/b.gs"⟩] ∧
    ((ofFiles nestedFiles).source.isFile ⟨"p/lib"⟩ ∨ (ofFiles nestedFiles).source.isDir ⟨"p/lib"⟩) ∧
    (ofFiles nestedFiles).source.Finds ⟨"./p"⟩ ⟨"p/lib/b.gs"⟩ := by
  have hs : (ofFiles nestedFiles).listDir ⟨"./p"⟩ = [⟨"p/lib"⟩] := by decide +kernel
  have hb : (ofFiles nestedFiles).walk ⟨"./p"⟩ = [⟨"p/lib"⟩, ⟨"p/lib/b.gs"⟩] := by decide +kernel
  have ⟨members, below, hl, hw, _, _, hm, _, hf⟩ := views_ofFiles nestedFiles ⟨"./p"⟩
  obtain rfl : [⟨"p/lib"⟩] = members := hs.symm.trans (Except.ok.inj hl)
  obtain rfl : [⟨"p/lib"⟩, ⟨"p/lib/b.gs"⟩] = below := hb.symm.trans (Except.ok.inj hw)
  exact ⟨hl, hw, hm ⟨"p/lib"⟩ (by simp), (hf ⟨"p/lib/b.gs"⟩).mp (by simp)⟩

end MemoryTree

end BlockLang
