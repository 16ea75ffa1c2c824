import Mathlib.Data.List.Perm.Basic
import BlockLang.Proofs.Files.Memory
import BlockLang.Proofs.Project.Compile

/-!
The targets of a project that is held in memory: the stage, and a sprite for each file of one that
lies right in the directory of the project.
-/

namespace BlockLang

-- The document of a target tells its name and its layer. The lowest layer is that of the stage.
structure Document.IsLayer (target : Document) (s : Sprite) (layer : Nat) : Prop where
  name  : target.member? "name" = some (.text s.name)
  stage : target.member? "isStage" = some (.bool (layer = 0))
  order : target.member? "layerOrder" = some (.int layer)

theorem Sprite.isLayer_document {s : Sprite} {records : List Record} {costumes : List Costume}
    {layer : Nat} {messages : List String} (h : s.isStage = decide (layer = 0)) :
    (s.document records costumes layer messages).IsLayer s layer := by
  constructor <;> cases hs : s.isStage <;>
    simp [document, extraMembers, Document.member?_ofMembers, List.lookup_cons, ← h, hs]

namespace Project

open MemoryTree

section Document

variable {p : Project} {costumes : List (List Costume)} {ss : List Sprite} {fresh : Nat}

theorem map_fst_flattenTargets : (flattenTargets fresh ss).map (·.1) = ss := by
  induction ss generalizing fresh
  case nil => rfl
  case cons s ss hi => simp [flattenTargets, hi]

theorem isStage_of_mem_zipIdx (hs : p.stage.name = Sprite.stageName)
    (hss : Sprite.stageName ∉ p.sprites.map (·.name)) :
    ∀ x ∈ p.targets.zipIdx, x.1.isStage = decide (x.2 = 0) := by
  rw [targets, List.zipIdx_cons]
  refine List.forall_mem_cons.mpr ⟨by simp [Sprite.isStage, hs], fun x hx => ?_⟩
  have hl : 0 + 1 ≤ x.2 := List.le_snd_of_mem_zipIdx hx
  have hn : x.1.name ≠ Sprite.stageName :=
    fun he => hss (List.mem_map.mpr ⟨x.1, List.fst_mem_of_mem_zipIdx hx, he⟩)
  simp [Sprite.isStage, hn, Nat.ne_of_gt hl]

-- Only the stage has its name, so it is the only target that is told to be the stage.
theorem forall₂_isLayer_document (hs : p.stage.name = Sprite.stageName)
    (hss : Sprite.stageName ∉ p.sprites.map (·.name)) :
    List.Forall₂ (fun x target => target.IsLayer x.1 x.2) p.targets.zipIdx
      (p.document costumes).targets := by
  have ht : p.targets.zipIdx = p.flatten.zipIdx.map (Prod.map Prod.fst id) := by
    rw [← List.zipIdx_map, flatten, map_fst_flattenTargets]
  have hl := isStage_of_mem_zipIdx hs hss
  rw [ht] at hl ⊢
  rw [targets_document, List.forall₂_map_left_iff, List.forall₂_map_right_iff, List.forall₂_same]
  exact fun x hx => Sprite.isLayer_document (hl _ (List.mem_map_of_mem hx))

end Document

section Names

variable {source : FileSource} {file : Path} {fs : List Path} {sprites : List (String × Path)}
  {ending r s : String} {sprite : Option String}

theorem withoutEnding?_eq_some : withoutEnding? ending s = some r ↔ s = r ++ ending := by
  unfold withoutEnding?
  rw [← String.toList_inj, String.toList_append]
  split
  case isTrue h =>
    have ⟨cs, hcs⟩ := List.isSuffixOf_iff_suffix.mp h
    have hl : s.length - ending.length = cs.length := by
      rw [← String.length_toList, ← String.length_toList, ← hcs, List.length_append,
        Nat.add_sub_cancel]
    rw [hl, ← hcs, List.take_left, Option.some.injEq, List.append_left_inj, ← String.toList_inj,
      String.toList_ofList]
  case isFalse h =>
    refine ⟨nofun, fun he => absurd ?_ h⟩
    exact List.isSuffixOf_iff_suffix.mpr ⟨_, he.symm⟩

theorem isSome_withoutEnding? :
    (withoutEnding? ending s).isSome ↔ ending.toList <:+ s.toList := by
  simp [withoutEnding?]

-- The name of the sprite that a file holds, be it one that a sprite can have or not.
def heldSprite? (source : FileSource) (file : Path) : Option String :=
  file.fileName?.bind fun name =>
    if name = stageFile || (withoutEnding? headerExtension name).isSome || !source.isFile file then
      none
    else withoutEnding? Merged.sourceExtension name

theorem heldSprite?_eq_some : heldSprite? source file = some s ↔
    file.fileName? = some (s ++ Merged.sourceExtension) ∧ s ++ Merged.sourceExtension ≠ stageFile ∧
      ¬ headerExtension.toList <:+ (s ++ Merged.sourceExtension).toList ∧ source.isFile file := by
  simp only [heldSprite?, Option.bind_eq_some_iff, Option.ite_none_left_eq_some,
    withoutEnding?_eq_some, Bool.or_eq_true, decide_eq_true_eq, isSome_withoutEnding?, not_or,
    Bool.not_eq_true', Bool.not_eq_false]
  constructor
  · rintro ⟨_, hf, ⟨⟨hs, hh⟩, hi⟩, rfl⟩
    exact ⟨hf, hs, hh, hi⟩
  · rintro ⟨hf, hs, hh, hi⟩
    exact ⟨_, hf, ⟨⟨hs, hh⟩, hi⟩, rfl⟩

-- A file is refused only if its sprite would be named as the stage is.
theorem spriteName?_eq_ok : spriteName? source file = .ok sprite ↔
    heldSprite? source file = sprite ∧ sprite ≠ some Sprite.stageName := by
  have hok : ∀ {held : Option String}, held ≠ some Sprite.stageName →
      ((Except.ok held : Except Diagnostic (Option String)) = .ok sprite ↔
        held = sprite ∧ sprite ≠ some Sprite.stageName) := by
    intro held hs
    rw [Except.ok.injEq, iff_self_and]
    rintro rfl
    exact hs
  unfold spriteName? heldSprite?
  cases file.fileName?
  case none => exact hok nofun
  case some name =>
    rw [Option.bind_some]
    dsimp only
    split
    case isTrue => exact hok nofun
    case isFalse =>
      cases withoutEnding? Merged.sourceExtension name
      case none => exact hok nofun
      case some held =>
        dsimp only
        by_cases hs : held = Sprite.stageName
        case pos => simp +contextual [hs]
        case neg =>
          rw [if_neg hs]
          exact hok (by simpa using hs)

theorem spritesAmong_eq_ok
    (h : ∀ file ∈ fs, heldSprite? source file ≠ some Sprite.stageName) :
    spritesAmong source fs =
      .ok ((fs.filterMap fun file => (heldSprite? source file).map (·, file)).mergeSort
        fun p q => FileSource.inOrder p.2 q.2) := by
  have hn : fs.mapM (fun file => do return (← spriteName? source file).map (·, file)) =
      Except.ok (fs.map fun file => (heldSprite? source file).map (·, file)) := by
    refine mapM_eq_map fun file hm => ?_
    rw [spriteName?_eq_ok.mpr ⟨rfl, h file hm⟩]
    rfl
  rw [spritesAmong, hn]
  change Except.ok _ = _
  rw [List.filterMap_map]
  rfl

-- The sprites among some files are those that the files hold, in order.
theorem of_spritesAmong (h : spritesAmong source fs = .ok sprites) :
    sprites.Perm (fs.filterMap fun file => (heldSprite? source file).map (·, file)) ∧
      (sprites.Pairwise fun p q => FileSource.inOrder p.2 q.2) ∧
      ∀ p ∈ sprites, p.1 ≠ Sprite.stageName := by
  obtain ⟨named, hn, h⟩ := bind_eq_ok.mp h
  obtain rfl := pure_eq_ok.mp h
  have hf : ∀ {file x}, (do return (← spriteName? source file).map (·, file)) = Except.ok x →
      x = (heldSprite? source file).map (·, file) ∧ ∀ p ∈ x, p.1 ≠ Sprite.stageName := by
    intro file x hx
    obtain ⟨sprite, hs, hx⟩ := bind_eq_ok.mp hx
    obtain rfl := pure_eq_ok.mp hx
    have ⟨he, hne⟩ := spriteName?_eq_ok.mp hs
    refine ⟨he ▸ rfl, fun p hp => ?_⟩
    have ⟨name, hm, he⟩ := Option.map_eq_some_iff.mp hp
    exact he ▸ fun hs => hne (hs ▸ hm)
  have he : named.filterMap id = fs.filterMap fun file => (heldSprite? source file).map (·, file) :=
    filterMap_of_mapM hn fun hx => (hf hx).1
  have hp := List.mergeSort_perm (named.filterMap id) fun p q => FileSource.inOrder p.2 q.2
  refine ⟨hp.trans (.of_eq he), ?_, fun p hm => ?_⟩
  · refine List.pairwise_mergeSort (fun _ _ _ => ?_) (fun _ _ => ?_) _
    · exact FileSource.inOrder_trans
    · exact FileSource.inOrder_total _ _
  · have hm : some p ∈ named := by simpa using hp.mem_iff.mp hm
    have ⟨_, _, hx⟩ := mem_of_mapM hn hm
    exact (hf hx).2 p rfl

end Names

section Memory

variable {t : MemoryTree} {files : List (Path × ByteArray)} {root file : Path}
  {sprites : List (String × Path)} {name : String} {globals own : Globals} {s : Sprite}
  {p : Project}

-- The place of a file that lies right in the directory of a project.
def placeIn (root : Path) (file : String) : List Component :=
  root.place ++ [.name file]

-- The path that the file of a sprite is read from.
def spriteFile (root : Path) (name : String) : Path :=
  .ofComponents (placeIn root (name ++ Merged.sourceExtension))

-- A sprite has a file that lies right in the directory, and that is neither the file of the stage
-- nor a header.
structure HasSprite (files : List (Path × ByteArray)) (root : Path) (name : String) : Prop where
  held      : ∃ file ∈ files, file.1.place = placeIn root (name ++ Merged.sourceExtension)
  notStage  : name ++ Merged.sourceExtension ≠ stageFile
  notHeader : ¬ headerExtension.toList <:+ (name ++ Merged.sourceExtension).toList

theorem heldSprite?_child {c : Component} (hp : Path.IsPlace (root.place ++ [c])) :
    heldSprite? t.source (.ofComponents (root.place ++ [c])) = some name ↔
      c = .name (name ++ Merged.sourceExtension) ∧ name ++ Merged.sourceExtension ≠ stageFile ∧
        ¬ headerExtension.toList <:+ (name ++ Merged.sourceExtension).toList ∧
        root.place ++ [c] ∈ t.files := by
  rw [heldSprite?_eq_some, isFile_iff, hp.place_ofComponents, Path.fileName?,
    hp.components_ofComponents, List.getLast?_append, List.getLast?_singleton, Option.some_or]
  cases c <;> simp

theorem heldSprite?_iff : file ∈ (ofFiles files).listDir root ∧
    heldSprite? (ofFiles files).source file = some name ↔
      HasSprite files root name ∧ file = spriteFile root name := by
  constructor
  · rintro ⟨hf, hs⟩
    obtain ⟨c, hp, rfl⟩ := isPlace_of_mem_listDir placed_ofFiles hf
    obtain ⟨rfl, hs, hh, hm⟩ := (heldSprite?_child hp).mp hs
    exact ⟨⟨mem_ofFiles.mp hm, hs, hh⟩, rfl⟩
  · rintro ⟨h, rfl⟩
    have hm : placeIn root (name ++ Merged.sourceExtension) ∈ (ofFiles files).files :=
      mem_ofFiles.mpr h.held
    refine ⟨mem_listDir.mpr ⟨_, [], hm, rfl⟩, ?_⟩
    exact (heldSprite?_child (placed_ofFiles _ hm)).mpr ⟨rfl, h.notStage, h.notHeader, hm⟩

-- The sprites of a project with their files.
structure Lists (files : List (Path × ByteArray)) (root : Path) (sprites : List (String × Path)) :
    Prop where
  complete : ∀ {name file}, (name, file) ∈ sprites ↔
    HasSprite files root name ∧ file = spriteFile root name
  sorted   : sprites.Pairwise fun p q => compare p.2 q.2 = .lt
  notStage : ∀ p ∈ sprites, p.1 ≠ Sprite.stageName

theorem lists_of_spritesAmong
    (h : spritesAmong (ofFiles files).source ((ofFiles files).listDir root) = .ok sprites) :
    Lists files root sprites := by
  have ⟨hp, ho, hn⟩ := of_spritesAmong h
  refine ⟨fun {name file} => ?_, ?_, hn⟩
  · rw [hp.mem_iff, ← heldSprite?_iff, List.mem_filterMap]
    simp only [Option.map_eq_some_iff, Prod.mk.injEq]
    constructor
    · rintro ⟨_, hf, _, hs, rfl, rfl⟩
      exact ⟨hf, hs⟩
    · rintro ⟨hf, hs⟩
      exact ⟨file, hf, name, hs, rfl, rfl⟩
  · have hd : ((ofFiles files).listDir root).Pairwise fun f g => f.components ≠ g.components :=
      (pairwise_listDir placed_ofFiles).imp FileSource.components_ne
    have hd : (sprites.Pairwise fun p q => p.2.components ≠ q.2.components) := by
      refine (hp.pairwise_iff fun h => h.symm).mpr (hd.filterMap _ ?_)
      intro f g hne p hp q hq
      obtain ⟨_, _, rfl⟩ := Option.map_eq_some_iff.mp hp
      obtain ⟨_, _, rfl⟩ := Option.map_eq_some_iff.mp hq
      exact hne
    exact ho.imp₂ (fun _ _ => FileSource.compare_eq_lt) hd

theorem isName_stageFile : Component.IsName stageFile := by
  constructor <;> decide

theorem of_spriteFiles (h : spriteFiles (ofFiles files).source root = .ok sprites) :
    (∃ file ∈ files, file.1.place = placeIn root stageFile) ∧ Lists files root sprites := by
  unfold spriteFiles at h
  split at h
  case isTrue => contradiction
  split at h
  case isTrue => contradiction
  case isFalse hs =>
    have hs : (root.child stageFile).place ∈ (ofFiles files).files :=
      isFile_iff.mp (by simpa using hs)
    rw [Path.place_child isName_stageFile] at hs
    exact ⟨mem_ofFiles.mp hs, lists_of_spritesAmong h⟩

theorem name_of_compileFile {source : FileSource}
    (h : compileFile source root name file globals = .ok (s, own)) : s.name = name := by
  obtain ⟨m, _, h⟩ := bind_eq_ok.mp h
  have h := mapError_eq_ok.mp h
  obtain ⟨tree, _, h⟩ := bind_eq_ok.mp h
  obtain ⟨symbols, _, h⟩ := bind_eq_ok.mp h
  split at h
  · contradiction
  obtain ⟨tree', _, h⟩ := bind_eq_ok.mp h
  obtain ⟨s', hs', h⟩ := bind_eq_ok.mp h
  obtain ⟨rfl, rfl⟩ := Prod.mk.inj (pure_eq_ok.mp h)
  obtain ⟨scripts, _, hs'⟩ := bind_eq_ok.mp hs'
  obtain rfl := pure_eq_ok.mp hs'
  rfl

theorem forall₂_of_compileSprites {source : FileSource} {total number : Nat} {ss : List Sprite}
    (h : (compileSprites source root globals total number sprites).result = .ok ss) :
    List.Forall₂ (fun f s => ∃ own, compileFile source root f.1 f.2 globals = .ok (s, own))
      sprites ss := by
  induction sprites generalizing number ss
  case nil =>
    obtain rfl := pure_eq_ok.mp h
    exact .nil
  case cons f fs hi =>
    simp only [compileSprites, Progress.result_bind_eq_ok, Progress.result_pure_eq_ok,
      Progress.result_ofExcept] at h
    obtain ⟨_, _, ⟨s, own⟩, hs, ss, hss, he⟩ := h
    exact he ▸ .cons ⟨own, hs⟩ (hi hss)

-- The sprites are those that the files in the directory hold, each compiled from its own file.
theorem Lists.eq_map {source : FileSource} {ss : List Sprite} (h : Lists files root sprites)
    (hs : List.Forall₂ (fun f s => ∃ own, compileFile source root f.1 f.2 globals = .ok (s, own))
      sprites ss) : sprites = (ss.map (·.name)).map fun name => (name, spriteFile root name) := by
  have hf : ∀ f ∈ sprites, f.2 = spriteFile root f.1 := fun _ hm => (h.complete.mp hm).2
  clear h
  induction hs
  case nil => rfl
  case cons f s fs ss hc _ hi =>
    have ⟨_, hc⟩ := hc
    have ⟨hf, hfs⟩ := List.forall_mem_cons.mp hf
    rw [List.map_cons, List.map_cons, ← hi hfs, name_of_compileFile hc, ← hf]

-- What the targets of a project are, which has been compiled from files that are held in memory.
structure Populated (files : List (Path × ByteArray)) (root : Path) (p : Project) : Prop where
  -- The stage has a file of its own that lies right in the directory.
  held     : ∃ file ∈ files, file.1.place = placeIn root stageFile
  compiled : ∃ globals, compileFile (ofFiles files).source root Sprite.stageName
      (root.child stageFile) .none = .ok (p.stage, globals) ∧
    ∀ s ∈ p.sprites, ∃ own, compileFile (ofFiles files).source root s.name
      (spriteFile root s.name) globals = .ok (s, own)
  complete : ∀ name, name ∈ p.sprites.map (·.name) ↔ HasSprite files root name
  sorted   : p.sprites.Pairwise fun s s' =>
    compare (spriteFile root s.name) (spriteFile root s'.name) = .lt
  stage    : p.stage.name = Sprite.stageName
  distinct : (p.targets.map (·.name)).Nodup
  layers   : ∀ costumes, List.Forall₂ (fun x target => target.IsLayer x.1 x.2) p.targets.zipIdx
    (p.document costumes).targets

-- The directory can be spelled in any way, and hold files at any depth.
theorem populated_of_compile (h : (compile (ofFiles files).source root).result = .ok p) :
    Populated files root p := by
  simp only [compile, Progress.result_bind_eq_ok, Progress.result_pure_eq_ok,
    Progress.result_ofExcept] at h
  obtain ⟨sprites, hf, _, _, ⟨stage, globals⟩, hs, ss, hss, he⟩ := h
  subst he
  obtain ⟨hh, hl⟩ := of_spriteFiles hf
  have hss := forall₂_of_compileSprites hss
  obtain rfl : sprites = (ss.map (·.name)).map fun name => (name, spriteFile root name) :=
    hl.eq_map hss
  have hn : stage.name = Sprite.stageName := name_of_compileFile hs
  have hns : Sprite.stageName ∉ ss.map (·.name) :=
    fun hm => hl.notStage _ (List.mem_map_of_mem hm) rfl
  have hi : Function.Injective fun name => (name, spriteFile root name) :=
    fun _ _ he => (Prod.mk.inj he).1
  have ho := List.pairwise_map.mp hl.sorted
  have hd : (ss.map (·.name)).Nodup := ho.imp fun hc he =>
    FileSource.components_ne hc (congrArg (fun name => (spriteFile root name).components) he)
  exact {
    held     := hh
    compiled := by
      refine ⟨globals, hs, fun s hm => ?_⟩
      rw [List.map_map, List.forall₂_map_left_iff] at hss
      exact List.forall₂_same.mp hss s hm
    complete := fun name => by rw [← List.mem_map_of_injective hi, hl.complete]; simp
    sorted   := List.pairwise_map.mp ho
    stage    := hn
    distinct := List.nodup_cons.mpr ⟨show stage.name ∉ _ from hn ▸ hns, hd⟩
    layers   := fun _ => forall₂_isLayer_document hn hns
  }

-- Two sprites and the stage, next to a header, to a directory that is named as a file of a sprite,
-- and to a file further down. One of the sprites is held twice, and the last of its texts is read.
def gameFiles : List (Path × ByteArray) :=
  [(⟨"game/a.svg"⟩, "".toUTF8), (⟨"game/lib/../b.gs"⟩, "".toUTF8),
    (⟨"game/b.gs"⟩, "costumes \"a.svg\"; onflag \x7b n = 2; \x7d".toUTF8),
    (⟨"./game/stage.gs"⟩, "costumes \"a.svg\"; variables n;".toUTF8),
    (⟨"game//a.gs"⟩, "costumes \"a.svg\";".toUTF8), (⟨"game/lib/c.gs"⟩, "".toUTF8),
    (⟨"game/d.gs/e.svg"⟩, "".toUTF8), (⟨"game/lib.h.gs"⟩, "not read".toUTF8)]

def gameRoot : Path := ⟨"./lib/../game/"⟩

theorem spriteFiles_gameFiles : spriteFiles (ofFiles gameFiles).source gameRoot =
    .ok [("a", ⟨"game/a.gs"⟩), ("b", ⟨"game/b.gs"⟩)] := by
  have hl : (ofFiles gameFiles).listDir gameRoot = ["game/a.gs", "game/a.svg", "game/b.gs",
      "game/d.gs", "game/lib", "game/lib.h.gs", "game/stage.gs"].map Path.mk :=
    (List.mergeSort_of_pairwise (by decide +kernel)).trans (by decide +kernel)
  have hs : ∀ file ∈ (ofFiles gameFiles).listDir gameRoot,
      heldSprite? (ofFiles gameFiles).source file ≠ some Sprite.stageName := by
    rw [hl]
    decide +kernel
  have hf : spriteFiles (ofFiles gameFiles).source gameRoot =
      spritesAmong (ofFiles gameFiles).source ((ofFiles gameFiles).listDir gameRoot) := by
    rw [spriteFiles, if_neg (by decide +kernel), if_neg (by decide +kernel)]
    rfl
  rw [hf, spritesAmong_eq_ok hs, hl, List.mergeSort_of_pairwise (by decide +kernel)]
  exact congrArg Except.ok (by decide +kernel)

theorem populated_gameFiles : ∃ p,
    (compile (ofFiles gameFiles).source gameRoot).result = .ok p ∧
      p.targets.map (·.name) = ["Stage", "a", "b"] ∧
      Populated gameFiles gameRoot p := by
  have h : (compile (ofFiles gameFiles).source gameRoot).result.toOption.map
      (fun p => p.targets.map (·.name)) = some ["Stage", "a", "b"] := by
    rw [compile, spriteFiles_gameFiles]
    decide +kernel
  cases hp : (compile (ofFiles gameFiles).source gameRoot).result
  case error e => simp [hp, Except.toOption] at h
  case ok p =>
    have h : p.targets.map (·.name) = ["Stage", "a", "b"] := by
      simpa [hp, Except.toOption] using h
    exact ⟨p, rfl, h, populated_of_compile hp⟩

end Memory

end Project

end BlockLang
