import BlockLang.Proofs.Files.Memory
import BlockLang.Project.Package
import BlockLang.Proofs.Project.Compile

/-!
A project is packaged with the images of all its costumes. Images are stored under the digests of
their bytes, and so each of them is stored once, however many costumes it is the image of.
-/

namespace BlockLang

theorem Bytes.length_hex {bytes : List UInt8} : (hex bytes).length = 2 * bytes.length := by
  simp [hex, hexDigits, List.length_flatMap, ← String.length_toList, Nat.mul_comm]

theorem Md5.length_hex {bytes : List UInt8} : (hex bytes).length = 32 := by
  simp [hex, Bytes.length_hex, digest, Bytes.lowFirst]

namespace CostumeFile

variable {f g : CostumeFile} {bytes bytes' : ByteArray}

-- The name that some bytes of a costume file are stored under.
def storedName (f : CostumeFile) (bytes : ByteArray) : String :=
  Md5.hex bytes.toList ++ "." ++ Text.lowercase (f.path.extension?.getD "")

theorem toList_storedName : (f.storedName bytes).toList = (Md5.hex bytes.toList).toList ++
    '.' :: (Text.lowercase (f.path.extension?.getD "")).toList := by
  simp [storedName]

-- The name of an image tells the digest of its bytes.
theorem hex_eq_of_storedName (h : f.storedName bytes = g.storedName bytes') :
    Md5.hex bytes.toList = Md5.hex bytes'.toList := by
  have h := congrArg String.toList h
  rw [toList_storedName, toList_storedName] at h
  have hl : (Md5.hex bytes.toList).toList.length = (Md5.hex bytes'.toList).toList.length := by
    rw [String.length_toList, String.length_toList, Md5.length_hex, Md5.length_hex]
  exact String.toList_inj.mp (List.append_inj_left h hl)

theorem storedName_ne : f.storedName bytes ≠ "project.json" := by
  intro h
  have h := congrArg (fun s => s.toList.length) h
  simp only [toList_storedName, List.length_append, String.length_toList, Md5.length_hex] at h
  have hl : "project.json".length = 12 := by decide
  omega

end CostumeFile

-- Files of costumes have the same digest only if they hold the same bytes.
def TellsApart (source : FileSource) (files : List CostumeFile) : Prop :=
  ∀ f ∈ files, ∀ g ∈ files, ∀ bytes bytes',
    source.readBytes f.path = .ok bytes → source.readBytes g.path = .ok bytes' →
    Md5.hex bytes.toList = Md5.hex bytes'.toList → bytes = bytes'

open Document

namespace Costume

variable {source : FileSource} {centerSvg : Bool} {f : CostumeFile} {c : Costume}

-- A costume that has been loaded holds the bytes of its file.
theorem of_load (h : load source centerSvg f = .ok c) :
    source.readBytes f.path = .ok c.bytes ∧ c.fileName = f.storedName c.bytes ∧
      c.name = String.ofList (withSlashes f.name.toList) := by
  unfold load at h
  split at h
  case h_1 => contradiction
  case h_2 bytes hb =>
    dsimp only at h
    split at h
    case h_1 => contradiction
    case h_2 =>
      obtain rfl := Except.ok.inj h
      exact ⟨hb, rfl, rfl⟩

theorem member?_name : c.document.member? "name" = some (.text c.name) := by
  cases h : c.isBitmap <;> simp [document, member?_ofMembers, List.lookup_cons, h]

theorem member?_md5ext : c.document.member? "md5ext" = some (.text c.fileName) := by
  cases h : c.isBitmap <;> simp [document, member?_ofMembers, List.lookup_cons, h]

end Costume

namespace Document

-- What a target lists as its costumes.
def costumes (target : Document) : List Document :=
  ((target.member? "costumes").map items).getD []

-- What a target tells of the file of a costume: its name, and the name of its image.
structure TellsCostume (source : FileSource) (f : CostumeFile) (costume : Document) : Prop where
  name  : costume.member? "name" = some (.text (String.ofList (Costume.withSlashes f.name.toList)))
  image : ∃ bytes, source.readBytes f.path = .ok bytes ∧
    costume.member? "md5ext" = some (.text (f.storedName bytes))

-- A target tells all costumes of a sprite, in their order, and no others.
structure TellsCostumes (source : FileSource) (s : Sprite) (target : Document) : Prop where
  name     : target.member? "name" = some (.text s.name)
  costumes : List.Forall₂ (TellsCostume source) s.costumes target.costumes

end Document

theorem Costume.tells_of_load {source : FileSource} {centerSvg : Bool} {f : CostumeFile}
    {c : Costume} (h : load source centerSvg f = .ok c) : TellsCostume source f c.document where
  name  := by rw [member?_name, (of_load h).2.2]
  image := ⟨c.bytes, (of_load h).1, by rw [member?_md5ext, (of_load h).2.1]⟩

namespace Sprite

variable {s : Sprite} {records : List Record} {costumes : List Costume} {layer : Nat}
  {messages : List String}

theorem member?_name :
    (s.document records costumes layer messages).member? "name" = some (.text s.name) := by
  cases h : s.isStage <;>
    simp [document, extraMembers, member?_ofMembers, List.lookup_cons, h]

theorem costumes_document :
    (s.document records costumes layer messages).costumes = costumes.map Costume.document := by
  cases h : s.isStage <;>
    simp [Document.costumes, document, extraMembers, member?_ofMembers, List.lookup_cons, h]

end Sprite

namespace Project

variable {source : FileSource} {centerSvg : Bool} {p : Project} {package : Package}
  {e : PackageError} {s : Sprite} {ss : List Sprite} {total number : Nat}
  {costumes : List (List Costume)} {cs : List Costume} {name : String} {image : ByteArray}

theorem result_loadAll : (loadAll source centerSvg total number ss).result =
    ss.mapM (loadCostumes source centerSvg) := by
  induction ss generalizing number
  case nil => rfl
  case cons s ss hi =>
    simp only [loadAll, Progress.result_bind, Progress.result_report, Progress.result_ofExcept, hi,
      List.mapM_cons]
    rfl

theorem result_package : (p.package source centerSvg).result =
    (p.targets.mapM (loadCostumes source centerSvg)).map fun costumes =>
      ⟨p.document costumes, images costumes.flatten⟩ := by
  simp only [package, Progress.result_bind, result_loadAll, Progress.result_report]
  rfl

theorem of_package_eq_error (h : (p.package source centerSvg).result = .error e) :
    ∃ s ∈ p.targets, e.sprite = s.name ∧
      ∃ f ∈ s.costumes, Costume.load source centerSvg f = .error e.cause := by
  rw [result_package, map_eq_error] at h
  have ⟨s, hs, hl⟩ := exists_of_mapM_eq_error h
  rw [loadCostumes, mapError_eq_error] at hl
  obtain ⟨cause, hl, rfl⟩ := hl
  exact ⟨s, hs, rfl, exists_of_mapM_eq_error hl⟩

-- The files of the costumes of all targets.
def costumeFiles (p : Project) : List CostumeFile :=
  p.targets.flatMap (·.costumes)

-- What a package holds has been loaded, costume by costume.
theorem of_package_eq_ok (h : (p.package source centerSvg).result = .ok package) :
    ∃ costumes, package = ⟨p.document costumes, images costumes.flatten⟩ ∧
      List.Forall₂ (fun s own => List.Forall₂ (Costume.load source centerSvg · = .ok ·)
        s.costumes own) p.targets costumes := by
  rw [result_package, map_eq_ok] at h
  obtain ⟨costumes, h, rfl⟩ := h
  refine ⟨costumes, rfl, (forall₂_of_mapM h).imp fun s own ho => ?_⟩
  exact forall₂_of_mapM (mapError_eq_ok.mp ho)

theorem forall₂_costumeFiles
    (h : List.Forall₂ (fun s own => List.Forall₂ (Costume.load source centerSvg · = .ok ·)
      s.costumes own) p.targets costumes) :
    List.Forall₂ (Costume.load source centerSvg · = .ok ·) p.costumeFiles costumes.flatten := by
  rw [costumeFiles, List.flatMap]
  exact List.rel_flatten (List.forall₂_map_left_iff.mpr h)

-- The costumes of a target are found at its place.
theorem forall₂_costumes_document (h : costumes.length = p.targets.length) :
    List.Forall₂ (fun own target => target.costumes = own.map Costume.document) costumes
      (p.document costumes).targets := by
  have ht : List.Forall₂ _ p.targets.zipIdx (p.document costumes).targets :=
    forall₂_zipIdx_document
  rw [List.forall₂_iff_get] at ht ⊢
  refine ⟨by simpa [h] using ht.1, fun i hi hi' => ?_⟩
  obtain ⟨_, ht⟩ := ht.2 i (by simpa [← h] using hi) hi'
  rw [ht, Sprite.costumes_document]
  simp [hi]

theorem pairwise_images : (images cs).Pairwise fun a b => compare a.1 b.1 = .lt :=
  Std.TreeMap.ordered_keys_toList

theorem mem_images : (name, image) ∈ images cs ↔
    (cs.reverse.map fun c => (c.fileName, c.bytes)).lookup name = some image := by
  rw [images, Std.TreeMap.mem_toList_iff_getElem?_eq_some, getElem?_table]

theorem of_mem_images (h : (name, image) ∈ images cs) :
    ∃ c ∈ cs, c.fileName = name ∧ c.bytes = image := by
  simpa using mem_of_lookup_eq_some (mem_images.mp h)

theorem mem_keys_images : name ∈ (images cs).map (·.1) ↔ ∃ c ∈ cs, c.fileName = name := by
  constructor
  case mp =>
    intro h
    obtain ⟨⟨_, image⟩, hm, rfl⟩ := List.mem_map.mp h
    have ⟨c, hc, hn, _⟩ := of_mem_images hm
    exact ⟨c, hc, hn⟩
  case mpr =>
    rintro ⟨c, hc, rfl⟩
    have hs : ((cs.reverse.map fun c => (c.fileName, c.bytes)).lookup c.fileName).isSome := by
      rw [List.lookup_isSome_iff]
      simpa using ⟨c, hc, rfl⟩
    have ⟨image, hi⟩ := Option.isSome_iff_exists.mp hs
    exact List.mem_map.mpr ⟨(c.fileName, image), mem_images.mpr hi, rfl⟩

theorem nodup_keys_images : ((images cs).map (·.1)).Nodup := by
  rw [List.Nodup, List.pairwise_map]
  exact pairwise_images.imp fun h he => by simp [he] at h

section Loaded

variable {files : List CostumeFile} {f : CostumeFile} {bytes : ByteArray}
  (h : List.Forall₂ (Costume.load source centerSvg · = .ok ·) files cs)
include h

theorem projectFile_notMem_keys_images : "project.json" ∉ (images cs).map (·.1) := by
  intro hm
  have ⟨c, hc, hn⟩ := mem_keys_images.mp hm
  have ⟨f, _, hf⟩ := mem_of_forall₂ h hc
  exact CostumeFile.storedName_ne ((Costume.of_load hf).2.1.symm.trans hn)

-- All costumes whose images have one name have the same image, unless digests collide.
theorem mem_images_iff (ha : TellsApart source files) (hf : f ∈ files)
    (hb : source.readBytes f.path = .ok bytes) :
    (f.storedName bytes, image) ∈ images cs ↔ image = bytes := by
  have hi : ∀ {image}, (f.storedName bytes, image) ∈ images cs → image = bytes := by
    intro image hm
    obtain ⟨c, hc, hn, rfl⟩ := of_mem_images hm
    have ⟨g, hg, hl⟩ := mem_of_forall₂ h hc
    have ⟨hr, hs, _⟩ := Costume.of_load hl
    exact ha g hg f hf c.bytes bytes hr hb (CostumeFile.hex_eq_of_storedName (hs.symm.trans hn))
  constructor
  case mp => exact hi
  case mpr =>
    rintro rfl
    have ⟨c, hc, hl⟩ := mem_of_forall₂ h.flip hf
    have ⟨hr, hs, _⟩ := Costume.of_load hl
    obtain rfl := Except.ok.inj (hb.symm.trans hr)
    obtain ⟨⟨_, image⟩, hm, rfl⟩ := List.mem_map.mp (mem_keys_images.mpr ⟨c, hc, hs⟩)
    exact hi hm ▸ hm

end Loaded

-- A package holds the images that the targets of its project tell, and nothing else.
structure Packed (source : FileSource) (p : Project) (package : Package) : Prop where
  costumes : List.Forall₂ (TellsCostumes source) p.targets package.document.targets
  entries  : package.archive.entries =
    ("project.json", package.document.pretty.toUTF8) :: package.images
  distinct : (package.archive.entries.map (·.1)).Nodup
  sorted   : package.images.Pairwise fun a b => compare a.1 b.1 = .lt
  complete : ∀ name, name ∈ package.images.map (·.1) ↔
    ∃ target ∈ package.document.targets, ∃ costume ∈ target.costumes,
      costume.member? "md5ext" = some (.text name)
  contents : TellsApart source p.costumeFiles → ∀ f ∈ p.costumeFiles, ∀ bytes,
    source.readBytes f.path = .ok bytes →
    ∀ image, (f.storedName bytes, image) ∈ package.images ↔ image = bytes

theorem packed_of_package (h : (p.package source centerSvg).result = .ok package) :
    Packed source p package := by
  obtain ⟨costumes, rfl, hl⟩ := of_package_eq_ok h
  have hf := forall₂_costumeFiles hl
  have hd := forall₂_costumes_document hl.length_eq.symm
  exact {
    costumes := by
      have ht : List.Forall₂ Target p.targets (p.document costumes).targets :=
        forall₂_targets_document
      have hc : List.Forall₂ (fun s target => List.Forall₂ (TellsCostume source) s.costumes
          target.costumes) p.targets (p.document costumes).targets :=
        forall₂_trans hl hd fun ho hd => by
          rw [hd, List.forall₂_map_right_iff]
          exact ho.imp fun _ _ => Costume.tells_of_load
      refine List.forall₂_iff_get.mpr ⟨hc.length_eq, fun i hs hi => ⟨?_, hc.get hs hi⟩⟩
      obtain ⟨_, _, _, _, ht⟩ := ht.get hs hi
      rw [ht, Sprite.member?_name]
    entries  := rfl
    distinct := List.nodup_cons.mpr ⟨projectFile_notMem_keys_images hf, nodup_keys_images⟩
    sorted   := pairwise_images
    complete := fun name => by
      have hn : ∀ {own : List Costume} {target : Document},
          target.costumes = own.map Costume.document →
          ((∃ c ∈ own, c.fileName = name) ↔
            ∃ costume ∈ target.costumes, costume.member? "md5ext" = some (.text name)) := by
        intro own target ht
        simp [ht, Costume.member?_md5ext]
      rw [mem_keys_images, ← exists_mem_iff_of_forall₂ hd hn]
      simp only [List.mem_flatten, ← exists_and_left, ← exists_and_right, and_assoc]
      exact exists_comm
    contents := fun ha f hm bytes hb image => mem_images_iff hf ha hm hb
  }

-- A project is packaged as a whole or not at all.
theorem package_complete :
    (∀ package, (p.package source centerSvg).result = .ok package → Packed source p package) ∧
      ((∃ package, (p.package source centerSvg).result = .ok package) ↔
        ∀ f ∈ p.costumeFiles, ∃ c, Costume.load source centerSvg f = .ok c) := by
  refine ⟨fun _ => packed_of_package, ?_⟩
  constructor
  case mp =>
    rintro ⟨package, h⟩ f hf
    obtain ⟨costumes, rfl, hl⟩ := of_package_eq_ok h
    have ⟨c, _, hc⟩ := mem_of_forall₂ (forall₂_costumeFiles hl).flip hf
    exact ⟨c, hc⟩
  case mpr =>
    intro h
    cases hp : (p.package source centerSvg).result
    case ok package => exact ⟨package, rfl⟩
    case error e =>
      have ⟨s, hs, _, f, hf, he⟩ := of_package_eq_error hp
      have ⟨c, hc⟩ := h f (List.mem_flatMap.mpr ⟨s, hs, hf⟩)
      simp [hc] at he

-- An image that two targets share, a copy of it, and another image.
def albumFiles : FileSource :=
  (MemoryTree.ofFiles [(⟨"p/a.svg"⟩, "1".toUTF8), (⟨"p/copy.SVG"⟩, "1".toUTF8),
    (⟨"p/b.svg"⟩, "2".toUTF8)]).source

def album : Project where
  stage := ⟨"Stage", ∅, ∅, [], [⟨⟨"p/a.svg"⟩, none⟩], none⟩
  sprites := [⟨"cat", ∅, ∅, [], [⟨⟨"p/b.svg"⟩, none⟩, ⟨⟨"p/./a.svg"⟩, some "again"⟩,
    ⟨⟨"p/copy.SVG"⟩, none⟩], none⟩]

theorem tellsApart_albumFiles : TellsApart albumFiles album.costumeFiles := by
  have hr : ∀ f ∈ album.costumeFiles, albumFiles.readBytes f.path = .ok "1".toUTF8 ∨
      albumFiles.readBytes f.path = .ok "2".toUTF8 := by
    decide +kernel
  have hn : Md5.hex "1".toUTF8.toList ≠ Md5.hex "2".toUTF8.toList := by
    decide +kernel
  intro f hf g hg bytes bytes' hb hb' he
  rcases hr f hf with h | h <;> rcases hr g hg with h' | h' <;>
    obtain rfl := Except.ok.inj (h.symm.trans hb) <;>
    obtain rfl := Except.ok.inj (h'.symm.trans hb')
  case inl.inr => exact absurd he hn
  case inr.inl => exact absurd he.symm hn
  all_goals rfl

theorem package_album :
    (∃ package, (album.package albumFiles false).result = .ok package ∧
      package.images = [("c4ca4238a0b923820dcc509a6f75849b.svg", "1".toUTF8),
        ("c81e728d9d4c2f636f067f89cc14862c.svg", "2".toUTF8)] ∧
      Packed albumFiles album package ∧ TellsApart albumFiles album.costumeFiles) ∧
    ¬∃ package, (album.package MemoryTree.empty.source false).result = .ok package := by
  have h : (album.package albumFiles false).result.toOption.map (·.images) =
      some [("c4ca4238a0b923820dcc509a6f75849b.svg", "1".toUTF8),
        ("c81e728d9d4c2f636f067f89cc14862c.svg", "2".toUTF8)] := by
    decide +kernel
  constructor
  case left =>
    cases hp : (album.package albumFiles false).result
    case error e => simp [hp, Except.toOption] at h
    case ok package =>
      rw [hp] at h
      exact ⟨package, rfl, Option.some.inj h, package_complete.1 package hp,
        tellsApart_albumFiles⟩
  case right =>
    intro hp
    obtain ⟨c, hc⟩ := package_complete.2.mp hp ⟨⟨"p/a.svg"⟩, none⟩ (by decide +kernel)
    have hr := (Costume.of_load hc).1
    contradiction

end Project

end BlockLang
