import BlockLang.Proofs.Include.Fails
import BlockLang.Proofs.Include.Locate
import BlockLang.Proofs.Steps

/-!
Files that include each other. A source is merged if and only if following its directives comes to
an end, and it is refused as circular if and only if the first directive that cannot be followed
leads back into a file that is still open.
-/

namespace BlockLang

namespace Merged

open Relation

section Places

variable (source : FileSource) (root : Path)

-- The file at a place has a directive that names the file at another place.
def Includes (p q : List Component) : Prop :=
  ∃ host n target, host.place = p ∧ target.place = q ∧ Uses source root host n target

-- The lines of a file from the line `n` on, where directives lead from the entry to the file.
structure Opens (entry file : Path) (trace : List Frame) (n : Nat) (lines : List String) :
    Prop where
  chain : Chain source root entry file trace
  lines : ∃ text, source.readText file = .ok text ∧ 1 ≤ n ∧ (fileLines text).drop (n - 1) = lines

-- A directive that names a file which is open where the directive is read.
inductive Circular (entry : Path) (pattern : String) (e : Diagnostic) : Prop
  | intro {host trace n line d files target} (chain : Chain source root entry host trace)
      (is_line : IsLine source host n line) (directive : Directive.ofLine? line = some d)
      (targets : targets source root d.pattern (d.span n) = .ok files) (mem : target ∈ files)
      (within : target.place ∈ places host trace) (named : d.pattern = pattern)
      (error : e = failure host trace line (.span (d.span n) (.circularInclude d.pattern)))

end Places

section Opens

variable {source : FileSource} {root entry file target : Path} {trace : List Frame} {n : Nat}
  {line text : String} {lines : List String} {d : Directive} {files : List Path} {e e' : Diagnostic}
  {cs : List Copy} {s s' : Span}

theorem Chain.linked (h : Chain source root entry file trace) :
    ∀ p ∈ places file trace, ReflTransGen (Includes source root) p file.place := by
  induction h
  case entry => simp [places, ReflTransGen.refl]
  case use host target trace n _ hu hi =>
    have hs : Includes source root host.place target.place := ⟨_, _, _, rfl, rfl, hu⟩
    apply List.forall_mem_cons.mpr ⟨.refl, fun p hp => (hi p hp).tail hs⟩

theorem Chain.reaches (h : Chain source root entry file trace) :
    ReflTransGen (Includes source root) entry.place file.place := by
  induction h
  case entry => exact .refl
  case use hu hi => exact hi.tail ⟨_, _, _, rfl, rfl, hu⟩

-- A file that comes to an end is none of those that are open.
theorem Chain.apart (h : Chain source root entry file trace) (hu : Uses source root file n target)
    (ht : Halts (Includes source root) target.place) : target.place ∉ places file trace := by
  intro hm
  have hs : Includes source root file.place target.place := ⟨_, _, _, rfl, rfl, hu⟩
  exact ht.not_back (TransGen.tail' (h.linked _ hm) hs)

-- If the entry file comes to an end, then no file is open twice.
theorem Chain.nodup (h : Chain source root entry file trace)
    (he : Halts (Includes source root) entry.place) : (places file trace).Nodup := by
  induction h
  case entry => exact List.nodup_singleton _
  case use hc hu hi =>
    have ht := he.trans (hc.use hu).reaches
    exact List.nodup_cons.mpr ⟨hc.apart hu ht, hi⟩

theorem IsLine.getElem?_fileLines (h : IsLine source file n line)
    (hr : source.readText file = .ok text) : (fileLines text)[n - 1]? = some line := by
  have ⟨hn, text', raw, hr', hl, he⟩ := h
  cases hr'.symm.trans hr
  unfold Text.lines at hl
  unfold fileLines
  cases hs : Text.linesOf text.toList
  case nil => simp [hs] at hl
  case cons first rest =>
    obtain ⟨k, rfl⟩ : ∃ k, n = k + 1 := ⟨n - 1, by omega⟩
    rw [hs] at hl
    cases k
    case zero =>
      obtain rfl : String.ofList first = raw := by simpa using hl
      simp [he]
    case succ => simpa [he] using hl

-- Which files a directive names does not depend on where it is.
theorem targets_span (h : targets source root d.pattern s = .ok files) :
    targets source root d.pattern s' = .ok files := by
  unfold targets at h ⊢
  split at h
  case isTrue hp =>
    rw [if_pos hp]
    split at h <;> simp_all
  case isFalse hp =>
    rw [if_neg hp]
    split at h <;> simp_all

namespace Opens

theorem getElem? (h : Opens source root entry file trace n (line :: lines)) :
    ∃ text, source.readText file = .ok text ∧ 1 ≤ n ∧ (fileLines text)[n - 1]? = some line := by
  have ⟨text, hr, hn, hl⟩ := h.lines
  refine ⟨text, hr, hn, ?_⟩
  rw [← List.head?_drop, hl, List.head?_cons]

theorem tail (h : Opens source root entry file trace n (line :: lines)) :
    Opens source root entry file trace (n + 1) lines where
  chain := h.chain
  lines := by
    have ⟨text, hr, hn, hl⟩ := h.lines
    refine ⟨text, hr, by omega, ?_⟩
    have hd := congrArg (List.drop 1) hl
    rwa [List.drop_drop, Nat.sub_add_cancel hn] at hd

theorem isLine (h : Opens source root entry file trace n (line :: lines)) :
    IsLine source file n line := by
  have ⟨text, hr, hn, hl⟩ := h.getElem?
  have hl : IsLine source file (n - 1 + 1) line := .of_fileLines hr hl
  rwa [Nat.sub_add_cancel hn] at hl

theorem uses (h : Opens source root entry file trace n (line :: lines))
    (hd : Directive.ofLine? line = some d)
    (ht : targets source root d.pattern (d.span n) = .ok files) :
    ∀ target ∈ files, Uses source root file n target :=
  fun _ hm => .intro h.isLine hd ht hm

end Opens

theorem Chain.opens (h : Chain source root entry file trace) (hu : Uses source root file n target)
    (hr : source.readText target = .ok text) :
    Opens source root entry target (⟨file, n⟩ :: trace) 1 (fileLines text) where
  chain := h.use hu
  lines := ⟨text, hr, Nat.le_refl 1, rfl⟩

theorem Opens.start (hr : source.readText file = .ok text) :
    Opens source root file file [] 1 (fileLines text) where
  chain := .entry
  lines := ⟨text, hr, Nat.le_refl 1, rfl⟩

end Opens

section Halts

variable {t : MemoryTree} {root entry : Path}

mutual

-- If lines leave copies, then the files that they name come to an end.
theorem LineCopies.halts {file : Path} {trace : List Frame} {n : Nat} {lines : List String}
    {cs : List Copy} (h : LineCopies t.source root file trace n lines cs) :
    ∀ line ∈ lines, ∀ d s files, Directive.ofLine? line = some d →
      targets t.source root d.pattern s = .ok files →
      ∀ target ∈ files, Halts (Includes t.source root) target.place := by
  match h with
  | .nil => exact nofun
  | .line hm rest =>
    apply List.forall_mem_cons.mpr ⟨?_, rest.halts⟩
    intro d s files hd
    rw [marks_of_ofLine? hd] at hm
    contradiction
  | .use hd ht pasted rest =>
    apply List.forall_mem_cons.mpr ⟨?_, rest.halts⟩
    intro d' s files hd' ht'
    cases hd.symm.trans hd'
    cases (targets_span ht).symm.trans ht'
    exact pasted.halts

theorem FileCopies.halts {trace : List Frame} {files : List Path} {cs : List Copy}
    (h : FileCopies t.source root trace files cs) :
    ∀ file ∈ files, Halts (Includes t.source root) file.place := by
  match h with
  | .nil => exact nofun
  | .cons hr hl rest =>
    apply List.forall_mem_cons.mpr ⟨?_, rest.halts⟩
    apply Halts.of_steps
    rintro _ ⟨host, n, target, hp, rfl, ⟨is_line, hd, ht, hm⟩⟩
    have hr := MemoryTree.readText_of_place hr hp
    have hi := List.mem_of_getElem? (is_line.getElem?_fileLines hr)
    exact hl.halts _ hi _ _ _ hd ht _ hm

end

theorem EntryCopies.halts {cs : List Copy} (h : EntryCopies t.source root entry cs) :
    Halts (Includes t.source root) entry.place := by
  have ⟨text, hr, hl⟩ := h
  have hf : FileCopies t.source root [] [entry] (cs ++ []) := .cons hr hl .nil
  exact hf.halts entry List.mem_cons_self

mutual

-- Lines that leave copies have no directive that cannot be followed.
theorem LineFails.not_copies {file : Path} {trace : List Frame} {n : Nat} {lines : List String}
    {e : Diagnostic} {cs : List Copy} (h : LineFails t.source root file trace n lines e)
    (ho : Opens t.source root entry file trace n lines) :
    ¬ LineCopies t.source root file trace n lines cs := by
  intro h'
  match h, h' with
  | .line _ rest, .line _ rest' => exact rest.not_copies ho.tail rest'
  | .malformed hm _, .line hm' _ =>
    rw [hm] at hm'
    contradiction
  | .unresolved hd _, .line hm _ | .inside hd _ _, .line hm _ | .after hd _ _ _, .line hm _
  | .line hm _, .use hd _ _ _ =>
    rw [marks_of_ofLine? hd] at hm
    contradiction
  | .malformed _ hd, .use hd' _ _ _ => cases hd.symm.trans hd'
  | .unresolved hd ht, .use hd' ht' _ _ =>
    cases hd.symm.trans hd'
    cases ht.symm.trans ht'
  | .inside hd ht pasted, .use hd' ht' pasted' _ =>
    cases hd.symm.trans hd'
    cases ht.symm.trans ht'
    exact pasted.not_copies ho.chain (ho.uses hd ht) pasted'
  | .after _ _ _ rest, .use _ _ _ rest' => exact rest.not_copies ho.tail rest'

theorem FileFails.not_copies {file : Path} {trace : List Frame} {n : Nat} {line : String}
    {d : Directive} {files : List Path} {e : Diagnostic} {cs : List Copy}
    (h : FileFails t.source root file trace n line d files e)
    (hc : Chain t.source root entry file trace)
    (hu : ∀ target ∈ files, Uses t.source root file n target) :
    ¬ FileCopies t.source root (⟨file, n⟩ :: trace) files cs := by
  intro h'
  have hs := h'.halts
  match h, h' with
  | .circular hm, .cons .. =>
    exact hc.apart (hu _ List.mem_cons_self) (hs _ List.mem_cons_self) hm
  | .unreadable _ hr, .cons hr' _ _ => cases hr.symm.trans hr'
  | .inside _ hr hl, .cons hr' hl' _ =>
    cases hr.symm.trans hr'
    exact hl.not_copies (hc.opens (hu _ List.mem_cons_self) hr) hl'
  | .after _ _ _ rest, .cons _ _ rest' =>
    exact rest.not_copies hc (List.forall_mem_cons.mp hu).2 rest'

end

mutual

-- There is only one first directive that cannot be followed.
theorem LineFails.unique {file : Path} {trace : List Frame} {n : Nat} {lines : List String}
    {e e' : Diagnostic} (h : LineFails t.source root file trace n lines e)
    (h' : LineFails t.source root file trace n lines e')
    (ho : Opens t.source root entry file trace n lines) : e = e' := by
  match h, h' with
  | .line _ rest, .line _ rest' => exact rest.unique rest' ho.tail
  | .malformed _ _, .malformed _ _ => rfl
  | .unresolved hd ht, .unresolved hd' ht' =>
    cases hd.symm.trans hd'
    cases ht.symm.trans ht'
    rfl
  | .inside hd ht pasted, .inside hd' ht' pasted' =>
    cases hd.symm.trans hd'
    cases ht.symm.trans ht'
    exact pasted.unique pasted' ho.chain (ho.uses hd ht)
  | .after _ _ _ rest, .after _ _ _ rest' => exact rest.unique rest' ho.tail
  | .inside hd ht fails, .after hd' ht' pasted _ | .after hd' ht' pasted _, .inside hd ht fails =>
    cases hd.symm.trans hd'
    cases ht.symm.trans ht'
    exact absurd pasted (fails.not_copies ho.chain (ho.uses hd ht))
  | .line hm _, .malformed hm' _ | .malformed hm' _, .line hm _ =>
    rw [hm'] at hm
    contradiction
  | .line hm _, .unresolved hd _ | .line hm _, .inside hd _ _ | .line hm _, .after hd _ _ _
  | .unresolved hd _, .line hm _ | .inside hd _ _, .line hm _ | .after hd _ _ _, .line hm _ =>
    rw [marks_of_ofLine? hd] at hm
    contradiction
  | .malformed _ hd, .unresolved hd' _ | .malformed _ hd, .inside hd' _ _
  | .malformed _ hd, .after hd' _ _ _ | .unresolved hd' _, .malformed _ hd
  | .inside hd' _ _, .malformed _ hd | .after hd' _ _ _, .malformed _ hd =>
    cases hd.symm.trans hd'
  | .unresolved hd ht, .inside hd' ht' _ | .unresolved hd ht, .after hd' ht' _ _
  | .inside hd' ht' _, .unresolved hd ht | .after hd' ht' _ _, .unresolved hd ht =>
    cases hd.symm.trans hd'
    cases ht.symm.trans ht'

theorem FileFails.unique {file : Path} {trace : List Frame} {n : Nat} {line : String}
    {d : Directive} {files : List Path} {e e' : Diagnostic}
    (h : FileFails t.source root file trace n line d files e)
    (h' : FileFails t.source root file trace n line d files e')
    (hc : Chain t.source root entry file trace)
    (hu : ∀ target ∈ files, Uses t.source root file n target) : e = e' := by
  match h, h' with
  | .circular _, .circular _ => rfl
  | .unreadable _ hr, .unreadable _ hr' =>
    cases hr.symm.trans hr'
    rfl
  | .inside _ hr hl, .inside _ hr' hl' =>
    cases hr.symm.trans hr'
    exact hl.unique hl' (hc.opens (hu _ List.mem_cons_self) hr)
  | .after _ _ _ rest, .after _ _ _ rest' =>
    exact rest.unique rest' hc (List.forall_mem_cons.mp hu).2
  | .inside _ hr hl, .after _ hr' hl' _ | .after _ hr' hl' _, .inside _ hr hl =>
    cases hr.symm.trans hr'
    exact absurd hl' (hl.not_copies (hc.opens (hu _ List.mem_cons_self) hr))
  | .circular hm, .unreadable ha _ | .circular hm, .inside ha _ _ | .circular hm, .after ha _ _ _
  | .unreadable ha _, .circular hm | .inside ha _ _, .circular hm | .after ha _ _ _, .circular hm =>
    exact absurd hm ha
  | .unreadable _ hr, .inside _ hr' _ | .unreadable _ hr, .after _ hr' _ _
  | .inside _ hr' _, .unreadable _ hr | .after _ hr' _ _, .unreadable _ hr =>
    cases hr.symm.trans hr'

end

end Halts

section Circular

theorem fault_failure {file : Path} {trace : List Frame} {line : String} {e : Diagnostic} :
    (failure file trace line e).fault = e.fault := by
  unfold failure Opened.locate Diagnostic.located
  repeat' split
  all_goals rfl

variable {source : FileSource} {root entry : Path} {pattern : String}

theorem fault_of_targets {name : String} {s : Span} {e : Diagnostic}
    (h : targets source root name s = .error e) : e.fault ≠ .circularInclude pattern := by
  unfold targets at h
  repeat' split at h
  all_goals cases h
  all_goals nofun

theorem targets_pairwise {name : String} {s : Span} {files : List Path}
    (h : targets source root name s = .ok files) :
    files.Pairwise fun p q => FileSource.inOrder p q := by
  unfold targets at h
  split at h
  case isTrue =>
    split at h
    case h_1 | h_2 => contradiction
    case h_3 hg => exact Except.ok.inj h ▸ FileSource.pairwise_of_glob hg
  case isFalse =>
    split at h
    case h_1 => exact Except.ok.inj h ▸ List.pairwise_singleton _ _
    case h_2 => contradiction

mutual

theorem LineFails.isCircular {file : Path} {trace : List Frame} {n : Nat} {lines : List String}
    {e : Diagnostic} (h : LineFails source root file trace n lines e)
    (ho : Opens source root entry file trace n lines) (he : e.fault = .circularInclude pattern) :
    Circular source root entry pattern e := by
  match h with
  | .line _ rest | .after _ _ _ rest => exact rest.isCircular ho.tail he
  | .malformed _ _ =>
    rw [fault_failure] at he
    contradiction
  | .unresolved _ ht =>
    rw [fault_failure] at he
    exact absurd he (fault_of_targets ht)
  | .inside hd ht pasted => exact pasted.isCircular ho.chain ho.isLine hd ht (List.Subset.refl _) he

theorem FileFails.isCircular {file : Path} {trace : List Frame} {n : Nat} {line : String}
    {d : Directive} {files all : List Path} {e : Diagnostic}
    (h : FileFails source root file trace n line d files e)
    (hc : Chain source root entry file trace) (hl : IsLine source file n line)
    (hd : Directive.ofLine? line = some d)
    (ht : targets source root d.pattern (d.span n) = .ok all) (hs : files ⊆ all)
    (he : e.fault = .circularInclude pattern) : Circular source root entry pattern e := by
  match h with
  | .circular hp =>
    rw [fault_failure] at he
    exact .intro hc hl hd ht (hs List.mem_cons_self) hp (Fault.circularInclude.inj he) rfl
  | .unreadable _ _ =>
    rw [fault_failure] at he
    contradiction
  | .inside _ hr lines =>
    exact lines.isCircular (hc.opens (.intro hl hd ht (hs List.mem_cons_self)) hr) he
  | .after _ _ _ rest => exact rest.isCircular hc hl hd ht (List.cons_subset.mp hs).2 he

end

theorem EntryFails.isCircular {e : Diagnostic} (h : EntryFails source root entry e)
    (he : e.fault = .circularInclude pattern) : Circular source root entry pattern e := by
  cases h
  case unreadable => contradiction
  case inside hr hl => exact hl.isCircular (.start hr) he

end Circular

-- What a merge comes to: the copies that are left if all directives can be followed, and else the
-- error of the first directive that cannot.
structure Flattens (source : FileSource) (root entry : Path) (result : Except Diagnostic Merged) :
    Prop where
  lines    : ∀ m, result = .ok m →
    ∃ cs, EntryCopies source root entry cs ∧ m.lines = cs.map Copy.text
  succeeds : ∀ cs, EntryCopies source root entry cs → ∃ m, result = .ok m
  fails    : ∀ e, result = .error e ↔ EntryFails source root entry e
  circular : ∀ e pattern, result = .error e → e.fault = .circularInclude pattern →
    Circular source root entry pattern e
  nested   : ∀ m file trace, result = .ok m → Chain source root entry file trace →
    (places file trace).Nodup
  sorted   : ∀ pattern s files, targets source root pattern s = .ok files →
    files.Pairwise fun p q => FileSource.inOrder p q

section Flattens

variable {t : MemoryTree} {root entry : Path} {e e' : Diagnostic} {cs : List Copy}

theorem EntryFails.not_copies (h : EntryFails t.source root entry e) :
    ¬ EntryCopies t.source root entry cs := by
  intro ⟨text, hr, hc⟩
  cases h
  case unreadable hr' => cases hr.symm.trans hr'
  case inside hr' hl =>
    cases hr.symm.trans hr'
    exact hl.not_copies (.start hr) hc

theorem EntryFails.unique (h : EntryFails t.source root entry e)
    (h' : EntryFails t.source root entry e') : e = e' := by
  cases h
  case unreadable hr =>
    cases h'
    case unreadable hr' => cases hr.symm.trans hr'; rfl
    case inside hr' _ => cases hr.symm.trans hr'
  case inside hr hl =>
    cases h'
    case unreadable hr' => cases hr.symm.trans hr'
    case inside hr' hl' =>
      cases hr.symm.trans hr'
      exact hl.unique hl' (.start hr)

theorem ofEntry_flattens :
    Flattens t.source root entry (ofEntry t.source root entry) := by
  cases hm : ofEntry t.source root entry
  case error e =>
    have he := ofEntry_fails hm
    exact {
      lines    := nofun
      succeeds := fun _ hc => absurd hc he.not_copies
      fails    := fun e' => ⟨fun h => Except.error.inj h ▸ he, fun h => by rw [he.unique h]⟩
      circular := fun e' _ h hf => (Except.error.inj h ▸ he).isCircular hf
      nested   := nofun
      sorted   := fun _ _ _ => targets_pairwise
    }
  case ok m =>
    have ⟨_, _, hc⟩ := ofEntry_adds hm
    exact {
      lines    := fun _ h => Except.ok.inj h ▸ ⟨_, hc, m.lines_eq_map_copies⟩
      succeeds := fun _ _ => ⟨m, rfl⟩
      fails    := fun e => ⟨nofun, fun h => absurd hc h.not_copies⟩
      circular := fun _ _ h _ => nomatch h
      nested   := fun _ _ _ _ h => h.nodup hc.halts
      sorted   := fun _ _ _ => targets_pairwise
    }

end Flattens

-- Two files that include each other.
def circularFiles : MemoryTree :=
  (MemoryTree.empty.insert ⟨"p/main.gs"⟩ "%use \"a\"\n".toUTF8).insert
    ⟨"p/a.gs"⟩ "b\n%use \"./main\"\n".toUTF8

example : (ofEntry circularFiles.source ⟨"p"⟩ ⟨"p/main.gs"⟩).mapError (·.fault) =
    .error (.circularInclude "./main") := by
  with_unfolding_all rfl

end Merged

end BlockLang
