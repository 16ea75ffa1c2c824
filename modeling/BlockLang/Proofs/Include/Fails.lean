import BlockLang.Proofs.Files.Memory
import BlockLang.Proofs.Include.Merge
import BlockLang.Proofs.Lookup

/-!
What stops a merge: the first directive, in the order in which lines are read, that cannot be
followed. As long as a source says how deep its files can be nested, nothing else does.
-/

namespace BlockLang

namespace Merged

-- The places of a file and of the files with the directives that lead to it, the nearest first.
def places (file : Path) (trace : List Frame) : List (List Component) :=
  file.place :: trace.map (·.file.place)

-- An error about a line of a file.
def failure (file : Path) (trace : List Frame) (line : String) (d : Diagnostic) : Diagnostic :=
  (Opened.mk file none trace).locate line d

section Fails

variable (source : FileSource) (root : Path)

mutual

-- The error of the first directive in some lines of a file that cannot be followed. The first line
-- has the number `n`.
inductive LineFails : Path → List Frame → Nat → List String → Diagnostic → Prop
  | line {file trace n line lines e} (unmarked : Directive.marks line = false)
      (rest : LineFails file trace (n + 1) lines e) :
      LineFails file trace n (line :: lines) e
  | malformed {file trace n line lines} (marked : Directive.marks line = true)
      (malformed : Directive.ofLine? line = none) :
      LineFails file trace n (line :: lines) (failure file trace line
        (.span ⟨n, 1, (Text.trimEnd line).length⟩ .malformedInclude
          (some "expected: %use \"path\"")))
  | unresolved {file trace n line lines d e} (directive : Directive.ofLine? line = some d)
      (targets : targets source root d.pattern (d.span n) = .error e) :
      LineFails file trace n (line :: lines) (failure file trace line e)
  | inside {file trace n line lines d files e} (directive : Directive.ofLine? line = some d)
      (targets : targets source root d.pattern (d.span n) = .ok files)
      (pasted : FileFails file trace n line d files e) :
      LineFails file trace n (line :: lines) e
  | after {file trace n line lines d files cs e} (directive : Directive.ofLine? line = some d)
      (targets : targets source root d.pattern (d.span n) = .ok files)
      (pasted : FileCopies source root (⟨file, n⟩ :: trace) files cs)
      (rest : LineFails file trace (n + 1) lines e) :
      LineFails file trace n (line :: lines) e

-- The error of the first file that cannot be pasted, out of those that a directive on the line `n`
-- of a file names.
inductive FileFails : Path → List Frame → Nat → String → Directive → List Path → Diagnostic → Prop
  | circular {host trace n line d file files} (within : file.place ∈ places host trace) :
      FileFails host trace n line d (file :: files) (failure host trace line
        (.span (d.span n) (.circularInclude d.pattern)))
  | unreadable {host trace n line d file files e} (apart : file.place ∉ places host trace)
      (read : source.readText file = .error e) :
      FileFails host trace n line d (file :: files) (failure host trace line
        (.span (d.span n) (.unreadableInclude d.pattern e.message)))
  | inside {host trace n line d file files text e} (apart : file.place ∉ places host trace)
      (read : source.readText file = .ok text)
      (lines : LineFails file (⟨host, n⟩ :: trace) 1 (fileLines text) e) :
      FileFails host trace n line d (file :: files) e
  | after {host trace n line d file files text cs e} (apart : file.place ∉ places host trace)
      (read : source.readText file = .ok text)
      (lines : LineCopies source root file (⟨host, n⟩ :: trace) 1 (fileLines text) cs)
      (rest : FileFails host trace n line d files e) :
      FileFails host trace n line d (file :: files) e

end

-- The error that a whole source has.
inductive EntryFails (entry : Path) : Diagnostic → Prop
  | unreadable {e} (read : source.readText entry = .error e) :
      EntryFails entry ((Diagnostic.file (.unreadableSource e.message)).inFile entry)
  | inside {text e} (read : source.readText entry = .ok text)
      (lines : LineFails source root entry [] 1 (fileLines text) e) : EntryFails entry e

-- What an error in a file comes from, if the file is none of those that have been entered.
def Reports (opened : List (List Component)) (enter : Enter) : Prop :=
  ∀ {o text ps e}, o.file.place :: opened = places o.file o.trace → o.file.place ∉ opened →
    source.readText o.file = .ok text → enter o text ps = .error e →
    LineFails source root o.file o.trace 1 (fileLines text) e

end Fails

section Merge

variable {source : FileSource} {root entry : Path} {enter : Enter}
  {opened : List (List Component)} {o : Opened} {n : Nat} {line : String} {lines : List String}
  {d : Directive} {files : List Path} {ps : List Part} {e : Diagnostic}

theorem locate_eq_failure : o.locate line e = failure o.file o.trace line e :=
  rfl

theorem mergeTargets_fails (he : Enters source root entry enter)
    (hr : Reports source root (places o.file o.trace) enter) {i : Nat}
    (h : mergeTargets source enter (places o.file o.trace) d.pattern (d.span n) o line i files ps =
      .error e) : FileFails source root o.file o.trace n line d files e := by
  induction files generalizing ps
  case nil => contradiction
  case cons file files hi =>
    simp only [mergeTargets] at h
    split at h
    case isTrue hc =>
      rw [Except.error.injEq, locate_eq_failure] at h
      exact h ▸ .circular (by simpa using hc)
    case isFalse hc =>
      have hc : file.place ∉ places o.file o.trace := by simpa using hc
      split at h
      case h_1 hf =>
        rw [Except.error.injEq, locate_eq_failure] at h
        exact h ▸ .unreadable hc hf
      case h_2 text hf =>
        cases bind_eq_error.mp h
        case inl h =>
          have hl := hr (o := ⟨file, some i, ⟨o.file, n⟩ :: o.trace⟩) rfl hc hf h
          exact .inside hc hf hl
        case inr h =>
          obtain ⟨ps₁, h₁, h⟩ := h
          obtain ⟨_, _, hl⟩ := (he h₁).2.split
          exact .after hc hf hl (hi h)

theorem LineFails.plain_append {own : List String}
    (hm : ∀ line ∈ own, Directive.marks line = false)
    (h : LineFails source root o.file o.trace (n + own.length) lines e) :
    LineFails source root o.file o.trace n (own ++ lines) e := by
  induction own generalizing n
  case nil => exact h
  case cons line own hi =>
    have hown := hi (n := n + 1) (fun l hl => hm l (by simp [hl])) <| by
      rwa [Nat.add_assoc, Nat.add_comm 1]
    exact .line (hm line (by simp)) hown

theorem mergeLines_fails (he : Enters source root entry enter)
    (hr : Reports source root (places o.file o.trace) enter)
    (h : mergeLines source root enter (places o.file o.trace) o n lines ps = .error e) :
    LineFails source root o.file o.trace n lines e := by
  induction hk : lines.length using Nat.strongRecOn generalizing n lines ps
  case ind k hi =>
  rw [mergeLines] at h
  have hsplit :=
    List.takeWhile_append_dropWhile (p := fun line => !Directive.marks line) (l := lines)
  have hplain := List.all_takeWhile (p := fun line => !Directive.marks line) (l := lines)
  have hmarked := List.head?_dropWhile_not (fun line => !Directive.marks line) lines
  generalize List.takeWhile _ lines = own at h hsplit hplain
  generalize List.dropWhile _ lines = rest at h hsplit hmarked
  have hplain : ∀ line ∈ own, Directive.marks line = false := by simpa using hplain
  rw [← hsplit]
  apply LineFails.plain_append hplain
  split at h
  case h_1 => contradiction
  case h_2 line rest =>
    have hmarked : Directive.marks line = true := by simpa using hmarked
    split at h
    case h_1 hd =>
      rw [Except.error.injEq, locate_eq_failure] at h
      exact h ▸ .malformed hmarked hd
    case h_2 d hd =>
      dsimp only at h
      split at h
      case h_1 e hf =>
        rw [Except.error.injEq, locate_eq_failure] at h
        exact h ▸ .unresolved hd hf
      case h_2 files hf =>
        cases bind_eq_error.mp h
        case inl h => exact .inside hd hf (mergeTargets_fails he hr h)
        case inr h =>
          obtain ⟨ps₁, h₁, h⟩ := h
          obtain ⟨_, _, hc⟩ :=
            (mergeTargets_adds (p := o.part n own) he (by simp) rfl rfl rfl h₁).split
          have hlt : rest.length < k := by grind
          exact .after hd hf hc (hi _ hlt h rfl)

end Merge

section Nesting

variable {t : MemoryTree} {root : Path}

-- A file that is entered adds a place to those that have been entered, and there are only as many
-- places as files. So there are always steps left to go on with.
theorem mergeFile_reports {opened : List (List Component)} {depth : Nat}
    (he : Entered t.files opened) (hd : t.files.size < depth + opened.length) :
    Reports t.source root opened (mergeFile t.source root opened depth) := by
  induction depth generalizing opened
  case zero =>
    have := he.length_le
    omega
  case succ depth hi =>
    intro o text ps e hp hn hr h
    have ⟨_, hf, _⟩ := MemoryTree.readText_eq_ok.mp hr
    have he : Entered t.files (places o.file o.trace) := hp ▸ he.cons hf hn
    have hd : t.files.size < depth + (places o.file o.trace).length := by grind [places]
    have hs : Enters t.source root o.file _ := mergeFile_enters (places o.file o.trace) depth
    rw [mergeFile, hp] at h
    exact mergeLines_fails hs (hi he hd) h

theorem ofEntry_fails {entry : Path} {e : Diagnostic} (h : ofEntry t.source root entry = .error e) :
    EntryFails t.source root entry e := by
  unfold ofEntry at h
  split at h
  case h_1 hr => exact Except.error.inj h ▸ .unreadable hr
  case h_2 text hr =>
    have hd : t.files.size < t.source.nesting + 1 + 0 := by simp [MemoryTree.source]
    have h := map_eq_error.mp h
    exact .inside hr (mergeFile_reports .nil hd (o := ⟨entry, none, []⟩) rfl List.not_mem_nil hr h)

end Nesting

end Merged

end BlockLang
