import BlockLang.Proofs.Include.Circular

/-!
Where the error of a merge points to: the directive that cannot be followed, in the file that has
it, with the directives through which reading has come to this file.
-/

namespace BlockLang

namespace Text

variable {c : Char} {cs : List Char} {p : Char → Bool}

theorem length_dropEndWhile_le : (dropEndWhile p cs).length ≤ cs.length := by
  have h : (cs.reverse.dropWhile p).length ≤ cs.reverse.length :=
    (List.dropWhile_sublist p).length_le
  simpa [dropEndWhile] using h

theorem length_dropEndWhile_pos (h : p c = false) : 0 < (dropEndWhile p (c :: cs)).length := by
  rw [dropEndWhile, List.length_reverse, List.reverse_cons, List.dropWhile_append]
  split <;> simp [h]

end Text

namespace Directive

variable {line : String} {d : Directive}

theorem suffix_of_afterBlanks? {cs ds : List Char} (h : afterBlanks? cs = some ds) : ds <:+ cs := by
  unfold afterBlanks? at h
  split at h
  case h_1 => contradiction
  case h_2 c cs =>
    obtain ⟨_, hd⟩ := Option.ite_none_right_eq_some.mp h
    exact Option.some.inj hd ▸ (List.dropWhile_suffix _).trans (List.suffix_cons c cs)

-- The column of a directive is that of the quote before its pattern.
theorem ofLine?_eq_some (h : ofLine? line = some d) : ∃ before rest,
    line.toList = before ++ '"' :: d.pattern.toList ++ '"' :: rest ∧
      d.column = before.length + 1 := by
  unfold ofLine? at h
  split at h
  case h_2 => contradiction
  case h_1 cs hl =>
    split at h
    case h_2 => contradiction
    case h_1 cs' hu =>
      simp only [Option.bind_eq_bind, Option.bind_eq_some_iff] at h
      obtain ⟨_, hb, h⟩ := h
      split at h
      case h_2 => contradiction
      case h_1 quoted =>
        simp only [Option.bind_eq_some_iff, Option.ite_none_right_eq_some] at h
        obtain ⟨⟨pattern, rest⟩, hs, _, hd⟩ := h
        obtain rfl := Option.some.inj hd
        have hu : 'u' :: 's' :: 'e' :: cs' <:+ cs := hu ▸ List.dropWhile_suffix _
        have hc : cs' <:+ 'u' :: 's' :: 'e' :: cs' := ⟨['u', 's', 'e'], rfl⟩
        have hq : '"' :: quoted <:+ cs := (suffix_of_afterBlanks? hb).trans (hc.trans hu)
        obtain ⟨before, hq⟩ := hq.trans (List.suffix_cons '%' cs)
        have hn : line.length = before.length + (quoted.length + 1) := by
          rw [← String.length_toList, hl, ← hq, List.length_append, List.length_cons]
        refine ⟨before, rest, ?_, ?_⟩
        · simp [hl, ← hq, (Text.splitOnce_eq_some hs).1]
        · dsimp only
          omega

-- A span that starts and ends within a line.
structure Within (s : Span) (line : String) : Prop where
  column : 1 ≤ s.column
  length : 1 ≤ s.length
  last   : s.column + s.length ≤ line.length + 1

theorem within_span (h : ofLine? line = some d) (n : Nat) : Within (d.span n) line := by
  obtain ⟨before, rest, hl, hc⟩ := ofLine?_eq_some h
  have hn := congrArg List.length hl
  simp only [List.length_append, List.length_cons, String.length_toList] at hn
  constructor <;> simp only [span, hc] <;> omega

theorem within_trimEnd (h : marks line = true) (n : Nat) :
    Within ⟨n, 1, (Text.trimEnd line).length⟩ line := by
  obtain ⟨cs, hl⟩ : ∃ cs, line.toList = '%' :: cs := by
    simpa [marks, List.head?_eq_some_iff] using h
  have hp : 0 < (Text.dropEndWhile Text.isBlank line.toList).length :=
    hl ▸ Text.length_dropEndWhile_pos rfl
  have hle : (Text.dropEndWhile Text.isBlank line.toList).length ≤ line.toList.length :=
    Text.length_dropEndWhile_le
  rw [String.length_toList] at hle
  constructor <;> simp only [Text.trimEnd, String.length_ofList] <;> omega

end Directive

namespace Merged

section Reading

variable (source : FileSource) (root entry : Path)

-- How far reading has come: the lines of a file from the line `n` on are yet to be read, and all
-- that stands before them has been pasted. `trace` holds the directives that are being followed,
-- the nearest first.
inductive Reading : Path → List Frame → Nat → List String → Prop
  | start {text} (read : source.readText entry = .ok text) : Reading entry [] 1 (fileLines text)
  | line {file trace n line lines} (reading : Reading file trace n (line :: lines))
      (unmarked : Directive.marks line = false) : Reading file trace (n + 1) lines
  | use {file trace n line lines d files cs} (reading : Reading file trace n (line :: lines))
      (directive : Directive.ofLine? line = some d)
      (targets : targets source root d.pattern (d.span n) = .ok files)
      (pasted : FileCopies source root (⟨file, n⟩ :: trace) files cs) :
      Reading file trace (n + 1) lines
  | enter {host trace n line lines d before file after cs text}
      (reading : Reading host trace n (line :: lines))
      (directive : Directive.ofLine? line = some d)
      (targets : targets source root d.pattern (d.span n) = .ok (before ++ file :: after))
      (pasted : FileCopies source root (⟨host, n⟩ :: trace) before cs)
      (apart : file.place ∉ places host trace) (read : source.readText file = .ok text) :
      Reading file (⟨host, n⟩ :: trace) 1 (fileLines text)

-- Why the directive on a line of a file cannot be followed, and what the error is about: the whole
-- line if it is no directive, and else the pattern.
inductive Stops (host : Path) (trace : List Frame) (n : Nat) (line : String) : Span → Fault → Prop
  | malformed (marked : Directive.marks line = true) (malformed : Directive.ofLine? line = none) :
      Stops host trace n line ⟨n, 1, (Text.trimEnd line).length⟩ .malformedInclude
  | unresolved {d e} (directive : Directive.ofLine? line = some d)
      (targets : targets source root d.pattern (d.span n) = .error e) :
      Stops host trace n line (d.span n) e.fault
  | circular {d before file after cs} (directive : Directive.ofLine? line = some d)
      (targets : targets source root d.pattern (d.span n) = .ok (before ++ file :: after))
      (pasted : FileCopies source root (⟨host, n⟩ :: trace) before cs)
      (within : file.place ∈ places host trace) :
      Stops host trace n line (d.span n) (.circularInclude d.pattern)
  | unreadable {d before file after cs e} (directive : Directive.ofLine? line = some d)
      (targets : targets source root d.pattern (d.span n) = .ok (before ++ file :: after))
      (pasted : FileCopies source root (⟨host, n⟩ :: trace) before cs)
      (apart : file.place ∉ places host trace) (read : source.readText file = .error e) :
      Stops host trace n line (d.span n) (.unreadableInclude d.pattern e.message)

-- An error of a directive that cannot be followed, once reading has come to its line. The error
-- carries where that is: the file with the line, and the directives that led to the file.
structure Located (e : Diagnostic) (host : Path) (trace : List Frame) (n : Nat) (line : String)
    (s : Span) : Prop where
  site     : e.site = .span s (some ⟨host, n, s.column, s.length, line, trace⟩)
  reading  : ∃ lines, Reading source root entry host trace n (line :: lines)
  stops    : Stops source root host trace n line s e.fault
  is_line  : IsLine source host n line
  marked   : Directive.marks line
  within   : Directive.Within s line
  chain    : Chain source root entry host trace
  frames   : ∀ f ∈ trace, ∃ line d, IsLine source f.file f.line line ∧
    Directive.ofLine? line = some d
  resolved : ∀ m : Merged, m.resolve e = e

def Points (e : Diagnostic) : Prop :=
  ∃ host trace n line s, Located source root entry e host trace n line s

end Reading

section Points

variable {source : FileSource} {root entry file : Path} {trace : List Frame} {n : Nat}
  {line : String} {lines : List String} {e : Diagnostic} {s : Span} {fault : Fault}

theorem Reading.opens (h : Reading source root entry file trace n lines) :
    Opens source root entry file trace n lines := by
  induction h
  case start read => exact .start read
  case line hi | use hi => exact hi.tail
  case enter hd ht _ _ hr hi =>
    exact hi.chain.opens (hi.uses hd ht _ (List.mem_append_right _ List.mem_cons_self)) hr

theorem FileCopies.append {trace : List Frame} {files files' : List Path} {cs cs' : List Copy}
    (h : FileCopies source root trace files cs) (h' : FileCopies source root trace files' cs') :
    FileCopies source root trace (files ++ files') (cs ++ cs') := by
  match h with
  | .nil => exact h'
  | .cons hr hl rest =>
    rw [List.append_assoc]
    exact .cons hr hl (rest.append h')

theorem site_failure (h : e.site = .span s none) : (failure file trace line e).site =
    .span s (some ⟨file, s.line, s.column, s.length, line, trace⟩) := by
  simp [failure, Opened.locate, Diagnostic.located, h]

theorem site_of_targets {name : String} (h : targets source root name s = .error e) :
    e.site = .span s none := by
  unfold targets at h
  repeat' split at h
  all_goals cases h
  all_goals rfl

theorem Stops.within (h : Stops source root file trace n line s fault) :
    Directive.Within s line := by
  cases h
  case malformed hm _ => exact Directive.within_trimEnd hm n
  case unresolved hd _ | circular hd _ _ _ | unreadable hd _ _ _ _ =>
    exact Directive.within_span hd n

theorem Stops.marked (h : Stops source root file trace n line s fault) : Directive.marks line := by
  cases h
  case malformed hm _ => exact hm
  case unresolved hd _ | circular hd _ _ _ | unreadable hd _ _ _ _ => exact marks_of_ofLine? hd

theorem resolve_of_site {l : Location} (h : e.site = .span s (some l)) (m : Merged) :
    m.resolve e = e := by
  simp [resolve, Diagnostic.inFile, h]

-- Each directive on the way to a file is on a line of the file that has it.
theorem Chain.frames (h : Chain source root entry file trace) : ∀ f ∈ trace, ∃ line d,
    IsLine source f.file f.line line ∧ Directive.ofLine? line = some d := by
  induction h
  case entry => exact nofun
  case use hu hi =>
    obtain ⟨hl, hd, _, _⟩ := hu
    exact List.forall_mem_cons.mpr ⟨⟨_, _, hl, hd⟩, hi⟩

-- An error that the directive on a line has by itself.
theorem points_of_failure {host : Path}
    (hr : Reading source root entry host trace n (line :: lines))
    (hs : Stops source root host trace n line s e.fault) (he : e.site = .span s none)
    (hn : s.line = n) : Points source root entry (failure host trace line e) := by
  subst hn
  have hf : (failure host trace line e).site = _ := site_failure he
  exact ⟨host, trace, s.line, line, s, {
    site     := hf
    reading  := ⟨lines, hr⟩
    stops    := by rwa [fault_failure]
    is_line  := hr.opens.isLine
    marked   := hs.marked
    within   := hs.within
    chain    := hr.opens.chain
    frames   := hr.opens.chain.frames
    resolved := resolve_of_site hf
  }⟩

mutual

theorem LineFails.points {file : Path} {trace : List Frame} {n : Nat} {lines : List String}
    {e : Diagnostic} (h : LineFails source root file trace n lines e)
    (hr : Reading source root entry file trace n lines) : Points source root entry e := by
  match h with
  | .line hm rest => exact rest.points (hr.line hm)
  | .malformed hm hd => exact points_of_failure hr (.malformed hm hd) rfl rfl
  | .unresolved hd ht => exact points_of_failure hr (.unresolved hd ht) (site_of_targets ht) rfl
  | .inside hd ht pasted => exact pasted.points hr hd (List.nil_append _ ▸ ht) .nil
  | .after hd ht pasted rest => exact rest.points (hr.use hd ht pasted)

theorem FileFails.points {file : Path} {trace : List Frame} {n : Nat} {line : String}
    {lines : List String} {d : Directive} {before files : List Path} {e : Diagnostic}
    {cs : List Copy} (h : FileFails source root file trace n line d files e)
    (hr : Reading source root entry file trace n (line :: lines))
    (hd : Directive.ofLine? line = some d)
    (ht : targets source root d.pattern (d.span n) = .ok (before ++ files))
    (hc : FileCopies source root (⟨file, n⟩ :: trace) before cs) : Points source root entry e := by
  match h with
  | .circular hm => exact points_of_failure hr (.circular hd ht hc hm) rfl rfl
  | .unreadable ha hf => exact points_of_failure hr (.unreadable hd ht hc ha hf) rfl rfl
  | .inside ha hf hl => exact hl.points (hr.enter hd ht hc ha hf)
  | .after _ hf hl rest =>
    rw [List.append_cons] at ht
    exact rest.points hr hd ht (hc.append (.cons hf hl .nil))

end

theorem ofEntry_points {t : MemoryTree} {root entry : Path} {text : String} {e : Diagnostic}
    (hr : t.source.readText entry = .ok text) (h : ofEntry t.source root entry = .error e) :
    Points t.source root entry e := by
  cases ofEntry_fails h
  case unreadable hr' => cases hr.symm.trans hr'
  case inside hr' hl => exact hl.points (.start hr')

end Points

-- A file that starts with a byte order mark and with a directive that leads back to the entry. A
-- third file is pasted before it.
def returningFiles : MemoryTree :=
  ((MemoryTree.empty.insert ⟨"p/main.gs"⟩ "a\n%use \"c\"\n%use \"b\"\n".toUTF8).insert
    ⟨"p/b.gs"⟩ "\ufeff%use\t\"wörter/../main\" ;\r\n".toUTF8).insert ⟨"p/c.gs"⟩ "c\n".toUTF8

def returningError : Diagnostic where
  fault := .circularInclude "wörter/../main"
  help := none
  site := .span ⟨1, 6, 16⟩
    (some ⟨⟨"p/b.gs"⟩, 1, 6, 16, "%use\t\"wörter/../main\" ;", [⟨⟨"p/main.gs"⟩, 3⟩]⟩)

theorem ofEntry_points_returningFiles : ∃ text,
    returningFiles.source.readText ⟨"p/main.gs"⟩ = .ok text ∧
      ofEntry returningFiles.source ⟨"p"⟩ ⟨"p/main.gs"⟩ = .error returningError ∧
      Points returningFiles.source ⟨"p"⟩ ⟨"p/main.gs"⟩ returningError := by
  have hr : returningFiles.source.readText ⟨"p/main.gs"⟩ =
      .ok "a\n%use \"c\"\n%use \"b\"\n" := by
    with_unfolding_all rfl
  have h : ofEntry returningFiles.source ⟨"p"⟩ ⟨"p/main.gs"⟩ = .error returningError := by
    decide +kernel
  exact ⟨_, hr, h, ofEntry_points hr h⟩

end Merged

end BlockLang
