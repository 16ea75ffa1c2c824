import BlockLang.Include.Merge

/-!
Where the lines of a merged source come from.

`Copies` follows the directives of a file and says, for each line that they paste, which line of
which file it is and through which directives it was reached. It knows nothing of parts and of
merged line numbers.
-/

namespace BlockLang

-- A line of a file that was copied into a merged source. `trace` holds the directives that led to
-- this copy of the file, the nearest first.
structure Copy where
  file : Path
  number : Nat
  text : String
  trace : List Frame

namespace Copy

def location (c : Copy) (s : Span) : Location :=
  ⟨c.file, c.number, s.column, s.length, c.text, c.trace⟩

end Copy

-- The lines of a part, each with its number in the file.
def Part.copies (p : Part) : List Copy :=
  p.lines.mapIdx fun i text => ⟨p.file, p.fileStart + i, text, p.trace⟩

namespace Part

theorem copies_cons {file : Path} {n : Nat} {line : String} {lines : List String}
    {parent : Option Nat} {trace : List Frame} :
    (Part.mk file n (line :: lines) parent trace).copies =
      ⟨file, n, line, trace⟩ :: (Part.mk file (n + 1) lines parent trace).copies := by
  simp [copies, Nat.add_assoc, Nat.add_comm 1]

variable {p : Part}

theorem length_copies : p.copies.length = p.lines.length := by
  simp [copies]

theorem map_text_copies : p.copies.map Copy.text = p.lines := by
  apply List.ext_getElem? 
  simp [copies, Function.comp_def]

theorem getElem?_copies {i : Nat} :
    p.copies[i]? = p.lines[i]?.map fun text => ⟨p.file, p.fileStart + i, text, p.trace⟩ := by
  simp [copies]

end Part

namespace Merged

-- The line with the number `n` of a file. Byte order marks at the start of the file do not belong
-- to its first line.
structure IsLine (source : FileSource) (file : Path) (n : Nat) (line : String) : Prop where
  pos    : 1 ≤ n
  exists_raw : ∃ text raw, source.readText file = .ok text ∧ (Text.lines text)[n - 1]? = some raw ∧
    line = if n = 1 then String.ofList (raw.toList.dropWhile (· = '\ufeff')) else raw

theorem getElem?_fileLines {text line : String} {i : Nat} (h : (fileLines text)[i]? = some line) :
    ∃ raw, (Text.lines text)[i]? = some raw ∧
      line = if i = 0 then String.ofList (raw.toList.dropWhile (· = '\ufeff')) else raw := by
  unfold fileLines at h
  unfold Text.lines
  cases hl : Text.linesOf text.toList
  case nil => simp [hl] at h
  case cons cs rest =>
    simp only [hl] at h
    cases i
    case zero =>
      simp at h
      exact ⟨String.ofList cs, by simp, by simp [← h]⟩
    case succ i => exact ⟨line, by simpa using h, by simp⟩

theorem IsLine.of_fileLines {source : FileSource} {file : Path} {text line : String} {i : Nat}
    (hr : source.readText file = .ok text) (h : (fileLines text)[i]? = some line) :
    IsLine source file (i + 1) line := by
  have ⟨raw, hraw, hline⟩ := getElem?_fileLines h
  exact ⟨Nat.le_add_left 1 i, text, raw, hr, by simpa using hraw, by simpa using hline⟩

variable (source : FileSource) (root : Path)

-- The line with the number `n` of a file is a directive that names the target.
inductive Uses (host : Path) (n : Nat) (target : Path) : Prop
  | intro {line d files} (is_line : IsLine source host n line)
      (directive : Directive.ofLine? line = some d)
      (targets : targets source root d.pattern (d.span n) = .ok files) (mem : target ∈ files)

-- The directives that lead from the entry file to a file, the nearest first.
inductive Chain (entry : Path) : Path → List Frame → Prop
  | entry : Chain entry entry []
  | use {host target trace n} (chain : Chain entry host trace)
      (uses : Uses source root host n target) : Chain entry target (⟨host, n⟩ :: trace)

mutual

-- The copies that lines of a file leave in the merged source. The first line has the number `n`.
inductive LineCopies : Path → List Frame → Nat → List String → List Copy → Prop
  | nil {file trace n} : LineCopies file trace n [] []
  | line {file trace n line lines cs} (unmarked : Directive.marks line = false)
      (rest : LineCopies file trace (n + 1) lines cs) :
      LineCopies file trace n (line :: lines) (⟨file, n, line, trace⟩ :: cs)
  | use {file trace n line lines d files cs cs'} (directive : Directive.ofLine? line = some d)
      (targets : targets source root d.pattern (d.span n) = .ok files)
      (pasted : FileCopies (⟨file, n⟩ :: trace) files cs)
      (rest : LineCopies file trace (n + 1) lines cs') :
      LineCopies file trace n (line :: lines) (cs ++ cs')

-- The copies that files leave, one after the other, when a directive names them.
inductive FileCopies : List Frame → List Path → List Copy → Prop
  | nil {trace} : FileCopies trace [] []
  | cons {trace file files text cs cs'} (read : source.readText file = .ok text)
      (lines : LineCopies file trace 1 (fileLines text) cs) (rest : FileCopies trace files cs') :
      FileCopies trace (file :: files) (cs ++ cs')

end

variable {source root}

theorem marks_of_ofLine? {line : String} {d : Directive} (h : Directive.ofLine? line = some d) :
    Directive.marks line = true := by
  unfold Directive.ofLine? at h
  split at h
  case h_1 hl => simp [Directive.marks, hl]
  case h_2 => contradiction

mutual

-- A line is either copied or it is a directive, so there is only one way to follow the directives.
theorem LineCopies.unique {file : Path} {trace : List Frame} {n : Nat} {lines : List String}
    {cs cs' : List Copy} (h : LineCopies source root file trace n lines cs)
    (h' : LineCopies source root file trace n lines cs') : cs = cs' := by
  match h, h' with
  | .nil, .nil => rfl
  | .line _ rest, .line _ rest' => rw [rest.unique rest']
  | .line hm _, .use hd .. | .use hd .., .line hm _ =>
    rw [marks_of_ofLine? hd] at hm
    contradiction
  | .use hd ht pasted rest, .use hd' ht' pasted' rest' =>
    cases hd.symm.trans hd'
    cases ht.symm.trans ht'
    rw [pasted.unique pasted', rest.unique rest']

theorem FileCopies.unique {trace : List Frame} {files : List Path} {cs cs' : List Copy}
    (h : FileCopies source root trace files cs) (h' : FileCopies source root trace files cs') :
    cs = cs' := by
  match h, h' with
  | .nil, .nil => rfl
  | .cons hr lines rest, .cons hr' lines' rest' =>
    cases hr.symm.trans hr'
    rw [lines.unique lines', rest.unique rest']

end

variable (source root)

-- What a copy says is true: the file has this line, and the directives lead to the file.
structure Genuine (entry : Path) (c : Copy) : Prop where
  line  : IsLine source c.file c.number c.text
  chain : Chain source root entry c.file c.trace

variable {source root} {entry : Path}

mutual

theorem LineCopies.genuine {file : Path} {trace : List Frame} {n : Nat} {lines : List String}
    {cs : List Copy} (h : LineCopies source root file trace n lines cs)
    (hc : Chain source root entry file trace)
    (hl : ∀ (i : Nat) (line : String), lines[i]? = some line → IsLine source file (n + i) line) :
    ∀ c ∈ cs, Genuine source root entry c := by
  have tail {line : String} {lines' : List String} (e : lines = line :: lines') (i : Nat)
      (line' : String) (h : lines'[i]? = some line') : IsLine source file (n + 1 + i) line' := by
    have := hl (i + 1) line' (by simpa [e] using h)
    rwa [Nat.add_comm i 1, ← Nat.add_assoc] at this
  match h with
  | .nil => simp
  | .line _ rest =>
    simp only [List.mem_cons, forall_eq_or_imp]
    exact ⟨⟨hl 0 _ rfl, hc⟩, rest.genuine hc (tail rfl)⟩
  | .use directive targets pasted rest =>
    intro c hm
    cases List.mem_append.mp hm
    case inl hm =>
      exact pasted.genuine (fun file hf => hc.use <| .intro (hl 0 _ rfl) directive targets hf) c hm
    case inr hm => exact rest.genuine hc (tail rfl) c hm

theorem FileCopies.genuine {trace : List Frame} {files : List Path} {cs : List Copy}
    (h : FileCopies source root trace files cs)
    (hc : ∀ file ∈ files, Chain source root entry file trace) :
    ∀ c ∈ cs, Genuine source root entry c := by
  match h with
  | .nil => simp
  | .cons read lines rest =>
    intro c hm
    cases List.mem_append.mp hm
    case inl hm =>
      refine lines.genuine (hc _ (by simp)) (fun i line h => ?_) c hm
      exact Nat.add_comm i 1 ▸ .of_fileLines read h
    case inr hm => exact rest.genuine (fun file hf => hc file (by simp [hf])) c hm

end

-- The copies that a whole source leaves.
def EntryCopies (source : FileSource) (root entry : Path) (cs : List Copy) : Prop :=
  ∃ text, source.readText entry = .ok text ∧
    LineCopies source root entry [] 1 (fileLines text) cs

theorem EntryCopies.unique {cs cs' : List Copy} (h : EntryCopies source root entry cs)
    (h' : EntryCopies source root entry cs') : cs = cs' := by
  have ⟨text, hr, hl⟩ := h
  have ⟨text', hr', hl'⟩ := h'
  cases hr.symm.trans hr'
  exact hl.unique hl'

theorem EntryCopies.genuine {cs : List Copy} (h : EntryCopies source root entry cs) :
    ∀ c ∈ cs, Genuine source root entry c := by
  have ⟨text, hr, hl⟩ := h
  apply hl.genuine .entry
  intro i line hi
  exact Nat.add_comm i 1 ▸ .of_fileLines hr hi

end Merged

end BlockLang
