import BlockLang.Proofs.Include.Copies

/-!
Merging adds parts to those that are there, and the new parts hold the copies that the merged lines
leave. Each part also knows the part that the directive before it ended.
-/

namespace BlockLang

-- The parts before a new part with this parent and trace let it trace back its directives: it
-- belongs to the entry file, or its parent ended at the directive that led to it.
structure Rooted (entry file : Path) (ps : List Part) (parent : Option Nat) (trace : List Frame) :
    Prop where
  of_none : parent = none → file = entry ∧ trace = []
  of_some : ∀ i, parent = some i →
    ∃ p, ps[i]? = some p ∧ trace = ⟨p.file, p.fileStart + p.lines.length⟩ :: p.trace

-- Every part traces back its directives along the parts before it.
def AllRooted (entry : Path) (ps : List Part) : Prop :=
  ∀ i p, ps[i]? = some p → Rooted entry p.file (ps.take i) p.parent p.trace

variable {entry file : Path} {ps qs : List Part} {parent : Option Nat} {trace : List Frame}

theorem Rooted.append (h : Rooted entry file ps parent trace) :
    Rooted entry file (ps ++ qs) parent trace where
  of_none := h.of_none
  of_some i hi := by
    have ⟨p, hp, ht⟩ := h.of_some i hi
    have hlt : i < ps.length := (List.getElem?_eq_some_iff.mp hp).choose
    exact ⟨p, by rwa [List.getElem?_append_left hlt], ht⟩

theorem AllRooted.nil : AllRooted entry [] := by
  intro i p h
  simp at h

theorem AllRooted.concat {p : Part} (h : AllRooted entry ps)
    (hp : Rooted entry p.file ps p.parent p.trace) : AllRooted entry (ps ++ [p]) := by
  intro i q hq
  rcases Nat.lt_trichotomy i ps.length with hi | rfl | hi
  · rw [List.getElem?_append_left hi] at hq
    rw [List.take_append_of_le_length (Nat.le_of_lt hi)]
    exact h i q hq
  · simp at hq
    simpa [← hq] using hp
  · rw [List.getElem?_eq_none (by simp; omega)] at hq
    contradiction

namespace Merged

variable {source : FileSource} {root : Path}

-- What is added to the parts so far: parts that hold some copies, and that trace back their
-- directives if the place where they are merged does.
structure Adds (entry : Path) (o : Opened) (Copies : List Copy → Prop) (ps ps' : List Part) :
    Prop where
  split  : ∃ qs, ps' = ps ++ qs ∧ Copies (qs.flatMap Part.copies)
  rooted : AllRooted entry ps → Rooted entry o.file ps o.parent o.trace → AllRooted entry ps'

-- What merging a whole file comes to.
def Enters (source : FileSource) (root entry : Path) (enter : Enter) : Prop :=
  ∀ {o text ps ps'}, enter o text ps = .ok ps' →
    ps' ≠ [] ∧ Adds entry o (LineCopies source root o.file o.trace 1 (fileLines text)) ps ps'

theorem Adds.trans {o : Opened} {C C' D : List Copy → Prop} {ps ps₁ ps₂ : List Part}
    (a : Adds entry o C ps ps₁) (b : Adds entry o C' ps₁ ps₂)
    (h : ∀ cs cs', C cs → C' cs' → D (cs ++ cs')) : Adds entry o D ps ps₂ := by
  have ⟨qs, hq, hc⟩ := a.split
  have ⟨rs, hr, hc'⟩ := b.split
  subst hq hr
  exact {
    split := ⟨qs ++ rs, by simp, by simpa using h _ _ hc hc'⟩
    rooted := fun ha ho => b.rooted (a.rooted ha ho) ho.append
  }

-- A file that a directive names is rooted in the part which the directive ended.
theorem Adds.host {o : Opened} {n : Nat} {file : Path} {C : List Copy → Prop} {i : Nat} {p : Part}
    {ps ps' : List Part} (hp : ps[i]? = some p) (hf : p.file = o.file)
    (hn : p.fileStart + p.lines.length = n) (ht : p.trace = o.trace)
    (a : Adds entry ⟨file, some i, ⟨o.file, n⟩ :: o.trace⟩ C ps ps') : Adds entry o C ps ps' where
  split := a.split
  rooted ha _ := a.rooted ha {
    of_none := nofun
    of_some := by
      rintro _ ⟨rfl⟩
      exact ⟨p, hp, by simp [hf, hn, ht]⟩
  }

theorem mergeTargets_adds {enter : Enter} {opened : List (List Component)} {pattern line : String}
    {s : Span} {host : Opened} {i : Nat} {p : Part} {files : List Path} {ps ps' : List Part}
    (he : Enters source root entry enter) (hp : ps[i]? = some p) (hf : p.file = host.file)
    (hn : p.fileStart + p.lines.length = s.line) (ht : p.trace = host.trace)
    (h : mergeTargets source enter opened pattern s host line i files ps = .ok ps') :
    Adds entry host (FileCopies source root (⟨host.file, s.line⟩ :: host.trace) files) ps ps' := by
  induction files generalizing ps
  case nil =>
    simp only [mergeTargets, Except.ok.injEq] at h
    subst h
    exact ⟨⟨[], by simp, .nil⟩, fun ha _ => ha⟩
  case cons file files hi =>
    simp only [mergeTargets] at h
    split at h
    · contradiction
    split at h
    · contradiction
    case _ text hr =>
      simp only [bind, Except.bind] at h
      split at h
      · contradiction
      case _ ps₁ h₁ =>
        have a := (he h₁).2.host hp hf hn ht
        have ⟨qs, hq, _⟩ := a.split
        have hp₁ : ps₁[i]? = some p := by
          rw [hq, List.getElem?_append_left (List.getElem?_eq_some_iff.mp hp).choose, hp]
        exact a.trans (hi hp₁ h) fun _ _ hc hc' => .cons hr hc hc'

-- Lines without a directive are copied as they are.
theorem LineCopies.plain_append {o : Opened} {n : Nat} {own lines : List String} {cs : List Copy}
    (hm : ∀ line ∈ own, Directive.marks line = false)
    (h : LineCopies source root o.file o.trace (n + own.length) lines cs) :
    LineCopies source root o.file o.trace n (own ++ lines) ((o.part n own).copies ++ cs) := by
  induction own generalizing n
  case nil => exact h
  case cons line own hi =>
    have hown := hi (n := n + 1) (fun l hl => hm l (by simp [hl])) <| by
      rwa [Nat.add_assoc, Nat.add_comm 1]
    rw [Opened.part, Part.copies_cons]
    exact .line (hm line (by simp)) hown

-- The lines before a directive become a part of their own.
theorem Adds.own {o : Opened} (n : Nat) (own : List String) (ps : List Part) :
    Adds entry o (· = (o.part n own).copies) ps (ps ++ [o.part n own]) where
  split       := ⟨[o.part n own], rfl, by simp⟩
  rooted ha ho := ha.concat ho

-- Lines are merged up to the first directive, then the files that it names, then the other lines.
theorem mergeLines_cases {enter : Enter} {opened : List (List Component)} {o : Opened} {n : Nat}
    {lines : List String} {ps ps' : List Part}
    (h : mergeLines source root enter opened o n lines ps = .ok ps') :
    ∃ own rest, lines = own ++ rest ∧ (∀ line ∈ own, Directive.marks line = false) ∧
      ((rest = [] ∧ ps' = ps ++ [o.part n own]) ∨
        ∃ line rest' d files ps₁, rest = line :: rest' ∧ Directive.ofLine? line = some d ∧
          targets source root d.pattern (d.span (n + own.length)) = .ok files ∧
          mergeTargets source enter opened d.pattern (d.span (n + own.length)) o line ps.length
            files (ps ++ [o.part n own]) = .ok ps₁ ∧
          mergeLines source root enter opened o (n + own.length + 1) rest' ps₁ = .ok ps') := by
  rw [mergeLines] at h
  have hsplit :=
    List.takeWhile_append_dropWhile (p := fun line => !Directive.marks line) (l := lines)
  have hplain := List.all_takeWhile (p := fun line => !Directive.marks line) (l := lines)
  generalize List.takeWhile _ lines = own at h hsplit hplain
  generalize List.dropWhile _ lines = rest at h hsplit
  refine ⟨own, rest, hsplit.symm, by simpa using hplain, ?_⟩
  split at h
  case h_1 =>
    cases h
    exact .inl ⟨rfl, rfl⟩
  case h_2 line rest' =>
    split at h
    · contradiction
    case h_2 d hd =>
    dsimp only at h
    split at h
    · contradiction
    case h_2 files hf =>
    simp only [bind, Except.bind] at h
    split at h
    · contradiction
    case h_2 ps₁ h₁ => exact .inr ⟨line, rest', d, files, ps₁, rfl, hd, hf, h₁, h⟩

theorem mergeLines_adds {enter : Enter} {opened : List (List Component)} {o : Opened} {n : Nat}
    {lines : List String} {ps ps' : List Part} (he : Enters source root entry enter)
    (h : mergeLines source root enter opened o n lines ps = .ok ps') :
    ps' ≠ [] ∧ Adds entry o (LineCopies source root o.file o.trace n lines) ps ps' := by
  induction hk : lines.length using Nat.strongRecOn generalizing n lines ps
  case ind k hi =>
  have ⟨own, rest, hl, hplain, hcases⟩ := mergeLines_cases h
  subst hl
  have a : Adds entry o _ ps _ := .own n own ps
  cases hcases
  case inl hc =>
    have ⟨hrest, hps⟩ := hc
    subst hrest hps
    refine ⟨by simp, a.split.imp fun qs hq => ⟨hq.1, ?_⟩, a.rooted⟩
    rw [hq.2, ← List.append_nil (o.part n own).copies]
    exact .plain_append hplain .nil
  case inr hc =>
    have ⟨line, rest', d, files, ps₁, hrest, hd, hf, h₁, h₂⟩ := hc
    subst hrest
    have b : Adds entry o _ _ _ :=
      mergeTargets_adds (p := o.part n own) he (by simp) rfl rfl rfl h₁
    have hlt : rest'.length < k := by simp only [← hk, List.length_append, List.length_cons]; omega
    have ⟨hne, c⟩ := hi _ hlt h₂ rfl
    have d := b.trans c fun _ _ hb hc => LineCopies.use hd hf hb hc
    refine ⟨hne, a.trans d ?_⟩
    rintro _ _ rfl hc
    exact .plain_append hplain hc

theorem mergeFile_enters (opened : List (List Component)) (depth : Nat) :
    Enters source root entry (mergeFile source root opened depth) := by
  induction depth generalizing opened
  case zero =>
    intro o text ps ps' h
    contradiction
  case succ depth hi =>
    intro o text ps ps' h
    exact mergeLines_adds (hi _) h

end Merged

end BlockLang
