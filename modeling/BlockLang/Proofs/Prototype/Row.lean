import BlockLang.Proofs.Except
import BlockLang.Proofs.Text.Blank
import BlockLang.Prototype.Row

/-!
Prototypes are read back from the rows that they are written as, unless an input that a block always
has holds a point, which makes its inputs be read as fields.
-/

namespace BlockLang

namespace Prototype

-- What the parts of a row are told apart by.
def marks : List Char :=
  ['|', ',', '.', '!', '?', '=']

def assignmentCell (a : String × String) : String :=
  a.1 ++ "=" ++ a.2

-- Texts with commas between them, and with some white space after each of the commas.
def commas (gap : String) (texts : List String) : String :=
  ("," ++ gap).intercalate texts

-- The fields and the inputs that the block always has.
def assigned (p : Prototype) : List (String × String) :=
  p.fields ++ p.inputs

def nameCell (p : Prototype) : String :=
  if p.condition then p.name ++ "?" else p.name

def opcodeCell (gap : String) (p : Prototype) : String :=
  if p.fields ≠ [] then p.opcode ++ "." ++ commas gap (p.fields.map assignmentCell)
  else if p.inputs ≠ [] then p.opcode ++ "!" ++ commas gap (p.inputs.map assignmentCell)
  else p.opcode

-- A prototype as a row of a table, with some white space around the bars and after the commas.
def row (gap : String) (p : Prototype) : String :=
  (gap ++ "|" ++ gap).intercalate [p.nameCell, commas gap p.params, p.opcodeCell gap]

-- A prototype that there is a row for. Its names have no marks in them, and the values that it
-- assigns have none that come before.
structure Writable (p : Prototype) : Prop where
  oneKind  : p.fields = [] ∨ p.inputs = []
  unmarked : ∀ s ∈ p.name :: p.opcode :: (p.params ++ p.assigned.map (·.1)), ∀ c ∈ marks,
    c ∉ s.toList
  values   : ∀ a ∈ p.assigned, '|' ∉ a.2.toList ∧ ',' ∉ a.2.toList
  trimmed  : ∀ s ∈ p.name :: p.opcode :: (p.params ++ p.assigned.map (·.1) ++
    p.assigned.map (·.2)), Text.trim s = s

-- A prototype with no empty cell in its row, but for that of the parameters if there are none.
structure Filled (p : Prototype) : Prop where
  name   : p.name ≠ "" ∨ p.condition
  opcode : p.opcode ≠ "" ∨ p.assigned ≠ []
  params : "" ∉ p.params

open Text

section Cells

variable {mark c : Char} {gap sep s t : String} {ss : List String} {before after cs ds : List Char}
  {a : String × String} {as : List (String × String)}

-- A cell with white space around its text.
theorem cells_padded (hm : isBlank mark = false) (hb : ∀ c ∈ before, isBlank c)
    (ha : ∀ c ∈ after, isBlank c) (ht : Trimmed s) (hs : mark ∉ s.toList) :
    cells mark (String.ofList (before ++ s.toList ++ after)) = [s] := by
  have hne {c} (hc : isBlank c) : decide (c = mark) = false :=
    decide_eq_false fun he => by simp [he, hm] at hc
  have hp : ∀ c ∈ before ++ s.toList ++ after, decide (c = mark) = false := by
    simp only [List.forall_mem_append]
    exact ⟨⟨fun c hc => hne (hb c hc), fun c hc => decide_eq_false fun he => hs (he ▸ hc)⟩,
      fun c hc => hne (ha c hc)⟩
  rw [cells, String.toList_ofList, splitBy_of_forall hp, List.map_singleton, trim_padded hb ha ht]

theorem cells_mark : cells mark (String.ofList (cs ++ mark :: ds)) =
    cells mark (String.ofList cs) ++ cells mark (String.ofList ds) := by
  simp only [cells, String.toList_ofList, splitBy_append (p := (· = mark)) (decide_eq_true rfl),
    List.map_append]

-- Texts are found again between marks that have white space around them.
theorem cells_intercalate (hm : isBlank mark = false) (hs : sep.toList = before ++ mark :: after)
    (hb : ∀ c ∈ before, isBlank c) (ha : ∀ c ∈ after, isBlank c) (hn : ss ≠ [])
    (h : ∀ s ∈ ss, Trimmed s ∧ mark ∉ s.toList) : cells mark (sep.intercalate ss) = ss := by
  -- The texts that are left after a mark have white space before them.
  have hl : ∀ lead, (∀ c ∈ lead, isBlank c) →
      cells mark (String.ofList (lead ++ (sep.intercalate ss).toList)) = ss := by
    induction ss
    case nil => contradiction
    case cons s ss hi =>
      intro lead hl
      have ⟨⟨ht, hs'⟩, hss⟩ := List.forall_mem_cons.mp h
      by_cases he : ss = []
      case pos =>
        have hc : cells mark (String.ofList (lead ++ s.toList ++ [])) = [s] :=
          cells_padded hm hl nofun ht hs'
        rw [List.append_nil] at hc
        rw [he, String.intercalate_singleton, hc]
      case neg =>
        have hj : lead ++ (sep.intercalate (s :: ss)).toList =
            lead ++ s.toList ++ before ++ mark :: (after ++ (sep.intercalate ss).toList) := by
          simp [String.intercalate_cons_of_ne_nil he, hs]
        rw [hj, cells_mark, cells_padded hm hl hb ht hs', hi he hss after ha]
        rfl
  have hl := hl [] nofun
  rwa [List.nil_append, String.ofList_toList] at hl

theorem assignment?_assignmentCell (hk : '=' ∉ a.1.toList) (h : Trimmed a.1 ∧ Trimmed a.2) :
    assignment? (assignmentCell a) = some a := by
  have hs : (assignmentCell a).toList = a.1.toList ++ '=' :: a.2.toList := by
    simp [assignmentCell]
  simp only [assignment?, hs, splitOnce_append hk, Option.map_some, String.ofList_toList,
    trimmed_iff.mp h.1, trimmed_iff.mp h.2]

end Cells

-- An assignment that can be found again in a row.
structure Assigns (a : String × String) : Prop where
  key     : ∀ c ∈ marks, c ∉ a.1.toList
  value   : '|' ∉ a.2.toList ∧ ',' ∉ a.2.toList
  trimmed : Trimmed a.1 ∧ Trimmed a.2

section Assignments

variable {a : String × String} {as : List (String × String)} {gap : String} {c : Char}

theorem Assigns.trimmed_cell (h : Assigns a) : Trimmed (assignmentCell a) :=
  h.trimmed.1.mark h.trimmed.2 (c := '=') rfl (by simp [assignmentCell])

theorem assignmentCell_ne_empty : assignmentCell a ≠ "" := by
  simp [assignmentCell]

theorem mem_assignmentCell (hk : c ∉ a.1.toList) (hc : c ≠ '=') :
    c ∈ (assignmentCell a).toList ↔ c ∈ a.2.toList := by
  simp [assignmentCell, hk, hc]

theorem assignments?_commas (hg : ∀ c ∈ gap.toList, isBlank c) (hn : as ≠ [])
    (h : ∀ a ∈ as, Assigns a) :
    assignments? (commas gap (as.map assignmentCell)).toList = some as := by
  have hs : ("," ++ gap).toList = [] ++ ',' :: gap.toList := by simp
  have hc : ∀ s ∈ as.map assignmentCell, Trimmed s ∧ ',' ∉ s.toList := by
    refine List.forall_mem_map.mpr fun a ha => ⟨(h a ha).trimmed_cell, ?_⟩
    have hk : ',' ∉ a.1.toList := (h a ha).key ',' (by simp [marks])
    rw [mem_assignmentCell hk (by decide)]
    exact (h a ha).value.2
  rw [assignments?, String.ofList_toList, commas,
    cells_intercalate rfl hs nofun hg (by simpa using hn) hc]
  refine mapM_eq_some (List.forall₂_map_left_iff.mpr (List.forall₂_same.mpr fun a ha => ?_))
  exact assignment?_assignmentCell ((h a ha).key '=' (by simp [marks])) (h a ha).trimmed

-- Between the texts there are only commas and white space.
theorem mem_commas (hg : ∀ c ∈ gap.toList, isBlank c) (hc : isBlank c = false) (hn : c ≠ ',')
    {texts : List String} : c ∈ (commas gap texts).toList ↔ ∃ s ∈ texts, c ∈ s.toList := by
  have hg : c ∉ gap.toList := fun hm => by simp [hg c hm] at hc
  exact mem_intercalate (by simp [hn, hg])

-- Only a value can have a mark in it that is not one between the assignments.
theorem mem_commas_assignments (hg : ∀ c ∈ gap.toList, isBlank c) (hm : c ∈ ['|', '.', '!'])
    (h : ∀ a ∈ as, Assigns a) :
    c ∈ (commas gap (as.map assignmentCell)).toList ↔ ∃ a ∈ as, c ∈ a.2.toList := by
  have hc : isBlank c = false ∧ c ≠ ',' ∧ c ≠ '=' ∧ c ∈ marks := by
    simp only [List.mem_cons, List.not_mem_nil, or_false] at hm
    obtain rfl | rfl | rfl := hm <;> decide
  rw [mem_commas hg hc.1 hc.2.1]
  simp only [List.mem_map, exists_exists_and_eq_and]
  exact exists_congr fun a => and_congr_right fun ha =>
    mem_assignmentCell ((h a ha).key c hc.2.2.2) hc.2.2.1

end Assignments

variable {p q : Prototype} {gap text : String}

namespace Writable

variable (h : p.Writable)

include h

theorem trimmed_of_mem {s : String} (hs : s ∈ p.name :: p.opcode :: (p.params ++
    p.assigned.map (·.1) ++ p.assigned.map (·.2))) : Trimmed s :=
  trimmed_iff.mpr (h.trimmed s hs)

theorem assigns : ∀ a ∈ p.assigned, Assigns a := by
  intro a ha
  have hk : a.1 ∈ p.assigned.map (·.1) := List.mem_map_of_mem ha
  have hv : a.2 ∈ p.assigned.map (·.2) := List.mem_map_of_mem ha
  exact ⟨h.unmarked _ (by simp [hk]), h.values a ha,
    h.trimmed_of_mem (by simp [hk]), h.trimmed_of_mem (by simp [hv])⟩

theorem trimmed_nameCell : Trimmed p.nameCell := by
  have hn : Trimmed p.name := h.trimmed_of_mem List.mem_cons_self
  unfold nameCell
  split
  · exact hn.mark .empty (c := '?') rfl (by simp)
  · exact hn

theorem trimmed_opcodeCell : Trimmed (p.opcodeCell gap) := by
  have ho : Trimmed p.opcode := h.trimmed_of_mem (by simp)
  have hc {as} (has : as ⊆ p.assigned) : Trimmed (commas gap (as.map assignmentCell)) :=
    .intercalate (List.forall_mem_map.mpr fun a ha =>
      ⟨(h.assigns a (has ha)).trimmed_cell, assignmentCell_ne_empty⟩)
  unfold opcodeCell
  split
  · exact ho.mark (hc (List.subset_append_left ..)) (c := '.') rfl (by simp)
  · split
    · exact ho.mark (hc (List.subset_append_right ..)) (c := '!') rfl (by simp)
    · exact ho

theorem dropEndWhile_nameCell :
    String.ofList (dropEndWhile (· = '?') p.nameCell.toList) = p.name := by
  have hn : ∀ c ∈ p.name.toList.reverse, ¬decide (c = '?') := fun c hc he =>
    h.unmarked p.name (by simp) '?' (by simp [marks])
      (of_decide_eq_true he ▸ List.mem_reverse.mp hc)
  have hd : p.name.toList.reverse.dropWhile (· = '?') = p.name.toList.reverse :=
    List.dropWhile_eq_self_iff.mpr fun hl => hn _ (List.getElem_mem hl)
  unfold nameCell
  split <;> simp [dropEndWhile, hd]

theorem getLast?_nameCell : p.nameCell.toList.getLast? = some '?' ↔ p.condition := by
  have hn : p.name.toList.getLast? ≠ some '?' := fun hl =>
    h.unmarked p.name (by simp) '?' (by simp [marks]) (List.mem_of_getLast? hl)
  unfold nameCell
  split
  case isTrue hc => simp [hc]
  case isFalse hc => simp [hc, hn]

theorem opcode_unmarked {c : Char} (hc : c ∈ marks) : c ∉ p.opcode.toList :=
  h.unmarked _ (by simp) c hc

theorem toList_opcodeCell (hi : p.inputs ≠ []) : (p.opcodeCell gap).toList =
    p.opcode.toList ++ '!' :: (commas gap (p.inputs.map assignmentCell)).toList := by
  have hf : p.fields = [] := h.oneKind.resolve_right hi
  simp [opcodeCell, hf, hi]

variable (hg : ∀ c ∈ gap.toList, isBlank c)

include hg

theorem bar_not_mem : '|' ∉ p.nameCell.toList ∧ '|' ∉ (commas gap p.params).toList ∧
    '|' ∉ (p.opcodeCell gap).toList := by
  have hm {s} (hs : s ∈ p.name :: p.opcode :: (p.params ++ p.assigned.map (·.1))) :
      '|' ∉ s.toList :=
    h.unmarked s hs '|' (by simp [marks])
  have ho : '|' ∉ p.opcode.toList := hm (by simp)
  have hc {as} (has : as ⊆ p.assigned) :
      '|' ∉ (commas gap (as.map assignmentCell)).toList := by
    rw [mem_commas_assignments hg (by simp) fun a ha => h.assigns a (has ha)]
    exact fun ⟨a, ha, hv⟩ => (h.values a (has ha)).1 hv
  refine ⟨?name, ?params, ?opcode⟩
  case name =>
    have hn : '|' ∉ p.name.toList := hm List.mem_cons_self
    unfold nameCell
    split <;> simp [hn]
  case params =>
    rw [mem_commas hg rfl (by decide)]
    exact fun ⟨s, hs, hc⟩ => hm (by simp [hs]) hc
  case opcode =>
    unfold opcodeCell
    split
    · simp [ho, hc (List.subset_append_left ..)]
    · split
      · simp [ho, hc (List.subset_append_right ..)]
      · exact ho

-- The cells of a row are found again. An empty parameter could be cut off with white space.
theorem cells_row (hp : "" ∉ p.params) :
    cells '|' (p.row gap) = [p.nameCell, commas gap p.params, p.opcodeCell gap] := by
  have hs : (gap ++ "|" ++ gap).toList = gap.toList ++ '|' :: gap.toList := by simp
  have ⟨hbn, hbp, hbo⟩ := h.bar_not_mem hg
  have ht : Trimmed (commas gap p.params) := .intercalate fun s hs =>
    ⟨h.trimmed_of_mem (by simp [hs]), fun he => hp (he ▸ hs)⟩
  refine cells_intercalate rfl hs hg hg (by simp) ?_
  simp [h.trimmed_nameCell, hbn, ht, hbp, h.trimmed_opcodeCell, hbo]

theorem cells_params (hp : "" ∉ p.params) :
    (cells ',' (commas gap p.params)).filter (· ≠ "") = p.params := by
  by_cases hn : p.params = []
  case pos => simp [hn, commas, cells, splitBy, trim, dropEndWhile]
  case neg =>
    have hs : ("," ++ gap).toList = [] ++ ',' :: gap.toList := by simp
    have ht : ∀ s ∈ p.params, Trimmed s ∧ ',' ∉ s.toList := fun s hs =>
      ⟨h.trimmed_of_mem (by simp [hs]), h.unmarked s (by simp [hs]) ',' (by simp [marks])⟩
    rw [commas, cells_intercalate rfl hs (by simp) hg hn ht, List.filter_eq_self]
    exact fun s hs => decide_eq_true fun he => hp (he ▸ hs)

theorem point_mem_opcodeCell (hi : p.inputs ≠ []) :
    '.' ∈ (p.opcodeCell gap).toList ↔ ∃ a ∈ p.inputs, '.' ∈ a.2.toList := by
  have ho : '.' ∉ p.opcode.toList := h.opcode_unmarked (by simp [marks])
  have ha : ∀ a ∈ p.inputs, Assigns a := fun a ha => h.assigns a (List.mem_append_right _ ha)
  rw [h.toList_opcodeCell hi, ← mem_commas_assignments hg (by simp) ha]
  simp [ho]

-- If no input holds a point, then the first mark after the opcode is the one that comes with it.
theorem opcode?_opcodeCell (hv : ∀ a ∈ p.inputs, '.' ∉ a.2.toList) :
    opcode? (p.opcodeCell gap) = some (p.opcode, p.fields, p.inputs) := by
  have hp : '.' ∉ p.opcode.toList := h.opcode_unmarked (by simp [marks])
  have he : '!' ∉ p.opcode.toList := h.opcode_unmarked (by simp [marks])
  by_cases hi : p.inputs = []
  case neg =>
    have hf : p.fields = [] := h.oneKind.resolve_right hi
    have ha : ∀ a ∈ p.inputs, Assigns a := fun a ha => h.assigns a (List.mem_append_right _ ha)
    have hn : '.' ∉ (p.opcodeCell gap).toList :=
      (h.point_mem_opcodeCell hg hi).not.mpr fun ⟨a, ha, hm⟩ => hv a ha hm
    rw [opcode?, splitOnce_eq_none.mpr hn]
    simp [h.toList_opcodeCell hi, splitOnce_append he, assignments?_commas hg hi ha, hf]
  case pos =>
    by_cases hf : p.fields = []
    case neg =>
      have hc : (p.opcodeCell gap).toList =
          p.opcode.toList ++ '.' :: (commas gap (p.fields.map assignmentCell)).toList := by
        simp [opcodeCell, hf]
      have ha : ∀ a ∈ p.fields, Assigns a := fun a ha => h.assigns a (List.mem_append_left _ ha)
      simp [opcode?, hc, splitOnce_append hp, assignments?_commas hg hf ha, hi]
    case pos =>
      have hc : p.opcodeCell gap = p.opcode := by simp [opcodeCell, hf, hi]
      rw [opcode?, hc, splitOnce_eq_none.mpr hp, splitOnce_eq_none.mpr he, hf, hi]

end Writable

theorem nameCell_eq_empty : p.nameCell = "" ↔ p.name = "" ∧ p.condition = false := by
  unfold nameCell
  split <;> simp [*]

theorem opcodeCell_eq_empty : p.opcodeCell gap = "" ↔ p.opcode = "" ∧ p.assigned = [] := by
  unfold opcodeCell
  split
  · simp_all [assigned]
  · split <;> simp_all [assigned]

-- A point in the column of the opcode, wherever it comes from, keeps inputs from being read.
theorem inputs_of_opcode? {cell : String} (hp : '.' ∈ cell.toList)
    {r : String × List (String × String) × List (String × String)}
    (hr : opcode? cell = some r) : r.2.2 = [] := by
  unfold opcode? at hr
  split at hr
  case h_1 =>
    obtain ⟨fields, -, rfl⟩ := Option.map_eq_some_iff.mp hr
    rfl
  case h_2 he => exact absurd hp (splitOnce_eq_none.mp he)

theorem ofRow?_eq_some {row : String} : ofRow? row = some p ↔
    ∃ name params opcode, cells '|' row = [name, params, opcode] ∧ name ≠ "" ∧ opcode ≠ "" ∧
      String.ofList (dropEndWhile (· = '?') name.toList) = p.name ∧
      (name.toList.getLast? = some '?' ↔ p.condition) ∧
      (cells ',' params).filter (· ≠ "") = p.params ∧
      opcode? opcode = some (p.opcode, p.fields, p.inputs) := by
  constructor
  case mp =>
    intro h
    unfold ofRow? at h
    split at h
    case h_1 name params opcode hc =>
      split at h
      case isTrue => contradiction
      case isFalse he =>
        have ⟨hn, ho⟩ : name ≠ "" ∧ opcode ≠ "" := by simpa using he
        obtain ⟨⟨opcode', fields, inputs⟩, hr, rfl⟩ := Option.map_eq_some_iff.mp h
        exact ⟨name, params, opcode, hc, hn, ho, rfl, decide_eq_true_iff.symm, rfl, hr⟩
    case h_2 => contradiction
  case mpr =>
    intro ⟨name, params, opcode, hc, hn, ho, hname, hcond, hp, hr⟩
    have hcond : decide (name.toList.getLast? = some '?') = p.condition := by simp [hcond]
    simp only [ofRow?, hc, hn, ho, decide_false, Bool.or_self, Bool.false_eq_true, if_false, hr,
      Option.map_some, hname, hp, hcond]

-- A prototype is read back from its row if and only if its cells are filled and no input that it
-- always has holds a point. Whatever the fields hold does not matter.
theorem ofRow?_row (h : p.Writable) (hg : ∀ c ∈ gap.toList, isBlank c) :
    ofRow? (p.row gap) = some p ↔ p.Filled ∧ ∀ a ∈ p.inputs, '.' ∉ a.2.toList := by
  rw [ofRow?_eq_some]
  constructor
  case mp =>
    intro ⟨name, params, opcode, hc, hn, ho, _, _, hf, hr⟩
    have hp : "" ∉ p.params := fun hm => by simp [← hf] at hm
    obtain ⟨rfl, rfl, rfl⟩ : name = _ ∧ params = _ ∧ opcode = _ := by
      simpa [h.cells_row hg hp, eq_comm] using hc
    refine ⟨⟨?_, ?_, hp⟩, fun a ha hv => ?_⟩
    · simpa [nameCell_eq_empty, or_iff_not_imp_left] using hn
    · simpa [opcodeCell_eq_empty, or_iff_not_imp_left] using ho
    · have hm := (h.point_mem_opcodeCell hg (List.ne_nil_of_mem ha)).mpr ⟨a, ha, hv⟩
      have hi : p.inputs = [] := inputs_of_opcode? hm hr
      simp [hi] at ha
  case mpr =>
    intro ⟨hf, hv⟩
    refine ⟨_, _, _, h.cells_row hg hf.params, ?_, ?_, h.dropEndWhile_nameCell,
      h.getLast?_nameCell, h.cells_params hg hf.params, h.opcode?_opcodeCell hg hv⟩
    · simpa [nameCell_eq_empty, or_iff_not_imp_left] using hf.name
    · simpa [opcodeCell_eq_empty, or_iff_not_imp_left] using hf.opcode

-- A field that holds every mark that a value can have.
def formatted : Prototype :=
  { withField "format" ["VALUE", "PLACES"] "text_format" "PATTERN" "0.0!=?" with condition := true }

theorem writable_formatted : formatted.Writable where
  oneKind  := .inr rfl
  unmarked := by simp [formatted, withField, assigned, marks]
  values   := by simp [formatted, withField, assigned]
  trimmed  := by decide +kernel

theorem ofRow?_formatted :
    formatted.Writable ∧ (∀ c ∈ " ".toList, isBlank c) ∧
      formatted.row " " = "format? | VALUE, PLACES | text_format.PATTERN=0.0!=?" ∧
      ofRow? "format? | VALUE, PLACES | text_format.PATTERN=0.0!=?" = some formatted := by
  have hg : ∀ c ∈ " ".toList, isBlank c := by simp [isBlank]
  have hr : formatted.row " " = "format? | VALUE, PLACES | text_format.PATTERN=0.0!=?" := by
    decide +kernel
  have hf : formatted.Filled := ⟨.inr rfl, .inl (by decide), by decide⟩
  exact ⟨writable_formatted, hg, hr, hr ▸ (ofRow?_row writable_formatted hg).mpr ⟨hf, nofun⟩⟩

-- An input that holds a point.
def tinted : Prototype :=
  withInput "stamp" ["N"] "pen_stamp" "MODE" "v1.tint=red"

theorem writable_tinted : tinted.Writable where
  oneKind  := .inl rfl
  unmarked := by simp [tinted, withInput, assigned, marks]
  values   := by simp [tinted, withInput, assigned]
  trimmed  := by decide +kernel

theorem ofRow?_tinted :
    tinted.Writable ∧ tinted.Filled ∧ tinted.row " " = "stamp | N | pen_stamp!MODE=v1.tint=red" ∧
      ofRow? (tinted.row " ") = some (withField "stamp" ["N"] "pen_stamp!MODE=v1" "tint" "red") ∧
      ofRow? (tinted.row " ") ≠ some tinted := by
  have hf : tinted.Filled := ⟨.inl (by decide), .inl (by decide), by decide⟩
  exact ⟨writable_tinted, hf, by decide +kernel, by decide +kernel, by decide +kernel⟩

end Prototype

end BlockLang
