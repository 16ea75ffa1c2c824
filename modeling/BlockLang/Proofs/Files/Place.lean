import Mathlib.Data.List.Basic
import Mathlib.Data.List.Induction
import BlockLang.Path
import BlockLang.Proofs.Text.Blank

/-!
Where paths lead. A place has one path that is written without detours, and this path leads there.
-/

namespace BlockLang

namespace Component

-- The names that a segment of a path can stand for.
structure IsName (s : String) : Prop where
  filled  : s ≠ ""
  notHere : s ≠ "."
  notUp   : s ≠ ".."
  unsplit : '/' ∉ s.toList

inductive IsStep : Component → Prop
  | up : IsStep .up
  | name {s : String} (h : IsName s) : IsStep (.name s)

variable {c : Component}

theorem IsStep.unsplit (h : c.IsStep) : '/' ∉ c.text.toList := by
  cases h
  case up => decide
  case name h => exact h.unsplit

theorem IsStep.filled (h : c.IsStep) : c.text ≠ "" := by
  cases h
  case up => decide
  case name h => exact h.filled

end Component

namespace Path

open Component

variable {p : Path} {s t n : String} {ss ts : List String} {first : Bool} {c : Component}
  {cs ds : List Component}

theorem component?_text (h : c.IsStep) : component? first c.text = some c := by
  cases h
  case up => rfl
  case name h => simp [component?, Component.text, h.filled, h.notHere, h.notUp]

theorem isStep_of_component? (hs : '/' ∉ s.toList) (h : component? first s = some c) :
    c = .here ∨ c.IsStep := by
  unfold component? at h
  split at h
  case isTrue => contradiction
  case isFalse hf =>
    split at h
    case isTrue =>
      split at h
      · exact .inl (Option.some.inj h).symm
      · contradiction
    case isFalse hh =>
      split at h <;> obtain rfl := Option.some.inj h
      case isTrue => exact .inr .up
      case isFalse hu => exact .inr (.name ⟨hf, hh, hu, hs⟩)

def splitText (s : String) : List String :=
  (Text.splitBy (· = '/') s.toList).map String.ofList

theorem splitText_ne_nil : splitText s ≠ [] := by
  simp [splitText, Text.splitBy_ne_nil]

theorem splitText_append : splitText (s ++ "/" ++ t) = splitText s ++ splitText t := by
  simp [splitText, Text.splitBy_append]

theorem splitText_of_unsplit (h : '/' ∉ s.toList) : splitText s = [s] := by
  have hs : ∀ c ∈ s.toList, decide (c = '/') = false :=
    fun c hc => decide_eq_false fun he => h (he ▸ hc)
  simp [splitText, Text.splitBy_of_forall hs]

theorem splitText_intercalate (hs : ss ≠ []) (h : ∀ s ∈ ss, '/' ∉ s.toList) :
    splitText ("/".intercalate ss) = ss := by
  induction ss
  case nil => contradiction
  case cons s ss hi =>
    have ⟨hs, hss⟩ := List.forall_mem_cons.mp h
    by_cases he : ss = []
    · simp [he, splitText_of_unsplit hs]
    · rw [String.intercalate_cons_of_ne_nil he, splitText_append, splitText_of_unsplit hs,
        hi he hss, List.singleton_append]

theorem unsplit_of_mem_splitText (h : t ∈ splitText s) : '/' ∉ t.toList := by
  have ⟨part, hp, he⟩ := List.mem_map.mp h
  intro hc
  have hc : decide ('/' = '/') = false := Text.of_mem_splitBy hp (by simpa [← he] using hc)
  contradiction

-- The components that segments stand for. The first of them may be the place where a path starts.
def stepsOf (first : Bool) : List String → List Component
  | [] => []
  | s :: ss => (component? first s).toList ++ ss.filterMap (component? false)

theorem stepsOf_false : stepsOf false ss = ss.filterMap (component? false) := by
  cases ss
  case nil => rfl
  case cons s ss => cases h : component? false s <;> simp [stepsOf, h]

theorem stepsOf_append (h : ss ≠ []) :
    stepsOf first (ss ++ ts) = stepsOf first ss ++ stepsOf false ts := by
  cases ss
  case nil => contradiction
  case cons s ss =>
    rw [stepsOf_false]
    simp [stepsOf]

theorem stepsOf_text (h : ∀ c ∈ cs, c.IsStep) : stepsOf first (cs.map Component.text) = cs := by
  cases cs
  case nil => rfl
  case cons c cs =>
    have ⟨hc, hcs⟩ := List.forall_mem_cons.mp h
    have he : (cs.map Component.text).filterMap (component? false) = cs.filterMap some := by
      rw [List.filterMap_map]
      exact List.filterMap_congr fun c hc => component?_text (hcs c hc)
    simp [stepsOf, component?_text hc, he]

theorem stepsOf_intercalate (h : ∀ c ∈ cs, c.IsStep) :
    stepsOf first (splitText ("/".intercalate (cs.map Component.text))) = cs := by
  by_cases he : cs = []
  · subst he
    cases first <;> rfl
  · rw [splitText_intercalate (by simpa using he)
      (List.forall_mem_map.mpr fun c hc => (h c hc).unsplit), stepsOf_text h]

theorem isStep_of_mem_stepsOf (h : c ∈ stepsOf first (splitText s)) : c = .here ∨ c.IsStep := by
  have hs : ∀ t ∈ splitText s, '/' ∉ t.toList := fun t => unsplit_of_mem_splitText
  generalize splitText s = ss at h hs
  cases ss
  case nil => contradiction
  case cons t ts =>
    have ⟨ht, hts⟩ := List.forall_mem_cons.mp hs
    cases List.mem_append.mp h
    case inl h => exact isStep_of_component? ht (by simpa using h)
    case inr h =>
      have ⟨t, hm, h⟩ := List.mem_filterMap.mp h
      exact isStep_of_component? (hts t hm) h

theorem isAbsolute_slash : (⟨"/" ++ s⟩ : Path).isAbsolute = true := by
  simp [isAbsolute]

theorem exists_of_isAbsolute (h : p.isAbsolute = true) : ∃ s, p = ⟨"/" ++ s⟩ := by
  have h : p.text.toList.head? = some '/' := of_decide_eq_true h
  have ⟨cs, hcs⟩ := List.head?_eq_some_iff.mp h
  refine ⟨.ofList cs, congrArg mk (String.toList_inj.mp ?_)⟩
  simp [hcs]

theorem components_absolute :
    (⟨"/" ++ s⟩ : Path).components = .root :: stepsOf false (splitText s) := by
  simp [components, segments, isAbsolute_slash, stepsOf_false, splitText]

theorem components_relative (h : p.isAbsolute = false) :
    p.components = stepsOf true (splitText p.text) := by
  simp only [components, segments, h, Bool.false_eq_true, if_false, splitText]
  rfl

theorem components_append (h : s ≠ "") : (⟨s ++ "/" ++ t⟩ : Path).components =
    (⟨s⟩ : Path).components ++ stepsOf false (splitText t) := by
  cases ha : (⟨s⟩ : Path).isAbsolute
  case true =>
    have ⟨r, hr⟩ := exists_of_isAbsolute ha
    obtain rfl := mk.inj hr
    rw [String.append_assoc, String.append_assoc, components_absolute, components_absolute,
      ← String.append_assoc, splitText_append, stepsOf_append splitText_ne_nil, List.cons_append]
  case false =>
    have hs : s.toList ≠ [] := by simpa using h
    have ha' : (⟨s ++ "/" ++ t⟩ : Path).isAbsolute = false := by
      simpa [isAbsolute, List.head?_append_of_ne_nil _ hs] using ha
    rw [components_relative ha', components_relative ha, splitText_append,
      stepsOf_append splitText_ne_nil]

theorem textOf_steps (h : ∀ c ∈ cs, c.IsStep) :
    textOf cs = "/".intercalate (cs.map Component.text) := by
  unfold textOf
  split
  case h_1 => nomatch (List.forall_mem_cons.mp h).1
  case h_2 => rfl

theorem isAbsolute_ofComponents (h : ∀ c ∈ cs, c.IsStep) :
    (ofComponents cs).isAbsolute = false := by
  rw [ofComponents, textOf_steps h]
  cases cs
  case nil => rfl
  case cons c cs =>
    have ⟨hc, _⟩ := List.forall_mem_cons.mp h
    have hn : c.text.toList ≠ [] := by simpa using hc.filled
    refine decide_eq_false fun hs => hc.unsplit (List.mem_of_head? ?_)
    by_cases he : cs = []
    · simpa [he] using hs
    · rw [List.map_cons, String.intercalate_cons_of_ne_nil (by simpa using he)] at hs
      simpa [List.head?_append_of_ne_nil _ hn] using hs

theorem stepsOf_name (h : IsName n) : stepsOf first (splitText n) = [.name n] := by
  have hs : ∀ c ∈ [Component.name n], c.IsStep := by simpa using IsStep.name h
  rw [splitText_of_unsplit h.unsplit]
  exact stepsOf_text hs

theorem isAbsolute_of_unsplit (h : '/' ∉ s.toList) : (⟨s⟩ : Path).isAbsolute = false :=
  decide_eq_false fun hs => h (List.mem_of_head? hs)

-- A slash at the end of a path makes no difference to what lies in it.
theorem components_child (h : IsName n) : (p.child n).components = p.components ++ [.name n] := by
  have ha : (⟨n⟩ : Path).isAbsolute = false := isAbsolute_of_unsplit h.unsplit
  obtain ⟨s⟩ := p
  by_cases he : s = ""
  · subst he
    simp only [child, join, ha, Bool.false_or, decide_true, if_true]
    rw [components_relative ha]
    exact stepsOf_name h
  by_cases hs : s.toList.getLast? = some '/'
  case neg =>
    simp only [child, join, ha, he, hs, Bool.false_or, decide_false, Bool.false_eq_true, if_false]
    rw [components_append he, stepsOf_name h]
  case pos =>
    simp only [child, join, ha, he, hs, Bool.false_or, decide_false, Bool.false_eq_true, if_false,
      if_true]
    have ⟨cs, hcs⟩ := List.getLast?_eq_some_iff.mp hs
    obtain ⟨r, rfl⟩ : ∃ r, s = r ++ "/" :=
      ⟨.ofList cs, String.toList_inj.mp (by simp [hcs])⟩
    by_cases hr : r = ""
    · subst hr
      rw [String.empty_append, components_absolute, stepsOf_name h]
      rfl
    · have he : (⟨r ++ "/" ++ ""⟩ : Path).components = (⟨r⟩ : Path).components ++ [] :=
        components_append hr
      rw [String.append_empty, List.append_nil] at he
      rw [components_append hr, stepsOf_name h, he]

-- The places that paths lead to. Only at the very start there are steps that could not be undone.
inductive IsPlace : List Component → Prop
  | start : IsPlace []
  | root : IsPlace [.root]
  | up : IsPlace [.up]
  | above : IsPlace [.root, .up]
  | name {cs : List Component} {s : String} (h : IsPlace cs) (hs : IsName s) :
    IsPlace (cs ++ [.name s])

namespace IsPlace

theorem follow (h : IsPlace cs) (hc : c = .here ∨ c.IsStep) : IsPlace (follow cs c) := by
  obtain rfl | hc := hc
  case inl => exact h
  cases hc
  case name hs => exact h.name hs
  case up =>
    cases h
    case start => exact .up
    case root => exact .above
    case up => exact .start
    case above => exact .root
    case name cs s h hs =>
      have hn : cs ++ [.name s] ≠ [.root] := by
        intro he
        cases cs <;> simp at he
      simpa [Path.follow, hn] using h

theorem foldl (h : IsPlace cs) (hd : ∀ c ∈ ds, c = .here ∨ c.IsStep) :
    IsPlace (ds.foldl Path.follow cs) := by
  induction ds generalizing cs
  case nil => exact h
  case cons d ds hi =>
    have ⟨hd, hds⟩ := List.forall_mem_cons.mp hd
    exact hi (h.follow hd) hds

theorem of_append (h : IsPlace (cs ++ ds)) : IsPlace cs := by
  generalize he : cs ++ ds = es at h
  induction h generalizing ds
  case start => exact (List.append_eq_nil_iff.mp he).1 ▸ .start
  case root =>
    obtain ⟨rfl, -⟩ | ⟨rfl, -⟩ := List.append_eq_singleton_iff.mp he
    · exact .start
    · exact .root
  case up =>
    obtain ⟨rfl, -⟩ | ⟨rfl, -⟩ := List.append_eq_singleton_iff.mp he
    · exact .start
    · exact .up
  case above =>
    cases cs
    case nil => exact .start
    case cons c cs =>
      obtain ⟨rfl, he'⟩ := List.cons.inj he
      obtain ⟨rfl, -⟩ | ⟨rfl, -⟩ := List.append_eq_singleton_iff.mp he'
      · exact .root
      · exact .above
  case name es s h hs hi =>
    cases ds using List.reverseRecOn
    case nil =>
      rw [List.append_nil] at he
      exact he ▸ h.name hs
    case append_singleton ds d _ =>
      rw [← List.append_assoc] at he
      exact hi (List.append_inj_left' he rfl)

theorem steps (h : IsPlace cs) :
    (∀ c ∈ cs, c.IsStep) ∨ ∃ ds, cs = .root :: ds ∧ ∀ c ∈ ds, c.IsStep := by
  induction h
  case start => exact .inl nofun
  case root => exact .inr ⟨[], rfl, nofun⟩
  case up => exact .inl (by simpa using IsStep.up)
  case above => exact .inr ⟨[.up], rfl, by simpa using IsStep.up⟩
  case name cs s _ hs hi =>
    have hs : ∀ c ∈ [Component.name s], c.IsStep := by simpa using IsStep.name hs
    obtain h | ⟨ds, rfl, h⟩ := hi
    · exact .inl (List.forall_mem_append.mpr ⟨h, hs⟩)
    · exact .inr ⟨ds ++ [.name s], rfl, List.forall_mem_append.mpr ⟨h, hs⟩⟩

theorem components_ofComponents (h : IsPlace cs) : (ofComponents cs).components = cs := by
  obtain hs | ⟨ds, rfl, hs⟩ := h.steps
  · rw [components_relative (isAbsolute_ofComponents hs), ofComponents, textOf_steps hs,
      stepsOf_intercalate hs]
  · rw [ofComponents, textOf, components_absolute, stepsOf_intercalate hs]

theorem foldl_follow (h : IsPlace cs) : cs.foldl Path.follow [] = cs := by
  induction h
  case name hi => rw [List.foldl_append, hi]; rfl
  all_goals rfl

theorem place_ofComponents (h : IsPlace cs) : (ofComponents cs).place = cs := by
  rw [place, h.components_ofComponents, h.foldl_follow]

end IsPlace

theorem isPlace_place : IsPlace p.place := by
  cases ha : p.isAbsolute
  case true =>
    have ⟨s, hs⟩ := exists_of_isAbsolute ha
    rw [hs, place, components_absolute]
    exact IsPlace.root.foldl fun c hc => isStep_of_mem_stepsOf hc
  case false =>
    rw [place, components_relative ha]
    exact IsPlace.start.foldl fun c hc => isStep_of_mem_stepsOf hc

theorem components_normalize : p.normalize.components = p.place :=
  isPlace_place.components_ofComponents

theorem normalize_inj {q : Path} : p.normalize = q.normalize ↔ p.place = q.place := by
  refine ⟨fun h => ?_, congrArg ofComponents⟩
  rw [← components_normalize, h, components_normalize]

theorem place_child (h : IsName n) : (p.child n).place = p.place ++ [.name n] := by
  rw [place, components_child h, List.foldl_append]
  rfl

end Path

end BlockLang
