import Mathlib.Data.List.DropRight
import Mathlib.Logic.Relation
import BlockLang.Proofs.Files.Place

/-!
Paths with their detours taken out. What is left of a path are steps up and then names. Normalising
it cancels the steps up against each other as well, so a path keeps its meaning if it has no two of
them left.
-/

namespace BlockLang

open Relation (ReflTransGen)

namespace Component

-- One detour is taken out of a way: a dot, or a name with the step up that undoes it.
inductive Straightens : List Component → List Component → Prop
  | here {cs ds : List Component} : Straightens (cs ++ .here :: ds) (cs ++ ds)
  | back {cs ds : List Component} {n : String} : Straightens (cs ++ .name n :: .up :: ds) (cs ++ ds)

-- Where a component leads to from a directory. A directory is told by the names on the way to it
-- from the root, which lies in itself.
def enter (dir : List String) : Component → List String
  | root => []
  | here => dir
  | up => dir.dropLast
  | name n => dir ++ [n]

variable {cs ds es : List Component} {dir : List String}

theorem Straightens.append (h : Straightens cs ds) : Straightens (cs ++ es) (ds ++ es) := by
  cases h
  case here =>
    rw [List.append_assoc, List.append_assoc]
    exact .here
  case back =>
    rw [List.append_assoc, List.append_assoc]
    exact .back

theorem Straightens.foldl_enter (h : Straightens cs ds) :
    cs.foldl enter dir = ds.foldl enter dir := by
  cases h <;> simp [enter]

-- A way without its detours leads to the same directory.
theorem foldl_enter_of_straightens (h : ReflTransGen Straightens cs ds) :
    cs.foldl enter dir = ds.foldl enter dir := by
  induction h
  case refl => rfl
  case tail h hi => exact hi.trans h.foldl_enter

end Component

open Component

-- A way without detours: from the root or not, some steps up, and then down along names.
structure Straight where
  absolute : Bool
  ups : Nat
  names : List String
  deriving DecidableEq

namespace Straight

def components (w : Straight) : List Component :=
  (if w.absolute then [.root] else []) ++ List.replicate w.ups .up ++ w.names.map .name

-- The way that goes on along one more component. A step up undoes the last name, if there is one.
def next (w : Straight) : Component → Straight
  | .root => ⟨true, 0, []⟩
  | .here => w
  | .up =>
    if w.names = [] then { w with ups := w.ups + 1 } else { w with names := w.names.dropLast }
  | .name n => { w with names := w.names ++ [n] }

-- The way with every two of its steps up left out.
def reduced (w : Straight) : Straight :=
  { w with ups := w.ups % 2 }

-- Two ways lead to the same directory from everywhere. From the root, steps up lead nowhere else.
structure Same (v w : Straight) : Prop where
  absolute : v.absolute = w.absolute
  ups      : v.absolute = false → v.ups = w.ups
  names    : v.names = w.names

variable {v w : Straight} {c : Component} {cs : List Component} {dir : List String}

theorem components_concat {b : Bool} {m : Nat} {names : List String} {n : String} :
    (⟨b, m, names ++ [n]⟩ : Straight).components =
      (⟨b, m, names⟩ : Straight).components ++ [.name n] := by
  simp [components]

-- No name has a step up behind it.
theorem pairwise_components : w.components.Pairwise fun c d => ∀ n, c = .name n → d ≠ .up := by
  simp only [components, List.pairwise_append, List.pairwise_replicate, List.pairwise_map]
  refine ⟨⟨?_, .inr nofun, ?_⟩, List.pairwise_of_forall fun _ _ => nofun, ?_⟩
  case refine_1 => split <;> simp
  case refine_2 => split <;> simp
  case refine_3 =>
    intro c _ d hd _ _ hu
    simp [hu] at hd

theorem not_straightens : ¬Straightens w.components cs := by
  intro h
  generalize hw : w.components = ds at h
  cases h
  case here =>
    have h : Component.here ∈ w.components := by simp [hw]
    simp [components] at h
  case back n =>
    have h := w.pairwise_components
    rw [hw] at h
    have ⟨h, _⟩ := List.pairwise_cons.mp (List.pairwise_append.mp h).2.1
    exact h .up List.mem_cons_self n rfl rfl

theorem foldl_enter_replicate {n : Nat} :
    (List.replicate n .up).foldl enter dir = dir.rdrop n := by
  induction n
  case zero => simp
  case succ n hi =>
    have hn : min (dir.length - (n + 1)) (dir.length - n) = dir.length - (n + 1) := by omega
    rw [List.replicate_succ', List.foldl_append, hi]
    simp [enter, List.rdrop, List.dropLast_eq_take, List.take_take, Nat.sub_sub, hn]

theorem foldl_enter_names {names : List String} :
    (names.map .name).foldl enter dir = dir ++ names := by
  induction names generalizing dir
  case nil => simp
  case cons n names hi => simp [hi, enter]

theorem foldl_enter : w.components.foldl enter dir =
    (if w.absolute then [] else dir.rdrop w.ups) ++ w.names := by
  rw [components, List.foldl_append, List.foldl_append, foldl_enter_names, foldl_enter_replicate]
  split
  case isTrue => simp [enter, List.rdrop]
  case isFalse => simp

theorem foldl_next_replicate {b : Bool} {m n : Nat} :
    (List.replicate n .up).foldl next ⟨b, m, []⟩ = ⟨b, m + n, []⟩ := by
  induction n generalizing m
  case zero => rfl
  case succ n hi => simp [List.replicate_succ, hi, next, Nat.add_assoc, Nat.add_comm 1]

theorem foldl_next_names {names : List String} :
    (names.map .name).foldl next w = { w with names := w.names ++ names } := by
  induction names generalizing w
  case nil => simp
  case cons n names hi => simp [hi, next]

theorem foldl_next : w.components.foldl next ⟨false, 0, []⟩ = w := by
  obtain ⟨b, m, names⟩ := w
  rw [components, List.foldl_append, List.foldl_append]
  cases b <;> simp [next, foldl_next_replicate, foldl_next_names]

theorem components_injective (h : v.components = w.components) : v = w := by
  rw [← foldl_next (w := v), h, foldl_next]

theorem straightens_next (hc : c ≠ .root) :
    ReflTransGen Straightens (w.components ++ [c]) (w.next c).components := by
  obtain ⟨b, m, names⟩ := w
  cases c
  case root => contradiction
  case here =>
    have h : Straightens ((⟨b, m, names⟩ : Straight).components ++ [.here]) _ := .here
    rw [List.append_nil] at h
    exact .single h
  case name n => rw [← components_concat]; exact .refl
  case up =>
    cases names using List.reverseRecOn
    case nil => simp [next, components, List.replicate_succ', ReflTransGen.refl]
    case append_singleton names n _ =>
      have h : Straightens ((⟨b, m, names⟩ : Straight).components ++ [.name n, .up]) _ := .back
      simp only [List.append_nil] at h
      simpa [components_concat, next] using ReflTransGen.single h

theorem straightens_foldl (hc : ∀ c ∈ cs, c ≠ .root) :
    ReflTransGen Straightens (w.components ++ cs) (cs.foldl next w).components := by
  induction cs generalizing w
  case nil => simp [ReflTransGen.refl]
  case cons c cs hi =>
    have ⟨hc, hcs⟩ := List.forall_mem_cons.mp hc
    have h : ReflTransGen Straightens (w.components ++ [c] ++ cs) _ :=
      (straightens_next hc).lift (· ++ cs) fun _ _ => Straightens.append
    rw [List.append_assoc] at h
    exact h.trans (hi hcs)

theorem follow_up_name {n : String} : Path.follow (cs ++ [.name n]) .up = cs := by
  have hn : cs ++ [.name n] ≠ [.root] := by simp [List.append_eq_singleton_iff]
  simp [Path.follow, hn]

theorem follow_reduced (hc : c ≠ .root) :
    Path.follow w.reduced.components c = (w.next c).reduced.components := by
  obtain ⟨b, m, names⟩ := w
  cases c
  case root => contradiction
  case here => rfl
  case name n => exact components_concat.symm
  case up =>
    cases names using List.reverseRecOn
    case append_singleton names n _ =>
      simp [reduced, next, components_concat, follow_up_name]
    case nil =>
      -- A step up is taken back by the next one.
      obtain hm | hm := Nat.mod_two_eq_zero_or_one m <;> cases b <;>
        simp [next, reduced, components, Path.follow, hm, Nat.add_mod]

theorem foldl_follow_reduced (hc : ∀ c ∈ cs, c ≠ .root) :
    cs.foldl Path.follow w.reduced.components = (cs.foldl next w).reduced.components := by
  induction cs generalizing w
  case nil => rfl
  case cons c cs hi =>
    have ⟨hc, hcs⟩ := List.forall_mem_cons.mp hc
    rw [List.foldl_cons, follow_reduced hc, hi hcs, List.foldl_cons]

theorem absolute_next (hc : c ≠ .root) : (w.next c).absolute = w.absolute := by
  cases c
  case root => contradiction
  case up => rw [next]; split <;> rfl
  all_goals rfl

theorem absolute_foldl_next (hc : ∀ c ∈ cs, c ≠ .root) :
    (cs.foldl next w).absolute = w.absolute := by
  induction cs generalizing w
  case nil => rfl
  case cons c cs hi =>
    have ⟨hc, hcs⟩ := List.forall_mem_cons.mp hc
    rw [List.foldl_cons, hi hcs, absolute_next hc]

-- Ways are told apart by where they lead to from the root, and from a directory far below it.
theorem same_iff :
    v.Same w ↔ ∀ dir, v.components.foldl enter dir = w.components.foldl enter dir := by
  simp only [foldl_enter]
  constructor
  case mp =>
    intro ⟨ha, hu, hn⟩ dir
    cases hv : v.absolute
    case true => simp [← ha, hv, hn]
    case false => simp [← ha, hv, hn, hu hv]
  case mpr =>
    intro h
    have hn : v.names = w.names := by simpa [List.rdrop] using h []
    have hd := congrArg List.length (h (List.replicate (v.ups + w.ups + 1) ""))
    cases hv : v.absolute <;> cases hw : w.absolute <;>
      simp only [hn, hv, hw, List.rdrop, List.take_replicate, Bool.false_eq_true, if_false, if_true,
        List.length_append, List.length_replicate, List.length_nil] at hd
    case false.false => exact ⟨hv.trans hw.symm, fun _ => by omega, hn⟩
    case false.true => omega
    case true.false => omega
    case true.true => exact ⟨hv.trans hw.symm, fun h => absurd (hv ▸ h) nofun, hn⟩

theorem same_reduced_iff : w.reduced.Same w ↔ w.absolute ∨ w.ups ≤ 1 := by
  have hu : w.ups % 2 = w.ups ↔ w.ups ≤ 1 := by omega
  constructor
  case mp =>
    intro h
    cases ha : w.absolute
    case true => exact .inl rfl
    case false => exact .inr (hu.mp (h.ups ha))
  case mpr =>
    intro h
    refine ⟨rfl, fun ha => ?_, rfl⟩
    have ha : ¬w.absolute = true := by simpa [reduced] using ha
    exact hu.mpr (h.resolve_left ha)

end Straight

namespace Path

variable {p q : Path}

-- Where a path leads to from a directory.
def leads (p : Path) (dir : List String) : List String :=
  p.components.foldl enter dir

def straight (p : Path) : Straight :=
  p.components.foldl Straight.next ⟨false, 0, []⟩

-- Only a path from the root has the root among its components, and has it at the start.
theorem exists_components (p : Path) : ∃ cs, (∀ c ∈ cs, c ≠ .root) ∧
    p.components = (⟨p.isAbsolute, 0, []⟩ : Straight).components ++ cs := by
  have hn : ∀ c : Component, c = .here ∨ c.IsStep → c ≠ .root := by
    rintro _ (rfl | _ | _) <;> nofun
  cases ha : p.isAbsolute
  case true =>
    obtain ⟨s, rfl⟩ := exists_of_isAbsolute ha
    exact ⟨_, fun c hc => hn c (isStep_of_mem_stepsOf hc), components_absolute⟩
  case false => exact ⟨_, fun c hc => hn c (isStep_of_mem_stepsOf hc), components_relative ha⟩

theorem straight_eq {w : Straight} {cs : List Component} (h : p.components = w.components ++ cs) :
    p.straight = cs.foldl Straight.next w := by
  rw [straight, h, List.foldl_append, Straight.foldl_next]

theorem straightens_straight : ReflTransGen Straightens p.components p.straight.components := by
  have ⟨cs, hc, h⟩ := p.exists_components
  rw [straight_eq h, h]
  exact Straight.straightens_foldl hc

theorem absolute_straight : p.straight.absolute = p.isAbsolute := by
  have ⟨cs, hc, h⟩ := p.exists_components
  rw [straight_eq h, Straight.absolute_foldl_next hc]

theorem place_eq : p.place = p.straight.reduced.components := by
  have ⟨cs, hc, h⟩ := p.exists_components
  have hs : (⟨p.isAbsolute, 0, []⟩ : Straight).components.foldl follow [] =
      (⟨p.isAbsolute, 0, []⟩ : Straight).reduced.components := by
    cases p.isAbsolute <;> rfl
  rw [place, straight_eq h, h, List.foldl_append, hs, Straight.foldl_follow_reduced hc]

theorem straight_normalize : p.normalize.straight = p.straight.reduced := by
  rw [straight, components_normalize, place_eq, Straight.foldl_next]

theorem normalize_eq_iff : p.normalize = q.normalize ↔ p.straight.reduced = q.straight.reduced := by
  rw [normalize_inj, place_eq, place_eq]
  exact ⟨Straight.components_injective, congrArg Straight.components⟩

theorem same_iff : p.straight.Same q.straight ↔ ∀ dir, p.leads dir = q.leads dir := by
  simp only [Straight.same_iff, leads, foldl_enter_of_straightens straightens_straight]

-- What normalising makes of a path. Its detours are taken out first, until none is left; and then
-- every two of the steps up that are left.
structure Normalizes (p normal : Path) : Prop where
  removes : ReflTransGen Straightens p.components p.straight.components
  removed : ∀ cs, ¬Straightens p.straight.components cs
  steps   : normal.components = p.straight.reduced.components
  leads   : (∀ dir, normal.leads dir = p.leads dir) ↔ p.isAbsolute ∨ p.straight.ups ≤ 1

theorem normalizes_normalize (p q : Path) : p.Normalizes p.normalize ∧
    (p.normalize = q.normalize ↔ p.straight.reduced = q.straight.reduced) ∧
    ((∀ dir, p.leads dir = q.leads dir) ↔ p.straight.Same q.straight) := by
  have hn : p.normalize.components = p.straight.reduced.components :=
    components_normalize.trans place_eq
  have hl : (∀ dir, p.normalize.leads dir = p.leads dir) ↔ p.isAbsolute ∨ p.straight.ups ≤ 1 := by
    rw [← same_iff, straight_normalize, Straight.same_reduced_iff, absolute_straight]
  exact ⟨⟨straightens_straight, fun _ => Straight.not_straightens, hn, hl⟩, normalize_eq_iff,
    same_iff.symm⟩

-- A path with two steps up in front is taken for one without them.
theorem normalize_twoUps : (⟨"../../x"⟩ : Path).normalize = (⟨"x"⟩ : Path).normalize ∧
    (⟨"../../x"⟩ : Path).normalize.leads ["a", "b", "c"] = ["a", "b", "c", "x"] ∧
    (⟨"../../x"⟩ : Path).leads ["a", "b", "c"] = ["a", "x"] := by
  decide +kernel

end Path

end BlockLang
