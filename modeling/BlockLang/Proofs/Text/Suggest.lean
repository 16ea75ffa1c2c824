import Mathlib.Data.Prod.Lex
import Mathlib.Data.String.Basic
import Mathlib.Order.Bounds.Basic
import Mathlib.Order.MinMax
import BlockLang.Text.Distance

/-!
The distance of two texts is the least number of edits that make one of the other. It is symmetric,
tells equal texts from others, and lies between the difference of the lengths and the greater
length. The name that is suggested for another one is the nearest of the names that resemble it.
-/

namespace BlockLang.Text

section Distance

-- Some number of edits makes one text of another. Of two characters that are swapped neither is
-- edited again, and nothing comes between them.
inductive Edits : List Char → List Char → Nat → Prop
  | nil : Edits [] [] 0
  | keep {a b n} (c : Char) (h : Edits a b n) : Edits (c :: a) (c :: b) n
  | replace {a b n} (c d : Char) (h : Edits a b n) : Edits (c :: a) (d :: b) (n + 1)
  | delete {a b n} (c : Char) (h : Edits a b n) : Edits (c :: a) b (n + 1)
  | insert {a b n} (d : Char) (h : Edits a b n) : Edits a (d :: b) (n + 1)
  | swap {a b n} (c d : Char) (h : Edits a b n) : Edits (c :: d :: a) (d :: c :: b) (n + 1)

-- The least number of edits, found from that for the tails.
def cost : List Char → List Char → Nat
  | [], b => b.length
  | c :: a, [] => (c :: a).length
  | c :: a, d :: b =>
    let plain := min (min (cost a (d :: b) + 1) (cost (c :: a) b + 1))
      (cost a b + if c = d then 0 else 1)
    if a.head? = some d ∧ b.head? = some c then min plain (cost a.tail b.tail + 1) else plain
termination_by a b => a.length + b.length
decreasing_by all_goals simp only [List.length_cons, List.length_tail]; omega

variable {a a' b b' : List Char} {c d : Char} {n m : Nat}

@[simp]
theorem cost_nil_left : cost [] b = b.length := by
  rw [cost]

@[simp]
theorem cost_nil_right : cost a [] = a.length := by
  cases a <;> rw [cost]

theorem cost_cons_le : cost (c :: a) (d :: b) ≤ min (min (cost a (d :: b) + 1)
    (cost (c :: a) b + 1)) (cost a b + if c = d then 0 else 1) := by
  rw [cost]
  split
  · exact min_le_left _ _
  · exact le_rfl

theorem cost_delete_le : cost (c :: a) b ≤ cost a b + 1 := by
  cases b
  case nil => simp
  case cons => exact cost_cons_le.trans ((min_le_left _ _).trans (min_le_left _ _))

theorem cost_insert_le : cost a (d :: b) ≤ cost a b + 1 := by
  cases a
  case nil => simp
  case cons => exact cost_cons_le.trans ((min_le_left _ _).trans (min_le_right _ _))

theorem cost_replace_le : cost (c :: a) (d :: b) ≤ cost a b + if c = d then 0 else 1 :=
  cost_cons_le.trans (min_le_right _ _)

theorem cost_swap_le : cost (c :: d :: a) (d :: c :: b) ≤ cost a b + 1 := by
  rw [cost]
  simp

namespace Edits

theorem cost_le (h : Edits a b n) : cost a b ≤ n := by
  induction h
  case nil => simp
  case keep c _ hi => exact cost_replace_le.trans (by simpa using hi)
  case replace c d _ hi =>
    refine cost_replace_le.trans ?_
    split <;> omega
  case delete hi => exact cost_delete_le.trans (Nat.succ_le_succ hi)
  case insert hi => exact cost_insert_le.trans (Nat.succ_le_succ hi)
  case swap hi => exact cost_swap_le.trans (Nat.succ_le_succ hi)

theorem deleteAll : Edits a [] a.length := by
  induction a
  case nil => exact nil
  case cons c _ hi => exact delete c hi

theorem insertAll : Edits [] b b.length := by
  induction b
  case nil => exact nil
  case cons d _ hi => exact insert d hi

theorem keepOrReplace (h : Edits a b n) : Edits (c :: a) (d :: b) (n + if c = d then 0 else 1) := by
  split
  case isTrue he => exact he ▸ keep c h
  case isFalse => exact replace c d h

theorem min (h : Edits a b n) (h' : Edits a b m) : Edits a b (min n m) := by
  rcases min_choice n m with he | he <;> rwa [he]

theorem of_cost : Edits a b (cost a b) := by
  fun_induction cost a b
  case case1 => exact insertAll
  case case2 => exact deleteAll
  case case3 c a d b plain hs hd hi hr hw =>
    obtain ⟨a, rfl⟩ := List.head?_eq_some_iff.mp hs.1
    obtain ⟨b, rfl⟩ := List.head?_eq_some_iff.mp hs.2
    exact (((delete c hd).min (insert d hi)).min hr.keepOrReplace).min (swap c d hw)
  case case4 c a d b plain hs hd hi hr =>
    exact ((delete c hd).min (insert d hi)).min hr.keepOrReplace

theorem append (h : Edits a b n) (h' : Edits a' b' m) : Edits (a ++ a') (b ++ b') (n + m) := by
  induction h
  case nil => simpa using h'
  case keep c _ hi => exact keep c hi
  case replace c d _ hi => exact Nat.add_right_comm _ 1 m ▸ replace c d hi
  case delete c _ hi => exact Nat.add_right_comm _ 1 m ▸ delete c hi
  case insert d _ hi => exact Nat.add_right_comm _ 1 m ▸ insert d hi
  case swap c d _ hi => exact Nat.add_right_comm _ 1 m ▸ swap c d hi

theorem reverse (h : Edits a b n) : Edits a.reverse b.reverse n := by
  induction h
  case nil => exact nil
  case keep c _ hi => simpa using hi.append (keep c nil)
  case replace c d _ hi => simpa using hi.append (replace c d nil)
  case delete c _ hi => simpa using hi.append (delete c nil)
  case insert d _ hi => simpa using hi.append (insert d nil)
  case swap c d _ hi => simpa using hi.append (swap d c nil)

end Edits

theorem isLeast_cost : IsLeast {n | Edits a b n} (cost a b) :=
  ⟨Edits.of_cost, fun _ => Edits.cost_le⟩

-- The costs of a text against the beginnings of another one. The last character of a beginning
-- stands first, as it does in `cost`.
def costs (a b : List Char) : List Char → List Nat
  | [] => [cost a b]
  | d :: rest => cost a b :: costs a (d :: b) rest

variable {rest : List Char}

theorem costs_eq_cons : costs a b rest = cost a b :: (costs a b rest).tail := by
  cases rest <;> rfl

theorem tail_costs_cons : (costs a b (d :: rest)).tail =
    cost a (d :: b) :: (costs a (d :: b) rest).tail :=
  costs_eq_cons

theorem getLast?_costs : (costs a b rest).getLast? = some (cost a (rest.reverse ++ b)) := by
  induction rest generalizing b
  case nil => rfl
  case cons d rest hi => simp [costs, List.getLast?_cons, hi]

theorem costs_nil : costs [] b rest = List.range' b.length (rest.length + 1) := by
  induction rest generalizing b
  case nil => simp [costs]
  case cons d rest hi => simp [costs, hi, List.range'_succ]

-- The costs of a text less its last character. There is no row of them before the first one.
def costsBefore : List Char → List Char → List Char → List Nat
  | [], _, _ => []
  | _ :: a, b, rest => costs a b rest

-- What is found for a swap of the last two characters, if there are as many.
def swapCost? (a b : List Char) : Option Nat :=
  a.head?.bind fun _ => b.head?.map fun _ => cost a.tail b.tail

theorem head?_costsBefore : (costsBefore a b (d :: rest)).head? = swapCost? a (d :: b) := by
  cases a <;> rfl

theorem tail_costsBefore :
    (costsBefore a b (d :: rest)).tail = costsBefore a (d :: b) rest := by
  cases a <;> rfl

variable {before above : List Nat}

-- The place after the cost of `b` is the cost of one character more.
theorem go_cons : nextRow.go a.head? c b.head? (d :: rest) (cost (c :: a) b) (swapCost? a b) before
    (cost a b) (cost a (d :: b) :: above) = cost (c :: a) (d :: b) ::
      nextRow.go a.head? c (some d) rest (cost (c :: a) (d :: b)) before.head? before.tail
        (cost a (d :: b)) above := by
  simp only [nextRow.go]
  rw [cost]
  cases a <;> cases b <;> simp [swapCost?]

-- The part of a row that comes after the cost of `b`.
theorem go_eq_costs : nextRow.go a.head? c b.head? rest (cost (c :: a) b) (swapCost? a b)
    (costsBefore a b rest) (cost a b) (costs a b rest).tail = (costs (c :: a) b rest).tail := by
  induction rest generalizing b
  case nil => simp [costs, nextRow.go]
  case cons d rest hi =>
    rw [tail_costs_cons, tail_costs_cons, go_cons, head?_costsBefore, tail_costsBefore, ← hi]
    rfl

theorem nextRow_costs :
    nextRow a.head? c rest (costsBefore a [] rest) (costs a [] rest) = costs (c :: a) [] rest := by
  have hc : costs a [] rest = cost a [] :: (costs a [] rest).tail := costs_eq_cons
  rw [costs_eq_cons (a := c :: a), ← go_eq_costs, hc]
  simp [nextRow, swapCost?]

-- The rows are those of longer and longer beginnings of the first text.
theorem lastRow_costs {text : List Char} :
    lastRow rest a.head? (costsBefore a [] rest) (costs a [] rest) text =
      costs (text.reverse ++ a) [] rest := by
  induction text generalizing a
  case nil => rfl
  case cons c text hi =>
    rw [lastRow, nextRow_costs]
    simpa [costsBefore] using hi (a := c :: a)

theorem distance_eq_cost {s t : String} :
    distance s t = cost s.toList.reverse t.toList.reverse := by
  have hr : lastRow t.toList ([] : List Char).head? (costsBefore [] [] t.toList)
      (costs [] [] t.toList) s.toList = costs (s.toList.reverse ++ []) [] t.toList := lastRow_costs
  have hn : costs [] [] t.toList = List.range (t.toList.length + 1) := by
    simp [costs_nil, List.range_eq_range']
  simp only [hn, List.head?_nil, costsBefore, List.append_nil] at hr
  rw [distance, hr, getLast?_costs]
  simp

theorem isLeast_distance {s t : String} :
    IsLeast {n | Edits s.toList t.toList n} (distance s t) := by
  rw [distance_eq_cost]
  have hc := Edits.of_cost (a := s.toList.reverse) (b := t.toList.reverse)
  exact ⟨by simpa using hc.reverse, fun n hn => Edits.cost_le hn.reverse⟩

end Distance

section Alignment

-- The distance of the first `i` characters of one text from the first `j` characters of another,
-- found from that of shorter beginnings: the last character is deleted, inserted, kept or replaced,
-- or it is swapped with the one before it.
def alignment (a b : List Char) : Nat → Nat → Nat
  | 0, j => j
  | i + 1, 0 => i + 1
  | i + 1, j + 1 =>
    let plain := min (min (alignment a b i (j + 1) + 1) (alignment a b (i + 1) j + 1))
      (alignment a b i j + if a[i]? = b[j]? then 0 else 1)
    if 0 < i ∧ 0 < j ∧ a[i]? = b[j - 1]? ∧ a[i - 1]? = b[j]? then
      min plain (alignment a b (i - 1) (j - 1) + 1)
    else plain
termination_by i j => i + j

variable {a b : List Char} {n i j : Nat} {s t : String}

theorem reverse_take_succ (h : i < a.length) :
    (a.take (i + 1)).reverse = a[i] :: (a.take i).reverse := by
  rw [List.take_add_one, List.getElem?_eq_getElem h]
  simp

theorem head?_reverse_take (h : i ≤ a.length) :
    (a.take i).reverse.head? = if 0 < i then a[i - 1]? else none := by
  cases i
  case zero => simp
  case succ i => simp [reverse_take_succ h]

-- The last characters of two beginnings are swapped if there are as many, and if they cross over.
theorem swaps_iff (hi : i < a.length) (hj : j < b.length) :
    ((a.take i).reverse.head? = some b[j] ∧ (b.take j).reverse.head? = some a[i]) ↔
      0 < i ∧ 0 < j ∧ a[i]? = b[j - 1]? ∧ a[i - 1]? = b[j]? := by
  rw [head?_reverse_take hi.le, head?_reverse_take hj.le, List.getElem?_eq_getElem hi,
    List.getElem?_eq_getElem hj]
  grind

theorem tail_reverse_take (h : i ≤ a.length) :
    (a.take i).reverse.tail = (a.take (i - 1)).reverse := by
  cases i
  case zero => simp
  case succ i => simp [reverse_take_succ h]

theorem cost_take_succ (hi : i < a.length) (hj : j < b.length) :
    cost (a.take (i + 1)).reverse (b.take (j + 1)).reverse =
      let plain := min (min (cost (a.take i).reverse (b.take (j + 1)).reverse + 1)
        (cost (a.take (i + 1)).reverse (b.take j).reverse + 1))
        (cost (a.take i).reverse (b.take j).reverse + if a[i]? = b[j]? then 0 else 1)
      if 0 < i ∧ 0 < j ∧ a[i]? = b[j - 1]? ∧ a[i - 1]? = b[j]? then
        min plain (cost (a.take (i - 1)).reverse (b.take (j - 1)).reverse + 1)
      else plain := by
  have he : a[i]? = b[j]? ↔ a[i] = b[j] := by simp [hi, hj]
  simp only [he, ← swaps_iff hi hj, ← tail_reverse_take hi.le, ← tail_reverse_take hj.le]
  rw [reverse_take_succ hi, reverse_take_succ hj, cost]

-- Every cell of the recursion is the least number of edits for the beginnings that it stands for.
theorem alignment_eq_cost (hi : i ≤ a.length) (hj : j ≤ b.length) :
    alignment a b i j = cost (a.take i).reverse (b.take j).reverse := by
  fun_induction alignment a b i j
  case case1 j => simp [hj]
  case case2 i => simp [hi]
  case case3 i j plain hs hd hn hr hw =>
    have hi' : i ≤ a.length := Nat.le_of_lt hi
    have hj' : j ≤ b.length := Nat.le_of_lt hj
    have hw := hw ((Nat.sub_le i 1).trans hi') ((Nat.sub_le j 1).trans hj')
    rw [cost_take_succ hi hj, if_pos hs]
    simp only [plain, hd hi' hj, hn hi hj', hr hi' hj', hw, dite_eq_ite]
  case case4 i j plain hs hd hn hr =>
    have hi' : i ≤ a.length := Nat.le_of_lt hi
    have hj' : j ≤ b.length := Nat.le_of_lt hj
    rw [cost_take_succ hi hj, if_neg hs]
    simp only [plain, hd hi' hj, hn hi hj', hr hi' hj', dite_eq_ite]

theorem distance_eq_alignment :
    distance s t = alignment s.toList t.toList s.length t.length := by
  rw [distance_eq_cost, ← String.length_toList, ← String.length_toList,
    alignment_eq_cost le_rfl le_rfl, List.take_length, List.take_length]

namespace Edits

variable {m : Nat}

theorem symm (h : Edits a b n) : Edits b a n := by
  induction h
  case nil => exact nil
  case keep c _ hi => exact keep c hi
  case replace c d _ hi => exact replace d c hi
  case delete c _ hi => exact insert c hi
  case insert d _ hi => exact delete d hi
  case swap c d _ hi => exact swap d c hi

theorem keepAll : Edits a a 0 := by
  induction a
  case nil => exact nil
  case cons c _ hi => exact keep c hi

theorem eq_of_zero (h : Edits a b 0) : a = b := by
  generalize hn : 0 = n at h
  induction h
  case nil => rfl
  case keep hi => rw [hi hn]
  all_goals contradiction

-- One edit changes the length by one at most.
theorem length_le (h : Edits a b n) : a.length ≤ b.length + n := by
  induction h <;> simp only [List.length_cons, List.length_nil] <;> omega

-- Texts are made of each other by replacing as many characters as both have, and no more edits than
-- for the rest of the longer one.
theorem exists_le_max : ∃ n ≤ max a.length b.length, Edits a b n := by
  induction a generalizing b
  case nil => exact ⟨b.length, by simp, insertAll⟩
  case cons c a hi =>
    cases b
    case nil => exact ⟨(c :: a).length, by simp, deleteAll⟩
    case cons d b =>
      have ⟨n, hn, h⟩ := hi (b := b)
      refine ⟨n + 1, ?_, replace c d h⟩
      simp only [List.length_cons]
      omega

end Edits

theorem distance_comm : distance s t = distance t s := by
  have h : {n | Edits s.toList t.toList n} = {n | Edits t.toList s.toList n} :=
    Set.ext fun _ => ⟨Edits.symm, Edits.symm⟩
  exact isLeast_distance.unique (h ▸ isLeast_distance)

theorem distance_eq_zero : distance s t = 0 ↔ s = t := by
  constructor
  · intro h
    have he : Edits s.toList t.toList (distance s t) := isLeast_distance.1
    exact String.toList_inj.mp (h ▸ he).eq_of_zero
  · rintro rfl
    exact Nat.le_zero.mp (isLeast_distance.2 Edits.keepAll)

theorem length_le_distance : s.length ≤ t.length + distance s t := by
  have h : Edits s.toList t.toList (distance s t) := isLeast_distance.1
  simpa [String.length_toList] using h.length_le

theorem distance_le_max : distance s t ≤ max s.length t.length := by
  have ⟨n, hn, h⟩ := Edits.exists_le_max (a := s.toList) (b := t.toList)
  rw [String.length_toList, String.length_toList] at hn
  exact (isLeast_distance.2 h).trans hn

-- The distance of two texts is that of their whole lengths in the recursion over beginnings.
theorem distance_aligned (s t : String) :
    distance s t = alignment s.toList t.toList s.length t.length ∧
    distance s t = distance t s ∧
    (distance s t = 0 ↔ s = t) ∧
    max s.length t.length - min s.length t.length ≤ distance s t ∧
    distance s t ≤ max s.length t.length := by
  have hs : s.length ≤ t.length + distance s t := length_le_distance
  have ht : t.length ≤ s.length + distance t s := length_le_distance
  rw [distance_comm] at ht
  exact ⟨distance_eq_alignment, distance_comm, distance_eq_zero, by omega, distance_le_max⟩

-- Nothing is put between two characters that are swapped.
example : distance "sya" "say" = 1 ∧ distance "ca" "abc" = 3 := by decide +kernel

end Alignment

-- A candidate may be meant by a name: it differs, and no more than four edits are needed for every
-- ten characters of the longer text.
structure Resembles (name candidate : String) (d : Nat) : Prop where
  differs : candidate ≠ name
  edited : IsLeast {n | Edits name.toList candidate.toList n} d
  near : 10 * d ≤ 4 * max name.length candidate.length

variable {name s t : String} {cs : List String} {d : Nat}

theorem resembles_iff : Resembles name t d ↔
    t ≠ name ∧ distance name t = d ∧ 10 * d ≤ 4 * max name.length t.length := by
  constructor
  · intro h
    exact ⟨h.differs, isLeast_distance.unique h.edited, h.near⟩
  · rintro ⟨hn, rfl, hd⟩
    exact ⟨hn, isLeast_distance, hd⟩

theorem near?_eq_some_iff : near? name t = some (d, s) ↔ Resembles name t d ∧ t = s := by
  rw [resembles_iff, near?]
  grind

theorem better_eq_min {x y : Nat × String} : toLex (better x y) = min (toLex x) (toLex y) := by
  rw [better, min_def]
  simp only [Prod.Lex.toLex_le_toLex]
  split <;> split <;> grind

theorem foldl_better {x : Nat × String} {l : List (Nat × String)} :
    (l.foldl (fun best c => some (match best with | none => c | some b => better b c))
      (some x)).map toLex = some ((l.map toLex).foldl min (toLex x)) := by
  induction l generalizing x
  case nil => rfl
  case cons y l hi => simpa [better_eq_min] using hi (x := better x y)

theorem suggest_eq : suggest name cs =
    ((cs.filterMap (near? name)).map toLex).min?.map (fun p => (ofLex p).2) := by
  rw [suggest]
  cases cs.filterMap (near? name)
  case nil => rfl
  case cons x l =>
    rw [List.map_cons, List.min?_cons', ← foldl_better, Option.map_map]
    rfl

theorem mem_resembling {p : Nat ×ₗ String} :
    p ∈ (cs.filterMap (near? name)).map toLex ↔ (ofLex p).2 ∈ cs ∧
      Resembles name (ofLex p).2 (ofLex p).1 := by
  simp only [List.mem_map, List.mem_filterMap, Prod.exists, near?_eq_some_iff]
  constructor
  · rintro ⟨d, s, ⟨_, ht, hr, rfl⟩, rfl⟩
    exact ⟨ht, hr⟩
  · rintro ⟨hc, hr⟩
    exact ⟨_, _, ⟨_, hc, hr, rfl⟩, rfl⟩

theorem suggest_eq_some_iff : suggest name cs = some s ↔ ∃ d, s ∈ cs ∧ Resembles name s d ∧
    ∀ t ∈ cs, ∀ e, Resembles name t e → d < e ∨ d = e ∧ s ≤ t := by
  simp only [suggest_eq, Option.map_eq_some_iff, List.min?_eq_some_iff, mem_resembling]
  constructor
  · rintro ⟨p, ⟨⟨hc, hr⟩, hl⟩, rfl⟩
    refine ⟨(ofLex p).1, hc, hr, fun t ht e he => ?_⟩
    exact Prod.Lex.le_iff.mp (hl (toLex (e, t)) ⟨ht, he⟩)
  · rintro ⟨d, hc, hr, hl⟩
    refine ⟨toLex (d, s), ⟨⟨hc, hr⟩, fun p hp => ?_⟩, rfl⟩
    exact Prod.Lex.le_iff.mpr (hl _ hp.1 _ hp.2)

theorem suggest_eq_none_iff : suggest name cs = none ↔ ∀ t ∈ cs, ∀ d, ¬Resembles name t d := by
  simp only [suggest_eq, Option.map_eq_none_iff, List.min?_eq_none_iff,
    List.eq_nil_iff_forall_not_mem, mem_resembling]
  exact ⟨fun h t ht d hd => h (toLex (d, t)) ⟨ht, hd⟩, fun h p hp => h _ hp.1 _ hp.2⟩

-- Names that occur in another order, or more than once, make no difference.
theorem suggest_congr {cs' : List String} (h : ∀ t, t ∈ cs' ↔ t ∈ cs) :
    suggest name cs' = suggest name cs := by
  refine Option.ext fun s => ?_
  simp only [suggest_eq_some_iff, h]

-- The whole of what is suggested: the candidate that comes first by its distance and then by its
-- text, or none where none resembles the name.
theorem suggest_nearest (name : String) (cs : List String) :
    (∀ s, suggest name cs = some s ↔ ∃ d, s ∈ cs ∧ Resembles name s d ∧
      ∀ t ∈ cs, ∀ e, Resembles name t e → d < e ∨ d = e ∧ s ≤ t) ∧
    (suggest name cs = none ↔ ∀ t ∈ cs, ∀ d, ¬Resembles name t d) ∧
    ∀ cs' : List String, (∀ t, t ∈ cs' ↔ t ∈ cs) → suggest name cs' = suggest name cs :=
  ⟨fun _ => suggest_eq_some_iff, suggest_eq_none_iff, fun _ => suggest_congr⟩

-- Each of the candidates is one edit away. The least of them is meant wherever it stands.
theorem suggest_nearest_sprit : suggest "sprit" ["sprite", "spirit", "sprint"] = some "spirit" ∧
    suggest "sprit" ["spirit", "sprint", "sprite", "sprint"] = some "spirit" := by
  have h : suggest "sprit" ["sprite", "spirit", "sprint"] = some "spirit" := by decide +kernel
  refine ⟨h, ?_⟩
  rw [(suggest_nearest "sprit" ["sprite", "spirit", "sprint"]).2.2 _ (by simp; grind), h]

end BlockLang.Text
