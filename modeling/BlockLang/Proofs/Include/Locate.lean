import Mathlib.Algebra.GroupWithZero.Nat
import Mathlib.Logic.ExistsUnique
import BlockLang.Files.Memory
import BlockLang.Proofs.Include.Merge

/-!
The parts of a merged source divide its lines among them, and a line is located where it was copied
from.
-/

namespace BlockLang.Merged

-- A merged line lies in a part, which is given with the number of its first line.
def Covers (r : Nat × Part) (n : Nat) : Prop :=
  r.1 ≤ n ∧ n < r.1 + r.2.lines.length

section

variable {k : Nat} {ps : List Part}

theorem map_snd_startsFrom (k : Nat) (ps : List Part) : (startsFrom k ps).map Prod.snd = ps := by
  induction ps generalizing k <;> simp_all [startsFrom]

-- Counting along the parts finds the part of a line, and the copy at the same place.
theorem find?_startsFrom {k n : Nat} (ps : List Part) (hk : k ≤ n)
    (hn : n < k + (ps.flatMap (·.lines)).length) :
    ∃ r, (startsFrom k ps).find? (fun (start, p) => start ≤ n && n < start + p.lines.length) =
        some r ∧ r ∈ startsFrom k ps ∧ Covers r n ∧
      (ps.flatMap Part.copies)[n - k]? = r.2.copies[n - r.1]? := by
  induction ps generalizing k
  case nil => simp at hn; omega
  case cons p ps hi =>
    by_cases hp : n < k + p.lines.length
    case pos =>
      refine ⟨(k, p), by simp [startsFrom, hk, hp], by simp [startsFrom], ⟨hk, hp⟩, ?_⟩
      rw [List.flatMap_cons, List.getElem?_append_left]
      rw [Part.length_copies]
      omega
    case neg =>
      obtain ⟨r, hf, hm, hc, hr⟩ := hi (k := k + p.lines.length) (by omega) <| by
        simp only [List.flatMap_cons, List.length_append] at hn
        omega
      refine ⟨r, by simp [startsFrom, hp, hf], by simp [startsFrom, hm], hc, ?_⟩
      rw [← hr, List.flatMap_cons, List.getElem?_append_right (by rw [Part.length_copies]; omega),
        Part.length_copies, Nat.sub_sub]

end

theorem lines_eq_map_copies (m : Merged) :
    m.lines = (m.parts.flatMap Part.copies).map Copy.text := by
  simp [lines, List.map_flatMap, Part.map_text_copies]

-- A line of the merged source is located where its copy is from.
theorem locate_eq_location {m : Merged} {s : Span} (h₁ : 1 ≤ s.line)
    (h₂ : s.line ≤ m.lines.length) :
    ∃ c, (m.parts.flatMap Part.copies)[s.line - 1]? = some c ∧ m.locate s = c.location s := by
  have ⟨r, hf, _, ⟨hlo, hhi⟩, hr⟩ :=
    find?_startsFrom m.parts h₁ (by rw [lines] at h₂; omega)
  have hlt : s.line - r.1 < r.2.lines.length := by omega
  rw [Part.getElem?_copies, List.getElem?_eq_getElem hlt, Option.map_some] at hr
  have hline : m.line? s.line = some r.2.lines[s.line - r.1] := by
    rw [line?, if_neg (by omega), lines_eq_map_copies, List.getElem?_map, hr]
    rfl
  refine ⟨_, hr, ?_⟩
  simp only [locate, part?, starts, hf, hline, Option.getD_some, Copy.location]

theorem ofEntry_adds {source : FileSource} {root entry : Path} {m : Merged}
    (h : ofEntry source root entry = .ok m) :
    m.parts ≠ [] ∧ AllRooted entry m.parts ∧
      EntryCopies source root entry (m.parts.flatMap Part.copies) := by
  unfold ofEntry at h
  split at h
  case h_1 => contradiction
  case h_2 text hr =>
    cases hm : mergeFile source root [] (source.nesting + 1) ⟨entry, none, []⟩ text []
    case error e => simp [hm, Except.map] at h
    case ok ps =>
      have ⟨hne, a⟩ : ps ≠ [] ∧ Adds entry _ _ _ _ := mergeFile_enters _ _ hm
      have ⟨qs, hq, hc⟩ := a.split
      obtain rfl : m = ⟨entry, ps⟩ := by simpa [hm, Except.map] using h.symm
      obtain rfl : ps = qs := by simpa using hq
      exact ⟨hne, a.rooted .nil ⟨fun _ => ⟨rfl, rfl⟩, nofun⟩, text, hr, hc⟩

-- A file that is included twice, the first time from within another file. It starts with a byte
-- order mark.
def nestedFiles : MemoryTree :=
  ((MemoryTree.empty.insert ⟨"p/main.gs"⟩ "a\n%use \"lib\"\n%use \"c.gs\"\n".toUTF8).insert
    ⟨"p/lib.gs"⟩ "%use \"c\"\nb\n".toUTF8).insert ⟨"p/c.gs"⟩ "\ufeffc\n".toUTF8

def nestedMerged : Merged where
  entry := ⟨"p/main.gs"⟩
  parts := [
    ⟨⟨"p/main.gs"⟩, 1, ["a"], none, []⟩,
    ⟨⟨"p/lib.gs"⟩, 1, [], some 0, [⟨⟨"p/main.gs"⟩, 2⟩]⟩,
    ⟨⟨"p/c.gs"⟩, 1, ["c"], some 1, [⟨⟨"p/lib.gs"⟩, 1⟩, ⟨⟨"p/main.gs"⟩, 2⟩]⟩,
    ⟨⟨"p/lib.gs"⟩, 2, ["b"], some 0, [⟨⟨"p/main.gs"⟩, 2⟩]⟩,
    ⟨⟨"p/main.gs"⟩, 3, [], none, []⟩,
    ⟨⟨"p/c.gs"⟩, 1, ["c"], some 4, [⟨⟨"p/main.gs"⟩, 3⟩]⟩,
    ⟨⟨"p/main.gs"⟩, 4, [], none, []⟩]

theorem ofEntry_nestedFiles :
    ofEntry nestedFiles.source ⟨"p"⟩ ⟨"p/main.gs"⟩ = .ok nestedMerged := by
  with_unfolding_all rfl

end BlockLang.Merged
