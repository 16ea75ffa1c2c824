import BlockLang.Proofs.Include.Locate
import BlockLang.Proofs.Token.Cover

/-!
The tokens of a merged source are located where their lines were copied from, except for the one
that ends it. That one is located in the file of the last line, but without its directives.
-/

namespace BlockLang

-- A line does not reach beyond its end.
theorem Text.not_mem_linesOf_go {line cs l : List Char} (h : '\n' ∉ line)
    (hl : l ∈ linesOf.go line cs) : '\n' ∉ l := by
  induction cs generalizing line
  case nil =>
    unfold linesOf.go at hl
    split at hl <;> simp_all
  case cons c cs hi =>
    unfold linesOf.go at hl
    split at hl
    case isFalse hc => exact hi (by simp_all [eq_comm]) hl
    case isTrue =>
      cases List.mem_cons.mp hl
      case inr hl => exact hi List.not_mem_nil hl
      case inl hl =>
        subst hl
        split <;> simp_all

namespace Token

variable {before left : List Char} {ts : List Token}

-- A token other than the last one starts where some of the source is left.
theorem Cover.words (h : Cover before left ts) :
    ∃ words, ts = words ++ [⟨.eof, "", (Position.behind (before ++ left)).span 1⟩] ∧
      ∀ t ∈ words, t.kind ≠ .eof ∧ ∃ read rest, read ++ rest = before ++ left ∧ rest ≠ [] ∧
        t.span.line = read.count '\n' + 1 := by
  induction h
  case nil before => exact ⟨[], by simp⟩
  case blank _ hi | comment _ hi => simpa using hi
  case word before text left ts kind hn hk _ _ hi =>
    obtain ⟨words, rfl, hi⟩ := hi
    let t : Token :=
      ⟨kind, String.ofList text, (Position.behind before).span (spanLength kind text)⟩
    refine ⟨t :: words, by simp [t], List.forall_mem_cons.mpr ⟨⟨hk, ?_⟩, by simpa using hi⟩⟩
    exact ⟨before, text ++ left, rfl, by simp [hn], rfl⟩

end Token

namespace Merged

section Text

variable {m : Merged} {lines : List String} {read rest : List Char}

theorem count_intercalate (h : ∀ line ∈ lines, '\n' ∉ line.toList) :
    ("\n".intercalate lines).toList.count '\n' = lines.length - 1 := by
  induction lines
  case nil => rfl
  case cons line lines hi =>
    have ⟨hl, hls⟩ := List.forall_mem_cons.mp h
    have hl : line.toList.count '\n' = 0 := List.count_eq_zero.mpr hl
    by_cases he : lines = []
    case pos => simp [he, hl]
    case neg =>
      have hp : 1 ≤ lines.length := List.length_pos_of_ne_nil he
      have hn : "\n".toList.count '\n' = 1 := rfl
      rw [String.intercalate_cons_of_ne_nil he, String.toList_append, String.toList_append,
        List.count_append, List.count_append, hl, hn, hi hls, List.length_cons]
      omega

theorem toList_text : m.text.toList = ("\n".intercalate m.lines).toList ++ ['\n'] := by
  simp [text]

theorem count_text (h : ∀ line ∈ m.lines, '\n' ∉ line.toList) :
    m.text.toList.count '\n' = max 1 m.lines.length := by
  rw [toList_text, List.count_append, count_intercalate h, List.count_singleton_self]
  omega

-- The text ends with the end of a line, so what is left of it starts on a line before that.
theorem count_lt (h : ∀ line ∈ m.lines, '\n' ∉ line.toList) (ht : read ++ rest = m.text.toList)
    (hr : rest ≠ []) : read.count '\n' < max 1 m.lines.length := by
  obtain ⟨rest, c, rfl⟩ := List.eq_nil_or_concat rest |>.resolve_left hr
  have hs : read ++ rest = ("\n".intercalate m.lines).toList ∧ c = '\n' := by
    simpa [toList_text, ← List.append_assoc] using ht
  have hc := count_text h
  rw [toList_text, ← hs.1, List.count_append, List.count_append, List.count_singleton_self] at hc
  omega

end Text

section Last

variable {k : Nat} {ps : List Part} {c : Copy}

theorem le_of_mem_startsFrom {r : Nat × Part} (h : r ∈ startsFrom k ps) :
    r.1 + r.2.lines.length ≤ k + (ps.flatMap (·.lines)).length := by
  induction ps generalizing k
  case nil => contradiction
  case cons p ps hi =>
    rw [List.flatMap_cons, List.length_append]
    cases List.mem_cons.mp h
    case inl h =>
      subst h
      exact Nat.add_le_add_left (Nat.le_add_right ..) _
    case inr h =>
      have := hi h
      omega

theorem Part.getLast?_copies {p : Part} (h : p.lines ≠ []) : ∃ c, p.copies.getLast? = some c ∧
    c.file = p.file ∧ c.number + 1 = p.fileStart + p.lines.length := by
  have hl : 0 < p.lines.length := List.length_pos_of_ne_nil h
  rw [List.getLast?_eq_getElem?, Part.length_copies, Part.getElem?_copies,
    List.getElem?_eq_getElem (by omega)]
  exact ⟨_, rfl, rfl, by dsimp only; omega⟩

-- The last part that has lines ends with the last line.
theorem find?_reverse_startsFrom (h : (ps.flatMap Part.copies).getLast? = some c) :
    ∃ r, (startsFrom k ps).reverse.find? (fun (_, p) => !p.lines.isEmpty) = some r ∧
      r.2.file = c.file ∧ r.1 + r.2.lines.length = k + (ps.flatMap (·.lines)).length ∧
      r.2.fileStart + r.2.lines.length = c.number + 1 := by
  induction ps using List.reverseRecOn
  case nil => contradiction
  case append_singleton ps p hi =>
    rw [startsFrom_append, List.reverse_append]
    by_cases hp : p.lines = []
    case pos =>
      have hc : p.copies = [] := by simp [Part.copies, hp]
      simpa [startsFrom, hp, hc] using hi (by simpa [hc] using h)
    case neg =>
      obtain ⟨c', hc', hf, hn⟩ := Part.getLast?_copies hp
      obtain rfl : c' = c := by simpa [hc'] using h
      refine ⟨(k + (ps.flatMap (·.lines)).length, p), ?_, hf.symm, ?_, hn.symm⟩
      · simp [startsFrom, hp]
      · simp [Nat.add_assoc]

theorem find?_reverse_startsFrom_of_nil (h : ps.flatMap (·.lines) = []) :
    (startsFrom k ps).reverse.find? (fun (_, p) => !p.lines.isEmpty) = none := by
  simp only [List.find?_eq_none, List.mem_reverse]
  rintro ⟨start, p⟩ hm
  have hp : p ∈ ps := map_snd_startsFrom k ps ▸ List.mem_map_of_mem hm
  simp [List.flatMap_eq_nil_iff.mp h p hp]

end Last

-- Where the end of a source is located: behind the last line that was copied, but with no directive
-- that led there. A source without lines ends in the entry file.
def endLocation (entry : Path) (cs : List Copy) : Location :=
  match cs.getLast? with
  | some c => ⟨c.file, c.number + 1, 1, 1, "", []⟩
  | none => ⟨entry, 2, 1, 1, "", []⟩

def endSpan (m : Merged) : Span :=
  ⟨max 1 m.lines.length + 1, 1, 1⟩

theorem endSpan_line (m : Merged) : m.endSpan.line = max 1 m.lines.length + 1 :=
  rfl

theorem part?_endSpan (m : Merged) : m.part? m.endSpan.line = none := by
  simp only [part?, List.find?_eq_none]
  rintro ⟨start, p⟩ hm hc
  have hle : start + p.lines.length ≤ 1 + m.lines.length := le_of_mem_startsFrom hm
  have hlt : start ≤ m.endSpan.line ∧ m.endSpan.line < start + p.lines.length := by
    simpa using hc
  rw [endSpan_line] at hlt
  omega

theorem locate_endSpan (m : Merged) :
    m.locate m.endSpan = endLocation m.entry (m.parts.flatMap Part.copies) := by
  have hlines := congrArg List.length m.lines_eq_map_copies
  rw [List.length_map] at hlines
  have hline : m.line? m.endSpan.line = none := by
    rw [line?, endSpan_line, if_neg (Nat.succ_ne_zero _), Nat.add_sub_cancel]
    exact List.getElem?_eq_none (Nat.le_max_right ..)
  unfold endLocation
  split
  case h_1 c h =>
    obtain ⟨r, hf, hfile, hend, hnumber⟩ := find?_reverse_startsFrom h (k := 1)
    have hspan : m.endSpan.line - r.1 = r.2.lines.length := by
      have hend : r.1 + r.2.lines.length = 1 + m.lines.length := hend
      have hpos : 1 ≤ m.lines.length := hlines ▸ List.length_pos_of_mem (List.mem_of_getLast? h)
      rw [endSpan_line]
      omega
    simp only [locate, part?_endSpan, lastPart?, starts, hf, hline, hfile, hspan, hnumber]
    rfl
  case h_2 h =>
    have hn : m.lines = [] := by
      rw [List.getLast?_eq_none_iff] at h
      rw [lines_eq_map_copies, h, List.map_nil]
    simp only [locate, part?_endSpan, lastPart?, starts, find?_reverse_startsFrom_of_nil hn, hline]
    simp [endSpan, hn]

variable {source : FileSource} {root entry : Path} {m : Merged} {ts : List Token}

theorem IsLine.not_mem {file : Path} {n : Nat} {line : String} (h : IsLine source file n line) :
    '\n' ∉ line.toList := by
  have ⟨_, text, raw, _, hraw, hline⟩ := h
  have ⟨l, hl, hr⟩ := List.mem_map.mp (List.mem_of_getElem? hraw)
  have hn : '\n' ∉ raw.toList := by
    rw [← hr, String.toList_ofList]
    exact Text.not_mem_linesOf_go List.not_mem_nil hl
  subst hline
  split
  case isFalse => exact hn
  case isTrue =>
    rw [String.toList_ofList]
    exact fun hm => hn ((List.dropWhile_sublist _).subset hm)

theorem span_behind_text (h : ∀ line ∈ m.lines, '\n' ∉ line.toList) :
    (Position.behind m.text.toList).span 1 = m.endSpan := by
  have hc : m.text.toList.reverse.takeWhile (· ≠ '\n') = [] := by simp [toList_text]
  rw [Position.behind, count_text h, hc]
  rfl

-- The tokens of a source are the words on its lines, and one that stands for its end.
theorem words_of_ofSource (h : ∀ line ∈ m.lines, '\n' ∉ line.toList)
    (ht : Token.ofSource m.text = .ok ts) :
    ∃ words, ts = words ++ [⟨.eof, "", m.endSpan⟩] ∧
      ∀ t ∈ words, t.kind ≠ .eof ∧ 1 ≤ t.span.line ∧ t.span.line ≤ m.lines.length := by
  by_cases hm : m.lines = []
  case pos =>
    have hs : Token.ofSource "\n" = .ok [⟨.eof, "", ⟨2, 1, 1⟩⟩] := by decide +kernel
    have he : m.text = "\n" := by simp [text, hm]
    rw [he, hs] at ht
    exact ⟨[], by simp [← Except.ok.inj ht, endSpan, hm], nofun⟩
  case neg =>
    have hp : 1 ≤ m.lines.length := List.length_pos_of_ne_nil hm
    have ⟨words, hw, hi⟩ := (Token.ofSource_covers ht).words
    rw [List.nil_append, span_behind_text h] at hw
    refine ⟨words, hw, fun t ht => ?_⟩
    have ⟨hk, read, rest, hr, hn, hl⟩ := hi t ht
    have := count_lt h hr hn
    exact ⟨hk, by omega, by omega⟩

-- Where the tokens of a merged source are located: words where their lines were copied from, and
-- the end behind the last line. Directives lead from the entry to all of these places, except to
-- the end if the last line is from another file.
structure LocatesTokens (source : FileSource) (root entry : Path) (m : Merged) (ts : List Token)
    (cs : List Copy) : Prop where
  words  : ∃ words, ts = words ++ [⟨.eof, "", m.endSpan⟩] ∧ ∀ t ∈ words, t.kind ≠ .eof ∧
    ∃ c, cs[t.span.line - 1]? = some c ∧ Genuine source root entry c ∧
      m.locate t.span = c.location t.span
  ending : m.locate m.endSpan = endLocation entry cs
  traced : ∀ t ∈ ts, Chain source root entry (m.locate t.span).file (m.locate t.span).trace ↔
    (t.kind = .eof → ∀ c ∈ cs.getLast?, c.file = entry)

theorem entry_of_ofEntry (h : ofEntry source root entry = .ok m) : m.entry = entry := by
  unfold ofEntry at h
  split at h
  case h_1 => contradiction
  case h_2 =>
    obtain ⟨_, _, rfl⟩ := map_eq_ok.mp h
    rfl

-- No directives lead to the entry file only.
theorem chain_nil_iff {file : Path} : Chain source root entry file [] ↔ file = entry := by
  constructor
  case mp =>
    rintro ⟨⟩
    rfl
  case mpr =>
    rintro rfl
    exact .entry

theorem chain_endLocation {cs : List Copy} :
    Chain source root entry (endLocation entry cs).file (endLocation entry cs).trace ↔
      ∀ c ∈ cs.getLast?, c.file = entry := by
  cases hc : cs.getLast? <;> simp [endLocation, hc, chain_nil_iff]

theorem ofEntry_locates_tokens (h : ofEntry source root entry = .ok m)
    (ht : Token.ofSource m.text = .ok ts) :
    ∃ cs, EntryCopies source root entry cs ∧ LocatesTokens source root entry m ts cs := by
  have ⟨_, _, hc⟩ := ofEntry_adds h
  have hg := hc.genuine
  have hn : ∀ line ∈ m.lines, '\n' ∉ line.toList := by
    rw [lines_eq_map_copies, List.forall_mem_map]
    exact fun c hm => (hg c hm).line.not_mem
  obtain ⟨words, rfl, hw⟩ := words_of_ofSource hn ht
  have he : m.locate m.endSpan = endLocation entry (m.parts.flatMap Part.copies) := by
    rw [locate_endSpan, entry_of_ofEntry h]
  have hl : ∀ t ∈ words, ∃ c, (m.parts.flatMap Part.copies)[t.span.line - 1]? = some c ∧
      Genuine source root entry c ∧ m.locate t.span = c.location t.span := fun t ht => by
    have ⟨c, hc, hs⟩ := locate_eq_location (hw t ht).2.1 (hw t ht).2.2
    exact ⟨c, hc, hg c (List.mem_of_getElem? hc), hs⟩
  refine ⟨_, hc, ?_⟩
  exact {
    words  := ⟨words, rfl, fun t ht => ⟨(hw t ht).1, hl t ht⟩⟩
    ending := he
    traced := by
      rw [List.forall_mem_append, List.forall_mem_singleton, he, chain_endLocation]
      constructor
      case left =>
        intro t ht
        have ⟨c, _, hg, hs⟩ := hl t ht
        rw [hs]
        exact iff_of_true hg.chain fun he => absurd he (hw t ht).1
      case right => exact ⟨fun h _ => h, fun h => h rfl⟩
  }

def nestedTokens : List Token :=
  [⟨.ident, "a", ⟨1, 1, 1⟩⟩, ⟨.ident, "c", ⟨2, 1, 1⟩⟩, ⟨.ident, "b", ⟨3, 1, 1⟩⟩,
    ⟨.ident, "c", ⟨4, 1, 1⟩⟩, ⟨.eof, "", ⟨5, 1, 1⟩⟩]

theorem nestedMerged_locates_tokens :
    ofEntry nestedFiles.source ⟨"p"⟩ ⟨"p/main.gs"⟩ = .ok nestedMerged ∧
      Token.ofSource nestedMerged.text = .ok nestedTokens ∧
      ∃ cs, EntryCopies nestedFiles.source ⟨"p"⟩ ⟨"p/main.gs"⟩ cs ∧
        LocatesTokens nestedFiles.source ⟨"p"⟩ ⟨"p/main.gs"⟩ nestedMerged nestedTokens cs := by
  have ht : Token.ofSource nestedMerged.text = .ok nestedTokens := by decide +kernel
  exact ⟨ofEntry_nestedFiles, ht, ofEntry_locates_tokens ofEntry_nestedFiles ht⟩

-- A file that has nothing of its own, and one that ends within a block.
def unclosedFiles : MemoryTree :=
  (MemoryTree.empty.insert ⟨"p/main.gs"⟩ "%use \"b\"\n".toUTF8).insert
    ⟨"p/b.gs"⟩ "onflag \x7b\n".toUTF8

def unclosedMerged : Merged where
  entry := ⟨"p/main.gs"⟩
  parts := [
    ⟨⟨"p/main.gs"⟩, 1, [], none, []⟩,
    ⟨⟨"p/b.gs"⟩, 1, ["onflag \x7b"], some 0, [⟨⟨"p/main.gs"⟩, 1⟩]⟩,
    ⟨⟨"p/main.gs"⟩, 2, [], none, []⟩]

def unclosedTokens : List Token :=
  [⟨.keyword, "onflag", ⟨1, 1, 6⟩⟩, ⟨.lbrace, "\x7b", ⟨1, 8, 1⟩⟩, ⟨.eof, "", ⟨2, 1, 1⟩⟩]

-- The end is located in the included file, but as if no directive led there.
theorem unclosedFiles_end_not_traced :
    ofEntry unclosedFiles.source ⟨"p"⟩ ⟨"p/main.gs"⟩ = .ok unclosedMerged ∧
      Token.ofSource unclosedMerged.text = .ok unclosedTokens ∧
      ⟨.eof, "", ⟨2, 1, 1⟩⟩ ∈ unclosedTokens ∧
      unclosedMerged.locate ⟨2, 1, 1⟩ = ⟨⟨"p/b.gs"⟩, 2, 1, 1, "", []⟩ ∧
      ¬ Chain unclosedFiles.source ⟨"p"⟩ ⟨"p/main.gs"⟩ ⟨"p/b.gs"⟩ [] := by
  refine ⟨by with_unfolding_all rfl, by decide +kernel, by decide, by decide, ?_⟩
  rw [chain_nil_iff]
  decide

end Merged

end BlockLang
