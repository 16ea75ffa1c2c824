import BlockLang.Proofs.Number.Binary
import BlockLang.Proofs.Project.Package

/-!
The centers of costumes. No center lies at a negative place, and a center is a place at all, and
stands as one in the document of a project, unless a drawing tells a size that is not finite.
-/

namespace BlockLang

namespace NumberLayout

variable {layout : NumberLayout} {d : Digits} {x : Float}

theorem head?_writePositional {keepPoint : Bool} {c : Char} {cs : List Char} {point : Int} :
    (writePositional keepPoint (c :: cs) point).head? = some '0' ∨
      (writePositional keepPoint (c :: cs) point).head? = some c := by
  unfold writePositional
  split_ifs with h₀
  case pos => exact .inl rfl
  case pos =>
    have ⟨n, hn⟩ : ∃ n, point.toNat = n + 1 := ⟨point.toNat - 1, by omega⟩
    rw [hn]
    exact .inr rfl
  all_goals exact .inr rfl

theorem head?_writeScientific {c : Char} {cs : List Char} {point : Int} :
    (writeScientific (c :: cs) point).head? = some c := by
  cases cs <;> rfl

-- Every number but zero is written from a digit on.
theorem isDigit_head_writeDigits :
    ∃ c, (layout.writeDigits d).head? = some c ∧ c.isDigit := by
  obtain ⟨c, cs, hd⟩ := List.exists_cons_of_ne_nil (l := d.toList) Nat.toDigits_ne_nil
  have hc : c.isDigit := Nat.isDigit_of_mem_toDigits (by decide) le_rfl (hd ▸ List.mem_cons_self)
  unfold writeDigits
  rw [hd]
  split
  case isTrue =>
    cases head?_writePositional
    case inl h => exact ⟨'0', h, rfl⟩
    case inr h => exact ⟨c, h, hc⟩
  case isFalse => exact ⟨c, head?_writeScientific, hc⟩

theorem head?_signed {negative : Bool} {text : String} (h : text.toList.head? ≠ some 'n') :
    ((if negative then "-" else "") ++ text).toList.head? ≠ some 'n' := by
  cases negative
  case false => simpa using h
  case true => simp

theorem head?_write : (layout.write x).toList.head? ≠ some 'n' := by
  have hz : (if layout.keepPoint then "0.0" else "0").toList.head? ≠ some 'n' := by
    cases layout.keepPoint <;> decide
  have hw : (String.ofList (layout.writeDigits (.shortest layout.tie (.ofFloat x)))).toList.head?
      ≠ some 'n' := by
    have ⟨c, hc, hd⟩ : ∃ c, (layout.writeDigits (.shortest layout.tie (.ofFloat x))).head? =
        some c ∧ c.isDigit := isDigit_head_writeDigits
    rw [String.toList_ofList, hc]
    rintro ⟨rfl⟩
    contradiction
  unfold write
  by_cases hn : x.isNaN
  case pos =>
    rw [if_pos hn]
    decide
  case neg =>
    rw [if_neg hn]
    dsimp only
    by_cases hi : x.isInf
    case pos =>
      rw [if_pos hi]
      exact head?_signed (by decide)
    case neg =>
      rw [if_neg hi]
      by_cases h₀ : x == 0.0
      case pos =>
        rw [if_pos h₀]
        exact head?_signed hz
      case neg =>
        rw [if_neg h₀]
        exact head?_signed hw

-- Numbers are not written as the word for nothing.
theorem write_ne_null : layout.write x ≠ "null" := by
  intro h
  have hn : (layout.write x).toList.head? ≠ some 'n' := head?_write
  rw [h] at hn
  contradiction

end NumberLayout

namespace Document

variable {x : Float}

theorem pretty_float : (float x).pretty = "null" ↔ ¬ x.isFinite := by
  change writeFloat x = "null" ↔ _
  unfold writeFloat
  split
  case isTrue h => simp [h, NumberLayout.write_ne_null]
  case isFalse h => simp [h]

-- Does a costume tell where its center is?
def TellsCenter (costume : Document) : Prop :=
  ∀ key ∈ ["rotationCenterX", "rotationCenterY"],
    ∃ d, costume.member? key = some d ∧ d.pretty ≠ "null"

end Document

namespace Svg

variable {attributes : List (String × String)} {w h w' h' : Float} {center : Float × Float}

-- The size that a drawing tells: that of its view box, if this has four parts, and that of its
-- lengths otherwise. Of attributes with one name the last one counts.
inductive Tells (attributes : List (String × String)) (w h : Float) : Prop where
  | box {box x y width height : String} :
      attributes.reverse.lookup "viewBox" = some box →
      viewBoxParts box = [x, y, width, height] →
      readFloat? width = some w → readFloat? height = some h → Tells attributes w h
  | lengths : (∀ box, attributes.reverse.lookup "viewBox" = some box →
      (viewBoxParts box).length ≠ 4) →
      (attributes.reverse.lookup "width").bind length? = some w →
      (attributes.reverse.lookup "height").bind length? = some h → Tells attributes w h

-- No drawing tells two sizes.
theorem Tells.eq (ht : Tells attributes w h) (ht' : Tells attributes w' h') : w = w' ∧ h = h' := by
  cases ht <;> cases ht'
  case box.box hb hp hw hh _ _ _ _ _ hb' hp' hw' hh' =>
    obtain rfl := Option.some.inj (hb.symm.trans hb')
    obtain ⟨-, -, rfl, rfl⟩ : _ ∧ _ ∧ _ ∧ _ := by simpa using hp.symm.trans hp'
    exact ⟨Option.some.inj (hw.symm.trans hw'), Option.some.inj (hh.symm.trans hh')⟩
  case box.lengths hb hp _ _ hn _ _ => exact absurd (by rw [hp]; rfl) (hn _ hb)
  case lengths.box hn _ _ _ _ _ _ _ hb hp _ _ => exact absurd (by rw [hp]; rfl) (hn _ hb)
  case lengths.lengths hw hh _ hw' hh' =>
    exact ⟨Option.some.inj (hw.symm.trans hw'), Option.some.inj (hh.symm.trans hh')⟩

-- A drawing that tells its size has its center at half of that.
inductive CenteredBy (attributes : List (String × String)) : Float × Float → Prop where
  | size {w h : Float} : Tells attributes w h → ¬ w ≤ 0.0 → ¬ h ≤ 0.0 →
      CenteredBy attributes (w / 2.0, h / 2.0)
  | origin : (∀ w h, ¬ Tells attributes w h) → CenteredBy attributes (0.0, 0.0)

theorem not_le_of_length? {text : String} (h : length? text = some w) : ¬ w ≤ 0.0 := by
  unfold length? at h
  exact not_le_of_zero_lt (of_decide_eq_true (Option.filter_eq_some_iff.mp h).2)

theorem centeredBy_sizeCenter (hb : ∀ box, attributes.reverse.lookup "viewBox" = some box →
    (viewBoxParts box).length ≠ 4) : CenteredBy attributes (sizeCenter attributes.reverse) := by
  unfold sizeCenter
  split
  case h_1 hw hh =>
    have ⟨_, _, hlw⟩ := Option.bind_eq_some_iff.mp hw
    have ⟨_, _, hlh⟩ := Option.bind_eq_some_iff.mp hh
    exact .size (.lengths hb hw hh) (not_le_of_length? hlw) (not_le_of_length? hlh)
  case h_2 hn =>
    refine .origin fun w h ht => ?_
    cases ht
    case box hv hp _ _ => exact hb _ hv (by rw [hp]; rfl)
    case lengths _ hw hh => exact hn _ _ hw hh

theorem centeredBy_of_centerOf (h : centerOf attributes = .ok center) :
    CenteredBy attributes center := by
  unfold centerOf at h
  dsimp only at h
  split at h
  case h_1 box hb =>
    split at h
    case h_1 x y width height hp =>
      unfold viewBoxCenter at h
      split at h
      case h_1 w' h' hw hh =>
        split at h
        case isTrue => contradiction
        case isFalse hn =>
          obtain rfl := Except.ok.inj h
          have hn := not_or.mp (by simpa using hn)
          exact .size (.box hb hp hw hh) hn.1 hn.2
      case h_2 => contradiction
    case h_2 hn =>
      obtain rfl := Except.ok.inj h
      refine centeredBy_sizeCenter fun box' hb' hl => ?_
      obtain rfl := Option.some.inj (hb.symm.trans hb')
      have ⟨x, y, width, height, hp⟩ := List.length_eq_four.mp hl
      exact hn _ _ _ _ hp
  case h_2 hb =>
    obtain rfl := Except.ok.inj h
    exact centeredBy_sizeCenter fun box hb' => by simp [hb] at hb'

theorem CenteredBy.not_lt (hc : CenteredBy attributes center) :
    ¬ center.1 < 0.0 ∧ ¬ center.2 < 0.0 := by
  cases hc
  case size hw hh => exact ⟨not_half_lt hw, not_half_lt hh⟩
  case origin => decide

theorem CenteredBy.isFinite_iff (hc : CenteredBy attributes center) :
    center.1.isFinite ∧ center.2.isFinite ↔
      ∀ w h, Tells attributes w h → w.isFinite ∧ h.isFinite := by
  cases hc
  case size w h ht _ _ =>
    rw [isFinite_half, isFinite_half]
    constructor
    case mp =>
      intro hf w' h' ht'
      have ⟨hw, hh⟩ := ht.eq ht'
      rwa [← hw, ← hh]
    case mpr => exact fun hf => hf w h ht
  case origin hn => exact ⟨fun _ w h ht => absurd ht (hn w h), fun _ => by decide⟩

end Svg

theorem Bytes.ofHighFirst_lt {bytes : List UInt8} :
    ofHighFirst bytes < 256 ^ bytes.length := by
  induction bytes using List.reverseRecOn
  case nil => decide
  case append_singleton bytes b hi =>
    have hb := b.toNat_lt
    simp only [ofHighFirst, List.foldl_append, List.foldl_cons, List.foldl_nil, List.length_append,
      List.length_singleton, Nat.pow_succ] at hi ⊢
    omega

theorem Bytes.ofHighFirst_take_lt {bytes : List UInt8} : ofHighFirst (bytes.take 4) < 2 ^ 53 :=
  calc ofHighFirst (bytes.take 4)
    _ < 256 ^ (bytes.take 4).length := ofHighFirst_lt
    _ ≤ 256 ^ 4 := Nat.pow_le_pow_right (by decide) (List.length_take_le ..)
    _ < 2 ^ 53 := by decide

namespace Png.Header

variable {header header' : Header} {chunk : Chunk} {chunks chunks' : List Chunk}
  {bytes data : List UInt8}

-- Both sizes of an image fit into the digits of a binary number.
def IsExact (header : Header) : Prop :=
  header.width < 2 ^ 53 ∧ header.height < 2 ^ 53

theorem isExact_ofData? (h : ofData? data = some header) : header.IsExact := by
  unfold ofData? at h
  split at h
  case h_1 =>
    have ⟨_, _, h⟩ := Option.bind_eq_some_iff.mp h
    split at h
    case isTrue => contradiction
    case isFalse =>
      obtain rfl := Option.some.inj h
      exact ⟨Bytes.ofHighFirst_take_lt, Bytes.ofHighFirst_take_lt⟩
  case h_2 => contradiction

theorem IsExact.withTransparency? (hs : header.IsExact)
    (h : header.withTransparency? data = some header') : header'.IsExact := by
  simp only [Header.withTransparency?] at h
  split at h
  case isTrue => contradiction
  case isFalse =>
    split at h
    case h_1 | h_2 | h_3 =>
      split at h
      case isTrue => contradiction
      case isFalse => exact Option.some.inj h ▸ hs
    case h_4 | h_5 => contradiction

theorem IsExact.withChunk? (hs : header.IsExact) (h : header.withChunk? chunk = some header') :
    header'.IsExact := by
  unfold Header.withChunk? at h
  split at h
  case h_1 => contradiction
  case h_2 =>
    split_ifs at h
    exact Option.some.inj h ▸ hs
  case h_3 =>
    split at h
    case h_1 | h_2 => contradiction
    case h_3 =>
      split_ifs at h
      exact Option.some.inj h ▸ hs
    case h_4 => exact hs.withTransparency? h
    case h_5 => exact Option.some.inj h ▸ hs

theorem IsExact.untilPixels? (hs : header.IsExact)
    (h : header.untilPixels? chunks = some (header', chunks')) : header'.IsExact := by
  induction chunks generalizing header
  case nil => contradiction
  case cons chunk chunks hi =>
    unfold Header.untilPixels? at h
    split at h
    case isTrue =>
      obtain ⟨rfl, -⟩ := Prod.mk.inj (Option.some.inj h)
      exact hs
    case isFalse =>
      have ⟨_, hc, h⟩ := Option.bind_eq_some_iff.mp h
      exact hi (hs.withChunk? hc) h

theorem isExact_ofFile? (h : ofFile? bytes = some (header, chunks)) : header.IsExact := by
  have ⟨_, _, h⟩ := Option.bind_eq_some_iff.mp h
  split at h
  case h_1 =>
    split_ifs at h
    have ⟨_, hd, h⟩ := Option.bind_eq_some_iff.mp h
    exact (isExact_ofData? hd).untilPixels? h
  case h_2 => contradiction

end Png.Header

open Document

namespace Costume

variable {source : FileSource} {centerSvg : Bool} {f : CostumeFile} {c : Costume}
  {bytes : List UInt8} {center : Float × Float}

-- A drawing that is to be centered, but tells a size that is not finite.
structure IsUnmeasured (centerSvg : Bool) (c : Costume) : Prop where
  centered : centerSvg = true
  drawing  : c.format = "svg"
  size     : ∃ text attributes w h, Utf8.decode c.bytes = .ok text ∧
    Xml.rootAttributes? text = some attributes ∧ Svg.Tells attributes w h ∧
    ¬ (w.isFinite ∧ h.isFinite)

theorem center_of_load (h : load source centerSvg f = .ok c) :
    centerOf c.format centerSvg c.bytes = .ok c.center := by
  unfold load at h
  split at h
  case h_1 => contradiction
  case h_2 =>
    dsimp only at h
    split at h
    case h_1 => contradiction
    case h_2 hc =>
      obtain rfl := Except.ok.inj h
      exact hc

-- A center that is a place, and no negative one.
structure IsUsable (center : Float × Float) : Prop where
  finite : center.1.isFinite ∧ center.2.isFinite
  not_lt : ¬ center.1 < 0.0 ∧ ¬ center.2 < 0.0

theorem isUsable_origin : IsUsable (0.0, 0.0) :=
  ⟨by decide, by decide⟩

theorem isUsable_pngCenter? (h : pngCenter? bytes = some center) : IsUsable center := by
  have ⟨⟨header, _⟩, hf, hc⟩ := Option.map_eq_some_iff.mp h
  obtain rfl := hc
  have ⟨hw, hh⟩ := Png.Header.isExact_ofFile? hf
  exact ⟨⟨(half_ofNat hw).1, (half_ofNat hh).1⟩, (half_ofNat hw).2, (half_ofNat hh).2⟩

-- Only drawings that are to be centered take their center from what they tell about themselves.
theorem centerOf_cases {format : String} {bytes : ByteArray}
    (h : centerOf format centerSvg bytes = .ok center) :
    (centerSvg = true ∧ format = "svg" ∧ ∃ text attributes, Utf8.decode bytes = .ok text ∧
        Xml.rootAttributes? text = some attributes ∧ Svg.CenteredBy attributes center) ∨
      ¬ (centerSvg = true ∧ format = "svg") ∧ IsUsable center := by
  unfold centerOf at h
  split_ifs at h with hs hc hp
  case pos =>
    split at h
    case h_1 text ht =>
      have h := mapError_eq_ok.mp h
      unfold Svg.center at h
      split at h
      case h_1 attributes ha =>
        exact .inl ⟨hc, hs, text, attributes, ht, ha, Svg.centeredBy_of_centerOf h⟩
      case h_2 => contradiction
    case h_2 => contradiction
  case neg =>
    obtain rfl := Except.ok.inj h
    exact .inr ⟨fun hn => hc hn.1, isUsable_origin⟩
  case pos =>
    split at h
    case h_1 hpng =>
      obtain rfl := Except.ok.inj h
      exact .inr ⟨fun hn => hs hn.2, isUsable_pngCenter? hpng⟩
    case h_2 => contradiction
  case neg =>
    obtain rfl := Except.ok.inj h
    exact .inr ⟨fun hn => hs hn.2, isUsable_origin⟩

theorem member?_center : c.document.member? "rotationCenterX" = some (.float c.center.1) ∧
    c.document.member? "rotationCenterY" = some (.float c.center.2) := by
  cases h : c.isBitmap <;> simp [document, member?_ofMembers, List.lookup_cons, h]

theorem tellsCenter_iff :
    c.document.TellsCenter ↔ c.center.1.isFinite ∧ c.center.2.isFinite := by
  have ⟨hx, hy⟩ := member?_center (c := c)
  simp [TellsCenter, hx, hy, pretty_float]

-- A costume has a usable center unless it is a drawing that tells a size that is not finite. Then
-- the document of the project tells no center.
theorem center_usable (h : load source centerSvg f = .ok c) :
    (¬ c.center.1 < 0.0 ∧ ¬ c.center.2 < 0.0) ∧
      (c.center.1.isFinite ∧ c.center.2.isFinite ↔ ¬ c.IsUnmeasured centerSvg) ∧
      (c.document.TellsCenter ↔ ¬ c.IsUnmeasured centerSvg) := by
  rw [tellsCenter_iff, and_self]
  rcases centerOf_cases (center_of_load h) with ⟨hv, hs, text, attributes, ht, ha, hc⟩ | ⟨hn, hu⟩
  case inl =>
    refine ⟨hc.not_lt, hc.isFinite_iff.trans ?_⟩
    constructor
    case mp =>
      rintro hf ⟨-, -, text', attributes', w, h, ht', ha', hw, hn⟩
      obtain rfl := Except.ok.inj (ht.symm.trans ht')
      obtain rfl := Option.some.inj (ha.symm.trans ha')
      exact hn (hf w h hw)
    case mpr =>
      intro hn w h hw
      by_contra hf
      exact hn ⟨hv, hs, text, attributes, w, h, ht, ha, hw, hf⟩
  case inr => exact ⟨hu.not_lt, fun _ hm => hn ⟨hm.centered, hm.drawing⟩, fun _ => hu.finite⟩

-- A project with one drawing, by the text of its file.
def drawingFiles (text : String) : FileSource :=
  (MemoryTree.ofFiles [(⟨"p/a.svg"⟩, text.toUTF8)]).source

theorem center_measured :
    ∃ c, load (drawingFiles "<svg viewBox='0 0 40 20'/>") true ⟨⟨"p/a.svg"⟩, none⟩ = .ok c ∧
      c.center = (20.0, 10.0) ∧ ¬ c.IsUnmeasured true ∧ c.document.TellsCenter := by
  have h : (load (drawingFiles "<svg viewBox='0 0 40 20'/>") true ⟨⟨"p/a.svg"⟩, none⟩).toOption.map
      (·.center) = some (20.0, 10.0) := by
    decide +kernel
  have ⟨c, hl, hc⟩ := Option.map_eq_some_iff.mp h
  have hl := eq_ok_of_toOption hl
  have ⟨_, hf, ht⟩ := center_usable hl
  have hm : ¬ c.IsUnmeasured true := hf.mp (hc ▸ by decide)
  exact ⟨c, hl, hc, hm, ht.mpr hm⟩

-- A view box whose width is no number at all is taken for one of a positive size.
theorem center_unmeasured :
    ∃ c, load (drawingFiles "<svg viewBox='0 0 NaN 10'/>") true ⟨⟨"p/a.svg"⟩, none⟩ = .ok c ∧
      c.center.1.isNaN ∧ (c.document.member? "rotationCenterX").map pretty = some "null" ∧
      ¬ c.document.TellsCenter := by
  have h : (load (drawingFiles "<svg viewBox='0 0 NaN 10'/>") true ⟨⟨"p/a.svg"⟩, none⟩).toOption.map
      (fun c => (c.center.1.isNaN, c.center.1.isFinite)) = some (true, false) := by
    decide +kernel
  have ⟨c, hl, hc⟩ := Option.map_eq_some_iff.mp h
  have ⟨hn, hf⟩ := Prod.mk.inj hc
  have hf : ¬ c.center.1.isFinite := Bool.eq_false_iff.mp hf
  refine ⟨c, eq_ok_of_toOption hl, hn, ?_, fun ht => hf (tellsCenter_iff.mp ht).1⟩
  rw [member?_center.1, Option.map_some, pretty_float.mpr hf]

end Costume

end BlockLang
