import Mathlib
import BlockLang.Text.Lowercase

/-!
Texts that lower case leaves as they are.
-/

namespace BlockLang.Text

variable {c d : Char} {cs before : List Char} {s : Shift} {text : String}

-- Whatever a shift moves to is a character, and none that comes before `a`.
def Shift.Sound (s : Shift) : Prop :=
  'a'.toNat ≤ s.first + s.shift ∧ s.last + s.shift < 0xd800 ∨
    0xdfff < s.first + s.shift ∧ s.last + s.shift < 0x110000

instance (s : Shift) : Decidable s.Sound :=
  inferInstanceAs (Decidable (_ ∨ _))

theorem sound_lowerShifts : ∀ s ∈ lowerShifts, s.Sound := by
  decide +kernel

theorem toNat_ofNat {n : Nat} (h : n.isValidChar) : (Char.ofNat n).toNat = n := by
  simp [Char.ofNat, h, Char.ofNatAux, Char.toNat]

theorem Shift.Sound.le_of_move? (hs : s.Sound) (h : s.move? c = some d) :
    'a'.toNat ≤ d.toNat := by
  have ha : 'a'.toNat = 97 := rfl
  simp only [Sound, ha] at hs
  simp only [move?, Option.ite_none_right_eq_some, Bool.and_eq_true, decide_eq_true_eq] at h
  have ⟨⟨⟨hf, hl⟩, _⟩, hd⟩ := h
  have hv : (c.toNat + s.shift).toNat.isValidChar := by
    simp only [Nat.isValidChar]
    omega
  rw [← Option.some.inj hd, toNat_ofNat hv, ha]
  omega

-- The only letters that have another lower case here are the capitals from `A` to `Z`.
theorem toLower_cases (c : Char) :
    c.toLower = c ∨ c.toLower.toNat = c.toNat + 32 ∧ 'A'.toNat ≤ c.toNat := by
  by_cases hu : c.isUpper
  case neg => exact .inl (Char.toLower_eq_of_not_isUpper hu)
  case pos =>
    have hb : 65 ≤ c.toNat ∧ c.toNat ≤ 90 := by
      simpa [Char.isUpper, UInt32.le_iff_toNat_le] using hu
    have hv : (c.toNat + 32).isValidChar := by
      simp only [Nat.isValidChar]
      omega
    exact .inr ⟨by rw [Char.toLower_eq_of_isUpper hu, toNat_ofNat hv], hb.1⟩

theorem toLower_eq (h : c.toLower.toNat < 'a'.toNat) : c.toLower = c := by
  cases toLower_cases c
  case inl hc => exact hc
  case inr hc =>
    have ha : 'a'.toNat = 97 := rfl
    have hA : 'A'.toNat = 65 := rfl
    omega

-- The lower-case letters of another character come from `a` on.
theorem lowerChar_eq (h : ∀ d ∈ lowerChar c, d.toNat < 'a'.toNat) : lowerChar c = [c] := by
  unfold lowerChar at h ⊢
  split at h
  case isTrue hc =>
    rw [if_pos hc, toLower_eq (h _ (List.mem_singleton_self _))]
  case isFalse hc =>
    rw [if_neg hc]
    split at h
    case isTrue =>
      have hi : 'i'.toNat < 'a'.toNat := h 'i' List.mem_cons_self
      exact absurd hi (by decide)
    case isFalse hd =>
      rw [if_neg hd]
      cases hm : lowerShifts.findSome? (·.move? c)
      case none => rfl
      case some d =>
        have ⟨s, hs, hd⟩ := Array.exists_of_findSome?_eq_some hm
        have hd : 'a'.toNat ≤ d.toNat := (sound_lowerShifts s hs).le_of_move? hd
        have hl : d.toNat < 'a'.toNat := h d (by simp [hm])
        omega

theorem lowerList_eq (h : ∀ d ∈ lowerList before cs, d.toNat < 'a'.toNat) :
    lowerList before cs = cs := by
  induction cs generalizing before
  case nil => rfl
  case cons c cs hi =>
    rw [lowerList] at h ⊢
    have ⟨hc, hcs⟩ := List.forall_mem_append.mp h
    rw [hi hcs]
    split at hc
    case isTrue =>
      split at hc
      · exact absurd (hc 'ς' (List.mem_singleton_self _)) (by decide)
      · exact absurd (hc 'σ' (List.mem_singleton_self _)) (by decide)
    case isFalse hs => rw [if_neg hs, lowerChar_eq hc, List.singleton_append]

-- A text is its own lower case if what comes out has no letters.
theorem lowercase_eq (h : ∀ d ∈ (lowercase text).toList, d.toNat < 'a'.toNat) :
    lowercase text = text := by
  rw [lowercase, String.toList_ofList] at h
  rw [lowercase, lowerList_eq h, String.ofList_toList]

end BlockLang.Text
