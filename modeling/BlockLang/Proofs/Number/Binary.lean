import Mathlib
import BlockLang.Block.Fold

/-!
The exact values of binary numbers, and how far halves and whole numbers can be from zero: neither
leaves the range of numbers or gets to the other side of zero.
-/

namespace BlockLang

open Float.Model (Format UnpackedFloat totalExponent)
open Float.Model.UnpackedFloat

section Parts

variable {f : Format} {b b' : BitVec f.numBits} {u : UnpackedFloat}

-- A number is unpacked from three parts, the sign apart from the other two.
theorem unpack_of_parts (hs : Sign.ofBitVec (unpackSign b') = -Sign.ofBitVec (unpackSign b))
    (he : unpackExponent b' = unpackExponent b) (hm : unpackMantissa b' = unpackMantissa b) :
    unpack f b' = (unpack f b).neg := by
  simp only [unpack, hs, he, hm]
  split_ifs <;> rfl

-- The opposite of a number is packed with the other sign.
theorem parts_pack_neg (hu : u ≠ .notANumber) :
    Sign.ofBitVec (unpackSign (pack f u.neg)) = -Sign.ofBitVec (unpackSign (pack f u)) ∧
      unpackExponent (pack f u.neg) = unpackExponent (pack f u) ∧
      unpackMantissa (pack f u.neg) = unpackMantissa (pack f u) := by
  cases u
  case notANumber => contradiction
  case infinity | zero => simp [UnpackedFloat.neg, pack, packedInfinity, packedZero]
  case finite =>
    simp only [UnpackedFloat.neg, pack]
    split_ifs <;> simp [packedInfinity]

end Parts

theorem unpack_neg (x : Float) : (-x).toModel.unpack = x.toModel.unpack.neg := by
  have hx : pack Format.binary64 x.toModel.unpack = x.toModel.toBits.toBitVec :=
    pack_unpack_of_valid x.toModel.valid
  change unpack Format.binary64 (pack Format.binary64 x.toModel.unpack.neg) = _
  by_cases hu : x.toModel.unpack = .notANumber
  case pos =>
    rw [hu]
    exact unpack_packedNaN
  case neg =>
    have ⟨hs, he, hm⟩ := parts_pack_neg (f := Format.binary64) hu
    rw [hx] at hs he hm
    exact unpack_of_parts hs he hm

theorem apply_neg (s : Sign) (n : Int) : (-s).apply n = -s.apply n := by
  cases s
  case negative => exact (Int.neg_neg n).symm
  case positive => rfl

-- A number that is not finite counts as zero.
def unpackedValue : UnpackedFloat → ℚ
  | .finite s m e _ => s.apply m * 2 ^ e
  | .zero _ | .infinity _ | .notANumber => 0

def floatValue (x : Float) : ℚ :=
  unpackedValue x.toModel.unpack

theorem floatValue_neg (x : Float) : floatValue (-x) = -floatValue x := by
  rw [floatValue, unpack_neg, floatValue]
  cases x.toModel.unpack <;> simp [UnpackedFloat.neg, unpackedValue, apply_neg]

-- Zero has the same value with either sign.
theorem floatValue_congr {x y : Float} (h : x == y) : floatValue x = floatValue y := by
  have ⟨_, _, h⟩ := Float.beq_iff_ne_nan_and_eq.mp h
  have h₀ : floatValue 0 = floatValue (-0) := by decide
  obtain rfl | ⟨rfl, rfl⟩ | ⟨rfl, rfl⟩ := h
  case inl => rfl
  case inr.inl => exact h₀
  case inr.inr => exact h₀.symm

theorem unpackedValue_finite (s : Sign) (m : Nat) (e : Int) (hm : 0 < m) :
    unpackedValue (.finite s m e hm) ≠ 0 := by
  have hp : (2 : ℚ) ^ e ≠ 0 := zpow_ne_zero e two_ne_zero
  have hm : (m : ℚ) ≠ 0 := Nat.cast_ne_zero.mpr hm.ne'
  cases s <;> simp [unpackedValue, Sign.apply, hm, hp]

theorem lt_iff_unpack {x y : Float} : x < y ↔ x.toModel.unpack.lt y.toModel.unpack = true :=
  decide_eq_true_iff

theorem le_iff_unpack {x y : Float} : x ≤ y ↔ x.toModel.unpack.le y.toModel.unpack = true :=
  decide_eq_true_iff

-- The finite numbers that are as large as zero are those whose value is zero.
theorem compareFloat_zero {x : Float} (hx : x.isFinite) :
    compareFloat 0 x = .eq ↔ floatValue x = 0 := by
  have h₀ : (0 : Float).toModel.unpack = .zero .positive := rfl
  have hx : x.toModel.unpack.isFinite = true := hx
  simp only [compareFloat, lt_iff_unpack, h₀, floatValue]
  cases hu : x.toModel.unpack <;> rw [hu] at hx
  case infinity | notANumber => contradiction
  case zero => simp [unpackedValue, UnpackedFloat.lt, UnpackedFloat.compare]
  case finite s m e hm =>
    have hv := unpackedValue_finite s m e hm
    cases s <;> simp [UnpackedFloat.lt, UnpackedFloat.compare, hv]

-- A number of one sign whose last digit stands at the place `top` or at a lower one.
inductive EndsWithin (s : Sign) (top : Int) : UnpackedFloat → Prop where
  | zero : EndsWithin s top (.zero s)
  | finite {m : Nat} {e : Int} {hm : 0 < m} : e ≤ top → EndsWithin s top (.finite s m e hm)

section Round

variable {em : ExtendedMantissa} {m k n : Nat} {e t top : Int} {s : Sign} {a : Accuracy}

theorem mantissa_shiftRight : (em >>> k).mantissa = em.mantissa / 2 ^ k := by
  induction k
  case zero => simp [HShiftRight.hShiftRight, Nat.repeat]
  case succ k hi =>
    change (em >>> k).mantissa / 2 = _
    rw [hi, Nat.div_div_eq_div_mul, Nat.pow_succ]

theorem mantissa_ofAccuracy : (ExtendedMantissa.ofMantissaAndAccuracy m a).mantissa = m := by
  rcases a with _ | _ | _ | _ <;> rfl

theorem roundedMantissa_le : em.roundedMantissa ≤ em.mantissa + 1 := by
  have ⟨m, r, t⟩ := em
  cases r <;> cases t <;>
    simp only [ExtendedMantissa.roundedMantissa, ExtendedMantissa.accuracy,
      Accuracy.roundToNearestEven] <;> omega

-- Rounding may carry a digit over.
theorem roundedMantissa_lt (hm : m < 2 ^ k) :
    (ExtendedMantissa.ofMantissaAndAccuracy m a >>> n).roundedMantissa < 2 ^ (k - n + 1) := by
  have hd : m / 2 ^ n < 2 ^ (k - n) := by
    refine Nat.div_lt_of_lt_mul (hm.trans_le ?_)
    rw [← Nat.pow_add]
    exact Nat.pow_le_pow_right two_pos (by omega)
  calc (ExtendedMantissa.ofMantissaAndAccuracy m a >>> n).roundedMantissa
    _ ≤ (ExtendedMantissa.ofMantissaAndAccuracy m a >>> n).mantissa + 1 := roundedMantissa_le
    _ = m / 2 ^ n + 1 := by rw [mantissa_shiftRight, mantissa_ofAccuracy]
    _ ≤ 2 ^ (k - n) := hd
    _ < 2 ^ (k - n + 1) := Nat.pow_lt_pow_succ (by decide)

theorem targetExponent_eq : Format.binary64.targetExponent t = max (t - 53) (-1074) :=
  rfl

theorem totalExponent_le (hm : m < 2 ^ k) (hk : 0 < k) : totalExponent m e ≤ k + e := by
  have hl : m.log2 < k := by
    by_cases h₀ : m = 0
    case pos => simpa [h₀] using hk
    case neg => exact (Nat.log2_lt h₀).mpr hm
  simp only [totalExponent]
  omega

-- If a digit is carried over, then the last digit moves up by one place.
theorem endsWithin_round (hm : m < 2 ^ k) (hk : k + e ≤ top + 52) (he : e < top)
    (ht : -1074 < top) : EndsWithin s top (roundWithAccuracy Format.binary64 s m e a) := by
  have h₀ : totalExponent m e ≤ top + 52 := by
    cases k
    case zero =>
      have h := totalExponent_le (m := m) (e := e) (k := 1) (hm.trans (by decide)) Nat.one_pos
      omega
    case succ k => exact (totalExponent_le hm k.succ_pos).trans hk
  let shift := (Format.binary64.targetExponent (totalExponent m e) - e).toNat
  let em := ExtendedMantissa.ofMantissaAndAccuracy m a >>> shift
  have hs : e + shift < top := by
    simp only [shift, targetExponent_eq]
    omega
  have hr : em.roundedMantissa < 2 ^ (k - shift + 1) := roundedMantissa_lt hm
  have hf : (shiftToTargetExponent Format.binary64 em.roundedMantissa (e + shift) .exact).2
      ≤ top := by
    have h := totalExponent_le (e := e + shift) hr (Nat.succ_pos _)
    simp only [shiftToTargetExponent, shiftToExponent, targetExponent_eq]
    omega
  unfold roundWithAccuracy
  dsimp only
  split
  case isTrue => exact .zero
  case isFalse => exact .finite hf

end Round

section Pack

variable {s : Sign} {x : BitVec 11} {b : BitVec Format.binary64.numBits} {u : UnpackedFloat}
  {m : Nat} {e top : Int} {hm : 0 < m}

theorem endsWithin_unpack {n : BitVec 52} (hx : x.toNat < 2047) (ht : x.toNat ≤ top + 1075)
    (hl : -1074 ≤ top) :
    EndsWithin s top (unpack Format.binary64 (packComponents Format.binary64 s x n)) := by
  have hx : x ≠ -1#11 := by
    rintro rfl
    exact absurd hx (by decide)
  simp only [unpack, unpackExponent_packComponents, unpackMantissa_packComponents,
    unpackSign_packComponents, Sign.ofBitVec_toBitVec, hx, if_false]
  split_ifs
  case pos => exact .zero
  case neg h₀ _ =>
    refine .finite ?_
    rw [h₀]
    exact hl
  case neg =>
    refine .finite ?_
    change (x.toNat : Int) - 1075 ≤ top
    omega

theorem EndsWithin.repack (h : EndsWithin s top u) (hl : -1074 ≤ top) (hh : top ≤ 971) :
    EndsWithin s top (unpack Format.binary64 (pack Format.binary64 u)) := by
  cases h
  case zero =>
    simp only [pack, unpack_packedZero]
    exact .zero
  case finite m e hm he =>
    have hb : (e + 1075).toNat < 2047 := by omega
    have hp : (BitVec.ofNat 11 (e + 1075).toNat).toNat = (e + 1075).toNat :=
      BitVec.toNat_ofNat .. ▸ Nat.mod_eq_of_lt (by omega)
    have h₀ : (BitVec.ofNat 11 0).toNat = 0 := rfl
    have hbias : e + (Format.binary64.exponentBias : Int) + (52 : Nat) = e + 1075 := by
      change e + 1023 + 52 = _
      omega
    simp only [pack, hbias]
    rw [if_neg (by omega)]
    split_ifs
    case pos => exact endsWithin_unpack (hp.trans_lt hb) (by omega) hl
    case neg => exact endsWithin_unpack (h₀ ▸ by decide) (by omega) hl

theorem unpack_packedInfinity :
    unpack Format.binary64 (packedInfinity Format.binary64 s) = .infinity s := by
  simp [unpack, packedInfinity]

theorem unpack_bounds (h : unpack Format.binary64 b = .finite s m e hm) :
    m < 2 ^ 53 ∧ e ≤ 971 := by
  simp only [unpack] at h
  split_ifs at h
  case neg h₀ _ =>
    obtain ⟨-, rfl, rfl⟩ := UnpackedFloat.finite.inj h
    refine ⟨(unpackMantissa b).isLt.trans (by decide), ?_⟩
    rw [h₀]
    decide
  case neg hx _ =>
    obtain ⟨-, rfl, rfl⟩ := UnpackedFloat.finite.inj h
    have hx : (unpackExponent b).toNat ≠ 2047 := fun h => hx (BitVec.eq_of_toNat_eq h)
    have hl : (unpackExponent b).toNat < 2048 := (unpackExponent b).isLt
    refine ⟨(1#1 ++ unpackMantissa b).isLt, ?_⟩
    change ((unpackExponent b).toNat : Int) - 1075 ≤ 971
    omega

end Pack

section Half

variable {x : Float} {s : Sign} {m : Nat} {e : Int} {hm : 0 < m}

theorem unpack_half : (x / 2.0).toModel.unpack = unpack Format.binary64
    (pack Format.binary64 (div Format.binary64 x.toModel.unpack
      (.finite .positive (2 ^ 52) (-51) (by decide)))) :=
  rfl

theorem div_positive : s / .positive = s := by
  cases s <;> rfl

-- The quotient is taken as many places down as its mantissa has digits more than the number's.
theorem endsWithin_half (hx : x.toModel.unpack = .finite s m e hm) :
    EndsWithin s 971 (x / 2.0).toModel.unpack := by
  have ⟨hb, he⟩ := unpack_bounds (b := x.toModel.toBits.toBitVec) hx
  have hl := totalExponent_le (e := e) hb (by decide)
  have h₂ : totalExponent (2 ^ 52) (-51) = 2 := by decide
  rw [unpack_half, hx]
  refine EndsWithin.repack ?_ (by decide) le_rfl
  simp only [div, div_positive, divCore, targetExponent_eq, h₂]
  generalize ht : min (e - -51) (max (totalExponent m e - 2 - 53) (-1074)) = target
  refine endsWithin_round (k := (e - -51 - target).toNat + 1) ?_ ?_ ?_ (by decide)
  case refine_1 =>
    rw [Nat.shiftLeft_eq, Nat.div_lt_iff_lt_mul (by decide), ← Nat.pow_add]
    calc m * 2 ^ (e - -51 - target).toNat
      _ < 2 ^ 53 * 2 ^ (e - -51 - target).toNat := Nat.mul_lt_mul_of_pos_right hb (by positivity)
      _ = 2 ^ ((e - -51 - target).toNat + 1 + 52) := by rw [← Nat.pow_add]; congr 1; omega
  case refine_2 => omega
  case refine_3 => omega

theorem unpack_half_infinity (hx : x.toModel.unpack = .infinity s) :
    (x / 2.0).toModel.unpack = .infinity s := by
  rw [unpack_half, hx]
  simp only [div, div_positive, pack, unpack_packedInfinity]

theorem unpack_half_notANumber (hx : x.toModel.unpack = .notANumber) :
    (x / 2.0).toModel.unpack = .notANumber := by
  rw [unpack_half, hx]
  exact unpack_packedNaN

theorem unpack_half_zero (hx : x.toModel.unpack = .zero s) :
    (x / 2.0).toModel.unpack = .zero s := by
  rw [unpack_half, hx]
  simp only [div, div_positive, pack, unpack_packedZero]

theorem unpack_zero : (0.0 : Float).toModel.unpack = .zero .positive :=
  rfl

theorem not_le_of_zero_lt (hx : 0.0 < x) : ¬ x ≤ 0.0 := by
  rw [lt_iff_unpack, unpack_zero] at hx
  rw [le_iff_unpack, unpack_zero]
  cases hu : x.toModel.unpack <;> rw [hu] at hx
  case zero | notANumber => contradiction
  case infinity s | finite s _ _ _ => cases s <;> first | contradiction | exact Bool.false_ne_true

theorem EndsWithin.isFinite {u : UnpackedFloat} {top : Int} (h : EndsWithin s top u) :
    u.isFinite := by
  cases h <;> rfl

theorem EndsWithin.not_lt {u : UnpackedFloat} {top : Int} (h : EndsWithin .positive top u) :
    u.lt (.zero .positive) = false := by
  cases h <;> rfl

theorem isFinite_half : (x / 2.0).isFinite = x.isFinite := by
  change (x / 2.0).toModel.unpack.isFinite = x.toModel.unpack.isFinite
  cases hx : x.toModel.unpack
  case infinity => rw [unpack_half_infinity hx]
  case notANumber => rw [unpack_half_notANumber hx]
  case zero => rw [unpack_half_zero hx]
  case finite => exact (endsWithin_half hx).isFinite

-- A number that is not known to be zero or less has no half below zero.
theorem not_half_lt (hx : ¬ x ≤ 0.0) : ¬ x / 2.0 < 0.0 := by
  rw [le_iff_unpack, unpack_zero] at hx
  rw [lt_iff_unpack, unpack_zero]
  cases hu : x.toModel.unpack <;> rw [hu] at hx
  case infinity s =>
    rw [unpack_half_infinity hu]
    cases s
    case negative => exact absurd rfl hx
    case positive => exact Bool.false_ne_true
  case notANumber =>
    rw [unpack_half_notANumber hu]
    exact Bool.false_ne_true
  case zero => exact absurd rfl hx
  case finite s _ _ _ =>
    cases s
    case negative => exact absurd rfl hx
    case positive => exact Bool.eq_false_iff.mp (endsWithin_half hu).not_lt

end Half

section Whole

variable {n : Nat}

-- Numbers of no more than 53 digits have a place for each of them.
theorem endsWithin_ofInt (hn : n < 2 ^ 53) :
    EndsWithin .positive 1 (ofInt Format.binary64 n) := by
  unfold ofInt UnpackedFloat.normalize
  split
  case h_1 h =>
    have h := Int.compare_eq_lt.mp h
    omega
  case h_2 => exact .zero
  case h_3 =>
    have hl : n.log2 ≤ 52 := by
      have h := totalExponent_le (e := 0) hn (by decide)
      simp only [totalExponent] at h
      omega
    simp only [UnpackedFloat.round, decreaseExponent, Int.toNat_natCast, targetExponent_eq,
      totalExponent]
    have hs : (0 - max ((n.log2 : Int) + 1 + 0 - 53) (-1074)).toNat = 52 - n.log2 := by omega
    rw [hs]
    refine endsWithin_round (k := 53) ?_ (by omega) (by omega) (by decide)
    calc n <<< (52 - n.log2)
      _ = n * 2 ^ (52 - n.log2) := Nat.shiftLeft_eq ..
      _ < 2 ^ (n.log2 + 1) * 2 ^ (52 - n.log2) :=
        Nat.mul_lt_mul_of_pos_right Nat.lt_log2_self (by positivity)
      _ = 2 ^ 53 := by rw [← Nat.pow_add]; congr 1; omega

theorem unpack_toFloat {w : UInt64} : w.toFloat.toModel.unpack = unpack Format.binary64
    (pack Format.binary64 (ofInt Format.binary64 w.toNat)) :=
  rfl

theorem unpack_ofNat (hn : n < 2 ^ 53) : (Float.ofNat n).toModel.unpack = unpack Format.binary64
    (pack Format.binary64 (mul Format.binary64 n.toUInt64.toFloat.toModel.unpack
      (.finite .positive (2 ^ 52) (-52) (by decide)))) := by
  have h : Float.ofNat n = n.toUInt64.toFloat * 1.0 := by
    change Float.ofScientific n false 0 = _
    unfold Float.ofScientific
    rw [dif_pos ⟨hn, by decide⟩]
    rfl
  rw [h]
  rfl

theorem endsWithin_ofNat (hn : n < 2 ^ 53) :
    EndsWithin .positive 2 (Float.ofNat n).toModel.unpack := by
  have hw : n.toUInt64.toNat = n := by
    simp
    omega
  have hu : EndsWithin .positive 1 n.toUInt64.toFloat.toModel.unpack := by
    rw [unpack_toFloat, hw]
    exact (endsWithin_ofInt hn).repack (by decide) (by decide)
  rw [unpack_ofNat hn]
  refine EndsWithin.repack ?_ (by decide) (by decide)
  generalize h : n.toUInt64.toFloat.toModel.unpack = u at hu
  cases hu
  case zero => exact .zero
  case finite m e hm he =>
    have ⟨hb, _⟩ := unpack_bounds (b := n.toUInt64.toFloat.toModel.toBits.toBitVec) h
    refine endsWithin_round (k := 105) ?_ ?_ ?_ (by decide)
    case refine_1 => omega
    case refine_2 => omega
    case refine_3 => omega

theorem half_ofNat (hn : n < 2 ^ 53) :
    (Float.ofNat n / 2.0).isFinite ∧ ¬ Float.ofNat n / 2.0 < 0.0 := by
  have ⟨top, hu⟩ : ∃ top, EndsWithin .positive top (Float.ofNat n / 2.0).toModel.unpack := by
    have hu := endsWithin_ofNat hn
    generalize h : (Float.ofNat n).toModel.unpack = u at hu
    cases hu
    case zero => exact ⟨0, unpack_half_zero h ▸ .zero⟩
    case finite => exact ⟨971, endsWithin_half h⟩
  rw [lt_iff_unpack, unpack_zero, hu.not_lt]
  exact ⟨hu.isFinite, Bool.false_ne_true⟩

end Whole

end BlockLang
