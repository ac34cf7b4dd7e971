-- Single-precision stores and loads (include/ppc_isa_memory.h). A store narrows the bits of a
-- double to the bits of a single: it cuts the fraction, and below the normal range it shifts
-- the significand to a denormal.
import WiiSwitch.Lib.Floats
import WiiSwitch.WiiLayout
import Mathlib.Algebra.Order.Floor.Semifield
import Mathlib.Data.Rat.Floor

namespace wii_switch

open Bytes FloatFormat OS

/-! ## The conversion -/

/-- `ConvertPpcDoubleToSingleBits`, on the bits of the double. -/
def convertPpcDoubleToSingleBits (bits : Word64) : Word :=
  let exponent : Word := ((bits >>> 52) &&& 0x7FF#64).setWidth 32
  if exponent - 874#32 ≤ 22#32 then
    let narrowed : Word :=
      (0x80000000#64 ||| ((bits &&& 0x000FFFFFFFFFFFFF#64) >>> 21)).setWidth 32
    let narrowed := narrowed >>> (905#32 - exponent).toNat
    narrowed ||| ((bits >>> 32) &&& 0x80000000#64).setWidth 32
  else
    (((bits >>> 32) &&& 0xC0000000#64) ||| ((bits >>> 29) &&& 0x3FFFFFFF#64)).setWidth 32

/-- `ReadFloat32Slow`, on the bits of the single. -/
def readFloat32Slow (addr : Word) : OS Word := read32 addr

/-- `WriteFloat32Slow`, on the bits of the double. -/
def writeFloat32Slow (addr : Word) (value : Word64) : OS Unit :=
  write32 addr (convertPpcDoubleToSingleBits value)

/-! ## The widening -/

/-- The double of a single: the same value, and the same fraction of a NaN. -/
def singleToDouble (s : Word) : Word64 :=
  let sign := single.sign s.toNat
  let e := single.exponent s.toNat
  let f := single.fraction s.toNat
  BitVec.ofNat 64 <|
    if e = 255 then double.pack sign 2047 (f * 2 ^ 29)
    else if e ≠ 0 then double.pack sign (e + 896) (f * 2 ^ 29)
    else if f = 0 then double.pack sign 0 0
    -- the leading one of a denormal becomes the implied one
    else double.pack sign (874 + f.log2) (f * 2 ^ (52 - f.log2) - 2 ^ 52)

/-! ## The fields of a conversion -/

section

variable (x : Word64)

theorem double_exponent : ((x >>> 52) &&& 0x7FF#64).toNat = double.exponent x.toNat := by
  have hmask : (0x7FF#64).toNat = (2 ^ 11 - 1) <<< 0 := by decide
  rw [BitVec.toNat_and, hmask, and_mask, BitVec.toNat_ushiftRight, Nat.shiftRight_eq_div_pow,
    Nat.pow_zero, Nat.div_one, Nat.mul_one]
  rfl

theorem double_fraction :
    (x &&& 0x000FFFFFFFFFFFFF#64).toNat = double.fraction x.toNat := by
  have hmask : (0x000FFFFFFFFFFFFF#64).toNat = (2 ^ 52 - 1) <<< 0 := by decide
  rw [BitVec.toNat_and, hmask, and_mask, Nat.pow_zero, Nat.div_one, Nat.mul_one]
  rfl

/-- The fields of a double as numbers. -/
theorem double_fields :
    x.toNat = (double.sign x.toNat * 2 ^ 11 + double.exponent x.toNat) * 2 ^ 52 +
      double.fraction x.toNat :=
  (pack_fields x.toNat).symm

theorem double_sign_lt : double.sign x.toNat < 2 := by
  have := x.isLt
  simp only [sign, double]
  omega

theorem double_fraction_lt : double.fraction x.toNat < 2 ^ 52 := fraction_lt double x.toNat

theorem double_exponent_lt : double.exponent x.toNat < 2 ^ 11 := exponent_lt double x.toNat

/-- The exponent as the code holds it. -/
theorem exponent_word : (((x >>> 52) &&& 0x7FF#64).setWidth 32).toNat =
    double.exponent x.toNat := by
  have := double_exponent_lt x
  rw [BitVec.toNat_setWidth, double_exponent]
  omega

/-- The range test of the code wraps below 874. -/
theorem denormal_test : ((x >>> 52) &&& 0x7FF#64).setWidth 32 - 874#32 ≤ 22#32 ↔
    874 ≤ double.exponent x.toNat ∧ double.exponent x.toNat ≤ 896 := by
  have := double_exponent_lt x
  simp only [BitVec.le_def, BitVec.toNat_sub, exponent_word, BitVec.toNat_ofNat]
  omega

/-- Outside the denormal range the sign, the ends of the exponent and the fraction are taken. -/
theorem convert_normal
    (h : ¬(874 ≤ double.exponent x.toNat ∧ double.exponent x.toNat ≤ 896)) :
    (convertPpcDoubleToSingleBits x).toNat = double.sign x.toNat * 2 ^ 31 +
      double.exponent x.toNat / 2 ^ 10 * 2 ^ 30 + double.exponent x.toNat % 2 ^ 7 * 2 ^ 23 +
      double.fraction x.toNat / 2 ^ 29 := by
  have hfields := double_fields x
  have hsign := double_sign_lt x
  have he := double_exponent_lt x
  have hf := double_fraction_lt x
  have hhigh : ((x >>> 32) &&& 0xC0000000#64).toNat = x.toNat / 2 ^ 62 % 2 ^ 2 * 2 ^ 30 := by
    have hmask : (0xC0000000#64).toNat = (2 ^ 2 - 1) <<< 30 := by decide
    rw [BitVec.toNat_and, hmask, and_mask, BitVec.toNat_ushiftRight, Nat.shiftRight_eq_div_pow,
      Nat.div_div_eq_div_mul, ← Nat.pow_add]
  have hlow : ((x >>> 29) &&& 0x3FFFFFFF#64).toNat = x.toNat / 2 ^ 29 % 2 ^ 30 := by
    have hmask : (0x3FFFFFFF#64).toNat = (2 ^ 30 - 1) <<< 0 := by decide
    rw [BitVec.toNat_and, hmask, and_mask, BitVec.toNat_ushiftRight, Nat.shiftRight_eq_div_pow,
      Nat.pow_zero, Nat.div_one, Nat.mul_one]
  unfold convertPpcDoubleToSingleBits
  dsimp only
  rw [if_neg fun htest => h ((denormal_test x).mp htest), BitVec.toNat_setWidth, BitVec.toNat_or,
    hhigh, hlow, or_add (Nat.mod_lt _ (by decide))]
  generalize double.sign x.toNat = s at *
  generalize double.exponent x.toNat = e at *
  generalize double.fraction x.toNat = f at *
  omega

/-- In the denormal range the significand is shifted. -/
theorem convert_denormal (hlow : 874 ≤ double.exponent x.toNat)
    (hhigh : double.exponent x.toNat ≤ 896) :
    (convertPpcDoubleToSingleBits x).toNat = double.sign x.toNat * 2 ^ 31 +
      (2 ^ 52 + double.fraction x.toNat) / 2 ^ (926 - double.exponent x.toNat) := by
  have hfields := double_fields x
  have hs := double_sign_lt x
  have he := double_exponent_lt x
  have hf := double_fraction_lt x
  have hsign : ((x >>> 32) &&& 0x80000000#64).toNat = double.sign x.toNat * 2 ^ 31 := by
    have hmask : (0x80000000#64).toNat = (2 ^ 1 - 1) <<< 31 := by decide
    rw [BitVec.toNat_and, hmask, and_mask, BitVec.toNat_ushiftRight, Nat.shiftRight_eq_div_pow,
      Nat.div_div_eq_div_mul, ← Nat.pow_add]
    omega
  have hone : (0x80000000#64 ||| ((x &&& 0x000FFFFFFFFFFFFF#64) >>> 21)).toNat =
      2 ^ 31 + double.fraction x.toNat / 2 ^ 21 := by
    have hcut : double.fraction x.toNat / 2 ^ 21 < 2 ^ 31 := by omega
    rw [BitVec.toNat_or, BitVec.toNat_ushiftRight, double_fraction, Nat.shiftRight_eq_div_pow]
    exact (or_add (a := 1) hcut)
  have hamount : (905#32 - ((x >>> 52) &&& 0x7FF#64).setWidth 32).toNat =
      905 - double.exponent x.toNat := by
    rw [BitVec.toNat_sub, exponent_word]
    simp only [BitVec.toNat_ofNat]
    omega
  have hshift : (2 ^ 31 + double.fraction x.toNat / 2 ^ 21) / 2 ^ (905 - double.exponent x.toNat) =
      (2 ^ 52 + double.fraction x.toNat) / 2 ^ (926 - double.exponent x.toNat) := by
    have hsum : 2 ^ 31 + double.fraction x.toNat / 2 ^ 21 =
        (2 ^ 52 + double.fraction x.toNat) / 2 ^ 21 := by omega
    have hexp : 926 - double.exponent x.toNat = 21 + (905 - double.exponent x.toNat) := by omega
    rw [hsum, Nat.div_div_eq_div_mul, ← Nat.pow_add, hexp]
  have hsmall : (2 ^ 52 + double.fraction x.toNat) / 2 ^ (926 - double.exponent x.toNat) <
      2 ^ 31 := by
    rw [← hshift]
    have hpow : 2 ^ 9 ≤ 2 ^ (905 - double.exponent x.toNat) :=
      Nat.pow_le_pow_right (by decide) (by omega)
    have hdiv :
      (2 ^ 31 + double.fraction x.toNat / 2 ^ 21) / 2 ^ (905 - double.exponent x.toNat) ≤
        (2 ^ 31 + double.fraction x.toNat / 2 ^ 21) / 2 ^ 9 :=
      Nat.div_le_div_left hpow (by decide)
    omega
  unfold convertPpcDoubleToSingleBits
  dsimp only
  rw [if_pos ((denormal_test x).mpr ⟨hlow, hhigh⟩), BitVec.toNat_or, BitVec.toNat_ushiftRight,
    BitVec.toNat_setWidth, BitVec.toNat_setWidth, hone, hamount, hsign,
    Nat.mod_eq_of_lt (by omega), Nat.mod_eq_of_lt (by omega), Nat.shiftRight_eq_div_pow, hshift,
    Nat.or_comm, or_add hsmall]

end

/-! ## The widened single -/

section

variable {s e f : Nat}

theorem double_pack_toNat (hs : s < 2) (he : e < 2 ^ 11) (hf : f < 2 ^ 52) :
    (BitVec.ofNat 64 (double.pack s e f)).toNat = double.pack s e f := by
  rw [BitVec.toNat_ofNat]
  exact Nat.mod_eq_of_lt (pack_lt hs he hf)

/-- The fields of the single. -/
theorem single_fields (w : Word) : w.toNat = single.sign w.toNat * 2 ^ 31 +
    single.exponent w.toNat * 2 ^ 23 + single.fraction w.toNat := by
  have hpack := pack_fields (F := single) w.toNat
  rw [pack] at hpack
  simp only [single] at hpack ⊢
  omega

theorem single_sign_lt (w : Word) : single.sign w.toNat < 2 := by
  have := w.isLt
  simp only [sign, single]
  omega

/-- The bounds of the leading one of a denormal. -/
theorem log2_bounds (hf : f < 2 ^ 23) (hne : f ≠ 0) :
    f.log2 ≤ 22 ∧ 2 ^ 52 ≤ f * 2 ^ (52 - f.log2) ∧ f * 2 ^ (52 - f.log2) < 2 ^ 53 := by
  have hlog : f.log2 ≤ 22 := Nat.le_of_lt_succ ((Nat.log2_lt hne).mpr hf)
  have hlow := Nat.log2_self_le hne
  have hhigh := Nat.lt_log2_self (n := f)
  refine ⟨hlog, ?_, ?_⟩
  · calc 2 ^ 52 = 2 ^ f.log2 * 2 ^ (52 - f.log2) := by rw [← Nat.pow_add]; congr 1; omega
      _ ≤ f * 2 ^ (52 - f.log2) := Nat.mul_le_mul_right _ hlow
  · calc f * 2 ^ (52 - f.log2) < 2 ^ (f.log2 + 1) * 2 ^ (52 - f.log2) :=
          Nat.mul_lt_mul_of_pos_right hhigh (Nat.two_pow_pos _)
      _ = 2 ^ 53 := by rw [← Nat.pow_add]; congr 1; omega

/-- What is taken of a double whose fraction is that of a single. -/
theorem convert_pack (hs : s < 2) (he : e < 2 ^ 11) (hf : f < 2 ^ 23)
    (h : ¬(874 ≤ e ∧ e ≤ 896)) :
    (convertPpcDoubleToSingleBits (BitVec.ofNat 64 (double.pack s e (f * 2 ^ 29)))).toNat =
      s * 2 ^ 31 + e / 2 ^ 10 * 2 ^ 30 + e % 2 ^ 7 * 2 ^ 23 + f := by
  have hf' : f * 2 ^ 29 < 2 ^ 52 := by omega
  have hexp : double.exponent (BitVec.ofNat 64 (double.pack s e (f * 2 ^ 29))).toNat = e := by
    rw [double_pack_toNat hs he hf', exponent_pack he hf']
  rw [convert_normal _ (by rw [hexp]; exact h), hexp, double_pack_toNat hs he hf',
    sign_pack he hf', fraction_pack hf', Nat.mul_div_cancel _ (by decide)]

/-- A stored single comes back. -/
theorem convert_singleToDouble (w : Word) :
    convertPpcDoubleToSingleBits (singleToDouble w) = w := by
  apply BitVec.eq_of_toNat_eq
  have hfields := single_fields w
  have hs := single_sign_lt w
  have he : single.exponent w.toNat < 2 ^ 8 := exponent_lt single w.toNat
  have hf : single.fraction w.toNat < 2 ^ 23 := fraction_lt single w.toNat
  unfold singleToDouble
  dsimp only
  generalize single.sign w.toNat = s at *
  generalize single.exponent w.toNat = e at *
  generalize single.fraction w.toNat = f at *
  by_cases hspecial : e = 255
  · rw [if_pos hspecial, convert_pack hs (by decide) hf (by decide)]
    omega
  · rw [if_neg hspecial]
    by_cases hnormal : e ≠ 0
    · rw [if_pos hnormal, convert_pack hs (by omega) hf (by omega)]
      omega
    · rw [if_neg hnormal]
      by_cases hzero : f = 0
      · have hpack := convert_pack (e := 0) (f := 0) hs (by decide) (by decide) (by decide)
        rw [Nat.zero_mul] at hpack
        rw [if_pos hzero, hpack]
        omega
      · rw [if_neg hzero]
        obtain ⟨hlog, hlow, hhigh⟩ := log2_bounds hf hzero
        have hfrac : f * 2 ^ (52 - f.log2) - 2 ^ 52 < 2 ^ 52 := by omega
        have hexp : 874 + f.log2 < 2 ^ 11 := by omega
        have hnat := double_pack_toNat hs hexp hfrac
        have hexponent : double.exponent (BitVec.ofNat 64 (double.pack s (874 + f.log2)
            (f * 2 ^ (52 - f.log2) - 2 ^ 52))).toNat = 874 + f.log2 := by
          rw [hnat, exponent_pack hexp hfrac]
        have hshift : 926 - (874 + f.log2) = 52 - f.log2 := by omega
        rw [convert_denormal _ (by omega) (by omega), hexponent, hnat, sign_pack hexp hfrac,
          fraction_pack hfrac, Nat.add_sub_cancel' hlow, hshift,
          Nat.mul_div_cancel _ (Nat.two_pow_pos _)]
        omega

/-- The widened single has the value of the single. -/
theorem singleToDouble_magnitude (w : Word) (hfinite : single.exponent w.toNat ≠ 255) :
    double.magnitude (singleToDouble w).toNat = single.magnitude w.toNat := by
  have hs := single_sign_lt w
  have he : single.exponent w.toNat < 2 ^ 8 := exponent_lt single w.toNat
  have hf : single.fraction w.toNat < 2 ^ 23 := fraction_lt single w.toNat
  have hsplit : ∀ (m k : ℕ) (z : ℤ), ((m * 2 ^ k : ℕ) : ℚ) * 2 ^ z = m * 2 ^ (z + k) := by
    intro m k z
    push_cast
    rw [zpow_add₀ (by decide), zpow_natCast]
    ring
  have hsingle : single.magnitude w.toNat =
      ((if single.exponent w.toNat = 0 then single.fraction w.toNat
        else 2 ^ 23 + single.fraction w.toNat : ℕ) : ℚ) *
        2 ^ single.scale (single.exponent w.toNat) := rfl
  rw [hsingle]
  unfold singleToDouble
  dsimp only
  generalize single.sign w.toNat = s at *
  generalize single.exponent w.toNat = e at *
  generalize single.fraction w.toNat = f at *
  rw [if_neg hfinite]
  by_cases hnormal : e ≠ 0
  · have hfrac : f * 2 ^ 29 < 2 ^ 52 := by omega
    have hexp : e + 896 < 2 ^ 11 := by omega
    have hsum : 2 ^ 52 + f * 2 ^ 29 = (2 ^ 23 + f) * 2 ^ 29 := by omega
    have hscale : double.scale (e + 896) + (29 : ℕ) = single.scale e := by
      simp only [scale, bias, double, single]
      omega
    rw [if_pos hnormal, double_pack_toNat hs hexp hfrac, magnitude_pack hexp hfrac,
      if_neg (by omega), if_neg hnormal]
    change ((2 ^ 52 + f * 2 ^ 29 : ℕ) : ℚ) * _ = _
    rw [hsum, hsplit, hscale]
  · have hzero : e = 0 := not_not.mp hnormal
    rw [if_neg hnormal, if_pos hzero, hzero]
    by_cases hnone : f = 0
    · rw [if_pos hnone, double_pack_toNat hs (by decide) (by decide),
        magnitude_pack (by decide) (by decide), if_pos rfl, hnone, Nat.cast_zero,
        zero_mul, zero_mul]
    · obtain ⟨hlog, hlow, hhigh⟩ := log2_bounds hf hnone
      have hfrac : f * 2 ^ (52 - f.log2) - 2 ^ 52 < 2 ^ 52 := by omega
      have hexp : 874 + f.log2 < 2 ^ 11 := by omega
      have hscale : double.scale (874 + f.log2) + ((52 - f.log2 : ℕ) : ℤ) = single.scale 0 := by
        simp only [scale, bias, double, single]
        omega
      rw [if_neg hnone, double_pack_toNat hs hexp hfrac, magnitude_pack hexp hfrac,
        if_neg (by omega)]
      change ((2 ^ 52 + (f * 2 ^ (52 - f.log2) - 2 ^ 52) : ℕ) : ℚ) * _ = _
      rw [Nat.add_sub_cancel' hlow, hsplit, hscale]

end

/-! ## The denormal range -/

/-- The magnitude in units of the least denormal single. -/
theorem magnitude_units {x : Nat} (hlow : 874 ≤ double.exponent x)
    (hhigh : double.exponent x ≤ 896) :
    ⌊double.magnitude x / 2 ^ (-149 : ℤ)⌋₊ =
      (2 ^ 52 + double.fraction x) / 2 ^ (926 - double.exponent x) := by
  have hscale : double.scale (double.exponent x) - (-149) =
      -((926 - double.exponent x : ℕ) : ℤ) := by
    simp only [scale, bias, double] at *
    omega
  have hunits : double.magnitude x / 2 ^ (-149 : ℤ) =
      ((2 ^ 52 + double.fraction x : ℕ) : ℚ) /
        ((2 ^ (926 - double.exponent x) : ℕ) : ℚ) := by
    unfold magnitude significand
    rw [if_neg (by omega), mul_div_assoc, ← zpow_sub₀ (by decide), hscale,
      zpow_neg, zpow_natCast,
      div_eq_mul_inv, Nat.cast_pow, Nat.cast_ofNat]
    rfl
  rw [hunits]
  exact Nat.floor_div_eq_div _ _

/-- A single survives its widening and a store, and a double between 2^-149 and the normal
range is stored as the denormal with its sign and its magnitude rounded toward zero. -/
theorem single_stores_narrow_like_stfs :
    (∀ w, convertPpcDoubleToSingleBits (singleToDouble w) = w) ∧
    ∀ x : Word64, 874 ≤ double.exponent x.toNat → double.exponent x.toNat ≤ 896 →
      single.sign (convertPpcDoubleToSingleBits x).toNat = double.sign x.toNat ∧
      single.exponent (convertPpcDoubleToSingleBits x).toNat = 0 ∧
      single.significand (convertPpcDoubleToSingleBits x).toNat =
        ⌊double.magnitude x.toNat / 2 ^ (-149 : ℤ)⌋₊ := by
  refine ⟨convert_singleToDouble, fun x hlow hhigh => ?_⟩
  have hf := double_fraction_lt x
  have hbound : (2 ^ 52 + double.fraction x.toNat) / 2 ^ (926 - double.exponent x.toNat) <
      2 ^ 23 := by
    have hpow : 2 ^ 30 ≤ 2 ^ (926 - double.exponent x.toNat) :=
      Nat.pow_le_pow_right (by decide) (by omega)
    have hdiv : (2 ^ 52 + double.fraction x.toNat) / 2 ^ (926 - double.exponent x.toNat) ≤
        (2 ^ 52 + double.fraction x.toNat) / 2 ^ 30 := Nat.div_le_div_left hpow (by decide)
    omega
  have hpack : (convertPpcDoubleToSingleBits x).toNat = single.pack (double.sign x.toNat) 0
      ((2 ^ 52 + double.fraction x.toNat) / 2 ^ (926 - double.exponent x.toNat)) := by
    rw [convert_denormal x hlow hhigh]
    simp only [pack, single]
    omega
  have hexp : single.exponent (convertPpcDoubleToSingleBits x).toNat = 0 := by
    rw [hpack, exponent_pack (by decide) hbound]
  refine ⟨?_, hexp, ?_⟩
  · rw [hpack, sign_pack (by decide) hbound]
  · rw [significand, if_pos hexp, hpack, fraction_pack hbound, magnitude_units hlow hhigh]

/-- Half of the least normal single, 2^-127. -/
theorem half_of_the_least_normal_is_a_denormal :
    single.significand (convertPpcDoubleToSingleBits 0x3800000000000000#64).toNat =
      ⌊double.magnitude (0x3800000000000000#64).toNat / 2 ^ (-149 : ℤ)⌋₊ :=
  (single_stores_narrow_like_stfs.2 0x3800000000000000#64 (by decide) (by decide)).2.2

/-! ## Stores and loads -/

/-- A loaded single that was widened and stored again is loaded as it was. -/
theorem read_of_written_float {config : List RegionConfig} {s : Machine Memory}
    (hs : Serves config s.mem) {addr : Word} (hin : InOneRegion config addr.toNat 4) (w : Word) :
    ∃ m, writeFloat32Slow addr (singleToDouble w) s = .ret () (s.withMem m) ∧
      readFloat32Slow addr (s.withMem m) = .ret w (s.withMem m) := by
  obtain ⟨m, hw⟩ := hs.write32_some hin w
  refine ⟨m, ?_, read32_ret (hs.read_written (k := .w32) hw)⟩
  unfold writeFloat32Slow
  rw [convert_singleToDouble]
  exact write32_ret hw

end wii_switch
