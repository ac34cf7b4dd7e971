-- Binary floating point formats by their bit patterns: the fields of a pattern, the pattern of
-- three fields, and the magnitude of a finite pattern as a rational number.
import Mathlib.Algebra.Order.Field.Rat
import Mathlib.Tactic.Positivity
import Mathlib.Tactic.Ring

/-- The bits of the exponent and of the fraction. -/
structure FloatFormat where
  expBits : Nat
  fracBits : Nat

namespace FloatFormat

def single : FloatFormat := ⟨8, 23⟩
def double : FloatFormat := ⟨11, 52⟩

variable (F : FloatFormat)

/-! ## Fields -/

def fraction (x : Nat) : Nat := x % 2 ^ F.fracBits
def exponent (x : Nat) : Nat := x / 2 ^ F.fracBits % 2 ^ F.expBits
def sign (x : Nat) : Nat := x / 2 ^ (F.expBits + F.fracBits)

/-- The pattern with these fields. -/
def pack (s e f : Nat) : Nat := (s * 2 ^ F.expBits + e) * 2 ^ F.fracBits + f

theorem fraction_lt (x : Nat) : F.fraction x < 2 ^ F.fracBits := Nat.mod_lt _ (by positivity)

theorem exponent_lt (x : Nat) : F.exponent x < 2 ^ F.expBits := Nat.mod_lt _ (by positivity)

variable {F}

theorem fraction_pack {s e f : Nat} (hf : f < 2 ^ F.fracBits) : F.fraction (F.pack s e f) = f := by
  rw [fraction, pack, Nat.mul_add_mod', Nat.mod_eq_of_lt hf]

theorem pack_div {s e f : Nat} (hf : f < 2 ^ F.fracBits) :
    F.pack s e f / 2 ^ F.fracBits = s * 2 ^ F.expBits + e := by
  have hpos : 0 < 2 ^ F.fracBits := by positivity
  rw [pack, Nat.add_comm, Nat.add_mul_div_right _ _ hpos, Nat.div_eq_of_lt hf, Nat.zero_add]

theorem exponent_pack {s e f : Nat} (he : e < 2 ^ F.expBits) (hf : f < 2 ^ F.fracBits) :
    F.exponent (F.pack s e f) = e := by
  rw [exponent, pack_div hf, Nat.mul_add_mod', Nat.mod_eq_of_lt he]

theorem sign_pack {s e f : Nat} (he : e < 2 ^ F.expBits) (hf : f < 2 ^ F.fracBits) :
    F.sign (F.pack s e f) = s := by
  have hpos : 0 < 2 ^ F.expBits := by positivity
  rw [sign, Nat.add_comm, Nat.pow_add, ← Nat.div_div_eq_div_mul, pack_div hf, Nat.add_comm,
    Nat.add_mul_div_right _ _ hpos, Nat.div_eq_of_lt he, Nat.zero_add]

/-- A pattern is the pattern of its fields. -/
theorem pack_fields (x : Nat) : F.pack (F.sign x) (F.exponent x) (F.fraction x) = x := by
  have hsign : F.sign x = x / 2 ^ F.fracBits / 2 ^ F.expBits := by
    rw [sign, Nat.add_comm, Nat.pow_add, Nat.div_div_eq_div_mul]
  rw [pack, hsign, exponent, fraction, Nat.div_add_mod', Nat.div_add_mod']

theorem pack_lt {s e f : Nat} (hs : s < 2) (he : e < 2 ^ F.expBits) (hf : f < 2 ^ F.fracBits) :
    F.pack s e f < 2 ^ (1 + F.expBits + F.fracBits) := by
  have hhigh : s * 2 ^ F.expBits + e < 2 ^ (1 + F.expBits) := by
    rw [Nat.pow_add]
    have : s * 2 ^ F.expBits ≤ 1 * 2 ^ F.expBits := Nat.mul_le_mul_right _ (by omega)
    omega
  rw [pack, Nat.pow_add]
  calc (s * 2 ^ F.expBits + e) * 2 ^ F.fracBits + f
      < (s * 2 ^ F.expBits + e) * 2 ^ F.fracBits + 2 ^ F.fracBits := by omega
    _ = (s * 2 ^ F.expBits + e + 1) * 2 ^ F.fracBits := by ring
    _ ≤ 2 ^ (1 + F.expBits) * 2 ^ F.fracBits := Nat.mul_le_mul_right _ hhigh

/-! ## Values -/

variable (F)

def bias : Nat := 2 ^ (F.expBits - 1) - 1

/-- The power of two that a significand counts when the exponent field is `e`. -/
def scale (e : Nat) : ℤ := (max e 1 : ℤ) - F.bias - F.fracBits

/-- The significand: a denormal has no implied one. -/
def significand (x : Nat) : Nat :=
  if F.exponent x = 0 then F.fraction x else 2 ^ F.fracBits + F.fraction x

/-- The magnitude of a finite pattern. -/
def magnitude (x : Nat) : ℚ := F.significand x * 2 ^ F.scale (F.exponent x)

variable {F}

theorem magnitude_pack {s e f : Nat} (he : e < 2 ^ F.expBits) (hf : f < 2 ^ F.fracBits) :
    F.magnitude (F.pack s e f) =
      ((if e = 0 then f else 2 ^ F.fracBits + f : ℕ) : ℚ) * 2 ^ F.scale e := by
  rw [magnitude, significand, exponent_pack he hf, fraction_pack hf]

end FloatFormat
