-- The binary search for the first place that is not below a key. It looks at a
-- predicate of places only, so it fits any array and any order of keys.
import Mathlib.Order.Basic

namespace LowerBound

/-- The search in `[lower, upper)`. -/
def search (below : Nat → Bool) (lower upper : Nat) : Nat :=
  if lower < upper then
    let middle := lower + (upper - lower) / 2
    if below middle then search below (middle + 1) upper else search below lower middle
  else lower
termination_by upper - lower

variable {below : Nat → Bool} {lower upper : Nat}

/-- The search stays in the range, whatever the predicate is. -/
theorem search_mem (h : lower ≤ upper) :
    lower ≤ search below lower upper ∧ search below lower upper ≤ upper := by
  fun_induction search below lower upper with
  | case1 lower upper hlt middle hb ih =>
    have := ih (by omega)
    omega
  | case2 lower upper hlt middle hb ih =>
    have := ih (by omega)
    omega
  | case3 lower upper hge => omega

/-- What is below the key stands before what is not. -/
def Sorted (below : Nat → Bool) (lower upper : Nat) : Prop :=
  ∀ i j, lower ≤ i → i < j → j < upper → below j = true → below i = true

/-- In a sorted range, the search ends at the first place that is not below the key. -/
theorem search_spec (hs : Sorted below lower upper) (h : lower ≤ upper) :
    (∀ i, lower ≤ i → i < search below lower upper → below i = true) ∧
      ∀ i, search below lower upper ≤ i → i < upper → below i = false := by
  fun_induction search below lower upper with
  | case1 lower upper hlt middle hb ih =>
    obtain ⟨hlow, hhigh⟩ := ih (fun i j hi => hs i j (by omega)) (by omega)
    refine ⟨fun i hi hlt' => ?_, hhigh⟩
    rcases Nat.lt_trichotomy i middle with him | rfl | him
    · exact hs i middle hi him (by omega) hb
    · exact hb
    · exact hlow i him hlt'
  | case2 lower upper hlt middle hb ih =>
    obtain ⟨hlow, hhigh⟩ := ih (fun i j hi hij hj => hs i j hi hij (by omega)) (by omega)
    refine ⟨hlow, fun i hi hlt' => ?_⟩
    rcases Nat.lt_trichotomy i middle with him | rfl | him
    · exact hhigh i hi him
    · simpa using hb
    · rw [← Bool.not_eq_true]
      exact fun hbi => hb (hs middle i (by omega) him hlt' hbi)
  | case3 lower upper hge =>
    exact ⟨fun i hi hlt => absurd hlt (by omega), fun i hi hlt => absurd hlt (by omega)⟩

/-- A place that is not below the key, with everything before it below, is found. -/
theorem search_eq (hs : Sorted below lower upper) {k : Nat} (hk : lower ≤ k) (hku : k < upper)
    (hnot : below k = false) (hbefore : ∀ i, lower ≤ i → i < k → below i = true) :
    search below lower upper = k := by
  obtain ⟨hlow, hhigh⟩ := search_spec hs (by omega)
  have hmem : lower ≤ search below lower upper ∧ search below lower upper ≤ upper :=
    search_mem (by omega)
  rcases Nat.lt_trichotomy (search below lower upper) k with h | h | h
  · have := hhigh _ (Nat.le_refl _) (by omega)
    rw [hbefore _ hmem.1 h] at this
    cases this
  · exact h
  · rw [hlow k hk h] at hnot
    cases hnot

end LowerBound
