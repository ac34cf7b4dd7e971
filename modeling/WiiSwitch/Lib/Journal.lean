-- A journal with room for so many entries. It takes what it is offered as long as there is room,
-- and only what it wants, so it holds the first of the offers that it wanted.
import Mathlib.Data.List.Basic

namespace Journal

variable {α : Type} {limit : Nat} {wants : α → Bool}

/-- The first `limit` of the offers, oldest first, that are wanted. -/
def kept (limit : Nat) (wants : α → Bool) (offers : List α) : List α :=
  (offers.filter wants).take limit

@[simp] theorem kept_nil : kept limit wants [] = [] := by
  simp [kept]

theorem length_kept_le (offers : List α) : (kept limit wants offers).length ≤ limit := by
  unfold kept
  rw [List.length_take]
  exact Nat.min_le_left _ _

/-- An offer that is wanted is taken while there is room. -/
theorem kept_concat_of_wanted {offers : List α} {x : α} (hx : wants x = true)
    (hroom : (kept limit wants offers).length < limit) :
    kept limit wants (offers ++ [x]) = kept limit wants offers ++ [x] := by
  have hall : (offers.filter wants).length < limit := by
    unfold kept at hroom
    rw [List.length_take] at hroom
    omega
  have hlong : (offers.filter wants ++ [x]).length ≤ limit := by
    rw [List.length_append, List.length_singleton]
    omega
  unfold kept
  rw [List.filter_append, List.filter_cons_of_pos hx, List.filter_nil,
    List.take_of_length_le hlong, List.take_of_length_le (Nat.le_of_lt hall)]

theorem kept_concat_of_unwanted {offers : List α} {x : α} (hx : wants x = false) :
    kept limit wants (offers ++ [x]) = kept limit wants offers := by
  unfold kept
  rw [List.filter_append, List.filter_cons_of_neg (by simp [hx]), List.filter_nil, List.append_nil]

/-- A full journal takes nothing. -/
theorem kept_concat_of_full {offers : List α} {x : α}
    (hfull : limit ≤ (kept limit wants offers).length) :
    kept limit wants (offers ++ [x]) = kept limit wants offers := by
  unfold kept at *
  rw [List.length_take] at hfull
  rw [List.filter_append, List.take_append_of_le_length (by omega)]

end Journal
