-- Cells that writes fill. A write fills some of the cells and leaves the others as they are, so
-- after a history of writes a cell has the value of the last write that filled it.
import Mathlib.Logic.Function.Basic

namespace Cells

variable {κ ν σ α : Type}

/-- What a write puts in each cell, or nothing. -/
abbrev Fill (κ ν : Type) := κ → Option ν

/-- The cells after a write. -/
def Fill.on (w : Fill κ ν) (cells : κ → ν) : κ → ν := fun k => (w k).getD (cells k)

/-- The last value that a history puts in a cell. Histories are newest first. -/
def last : List (Fill κ ν) → Fill κ ν
  | [] => fun _ => none
  | w :: past => fun k => (w k).or (last past k)

/-- A history as a whole is one write, of the last values. -/
theorem foldr_on (past : List (Fill κ ν)) (cells : κ → ν) :
    past.foldr Fill.on cells = (last past).on cells := by
  induction past with
  | nil => rfl
  | cons w past ih =>
    funext k
    rw [List.foldr_cons, ih]
    unfold Fill.on
    cases hw : w k <;> simp [last, hw]

theorem last_eq_none {past : List (Fill κ ν)} {k : κ} :
    last past k = none ↔ ∀ w ∈ past, w k = none := by
  induction past with
  | nil => simp [last]
  | cons w past ih => simp [last, ih]

/-- Where each write puts one value in the cells that it hits, the last value is that of the newest
write that hits. -/
theorem last_map_eq_find (hit : α → κ → Bool) (value : α → ν) (past : List α) (k : κ) :
    last (past.map fun a k => if hit a k then some (value a) else none) k =
      (past.find? fun a => hit a k).map value := by
  induction past with
  | nil => rfl
  | cons a past ih =>
    rw [List.map_cons, List.find?_cons]
    unfold last
    rw [ih]
    cases hhit : hit a k <;> simp [hhit]

/-- The steps of a program on a state whose `view` are cells, each of them a write. -/
structure Steps (view : σ → κ → ν) (step : α → σ → σ)
    (fill : α → Fill κ ν) : Prop where
  step : ∀ a s, view (step a s) = (fill a).on (view s)

/-- A run of steps, newest first, leaves the last values. -/
theorem Steps.run {view : σ → κ → ν} {step : α → σ → σ} {fill : α → Fill κ ν}
    (h : Steps view step fill) (past : List α) (s : σ) :
    view (past.foldr step s) = (last (past.map fill)).on (view s) := by
  rw [← foldr_on]
  induction past with
  | nil => rfl
  | cons a past ih => rw [List.foldr_cons, h.step, ih, List.map_cons, List.foldr_cons]

end Cells
