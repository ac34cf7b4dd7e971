-- A bounded queue in a ring of slots. The contents start at one slot and go around the
-- ring; an element goes in behind them and comes out in front, and none of them moves.
import Mathlib.Data.List.Range
import Mathlib.Data.Nat.ModEq
import Mathlib.Logic.Function.Basic

namespace Fifo

variable {α : Type} {slots slots' : Nat → α} {count first used : Nat}

/-- The first `used` elements of the ring of `count` slots, from the slot `first` on. -/
def contents (slots : Nat → α) (count first used : Nat) : List α :=
  (List.range used).map fun i => slots ((first + i) % count)

/-- The contents fit into the ring and start inside it; a ring may have no slots at all. -/
structure Fits (count first used : Nat) : Prop where
  used_le : used ≤ count
  first_le : first < count ∨ (count = 0 ∧ first = 0)

@[simp] theorem length_contents (slots : Nat → α) (count first used : Nat) :
    (contents slots count first used).length = used := by simp [contents]

@[simp] theorem contents_zero (slots : Nat → α) (count first : Nat) :
    contents slots count first 0 = [] := rfl

/-- Only the slots of the ring matter. -/
theorem contents_congr (hcount : 0 < count) (h : ∀ i < count, slots' i = slots i) :
    contents slots' count first used = contents slots count first used := by
  apply List.map_congr_left
  intro i _
  exact h _ (Nat.mod_lt _ hcount)

/-- The element in front comes out. -/
theorem contents_succ (h : first < count) : contents slots count first (used + 1) =
    slots first :: contents slots count ((first + 1) % count) used := by
  unfold contents
  rw [List.range_succ_eq_map, List.map_cons, List.map_map, Nat.add_zero, Nat.mod_eq_of_lt h]
  congr 1
  apply List.map_congr_left
  intro i _
  rw [Function.comp_apply, Nat.mod_add_mod]
  congr 2
  omega

/-- An element goes in behind the contents. -/
theorem contents_push (h : used < count) (x : α) :
    contents (Function.update slots ((first + used) % count) x) count first (used + 1) =
      contents slots count first used ++ [x] := by
  unfold contents
  rw [List.range_succ, List.map_append, List.map_singleton, Function.update_self]
  congr 1
  apply List.map_congr_left
  intro i hi
  have hlt := List.mem_range.mp hi
  apply Function.update_of_ne
  intro heq
  have hmod : i ≡ used [MOD count] := Nat.ModEq.add_left_cancel' first heq
  exact absurd (hmod.eq_of_lt_of_lt (hlt.trans h) h) hlt.ne

theorem Fits.pos (h : Fits count first used) (hused : 0 < used) : first < count := by
  have := h.used_le
  have := h.first_le
  omega

theorem Fits.pop (h : Fits count first (used + 1)) : Fits count ((first + 1) % count) used := by
  have hpos := h.pos (Nat.succ_pos used)
  have := h.used_le
  exact ⟨by omega, Or.inl (Nat.mod_lt _ (by omega))⟩

theorem Fits.push (h : Fits count first used) (hused : used < count) :
    Fits count first (used + 1) := ⟨hused, h.first_le⟩

end Fifo
