-- Queues by level. The elements of a level wait in the order of their arrival, and
-- the least level that has one is served first. One more element goes to the end of
-- its level; the element that is served leaves from the front of its own.
import Mathlib.Order.WellFounded
import Mathlib.Logic.Function.Basic

namespace Levels

variable {ι τ : Type} [LinearOrder ι]

/-- The element `t` is at the front of the least level that has one. -/
structure Served (qs : ι → List τ) (p : ι) (t : τ) : Prop where
  front : (qs p).head? = some t
  least : ∀ p' < p, qs p' = []

/-- The element `t` at the end of the level `p`. -/
def arrive (qs : ι → List τ) (p : ι) (t : τ) : ι → List τ :=
  Function.update qs p (qs p ++ [t])

/-- The level `p` without its first element. -/
def leave (qs : ι → List τ) (p : ι) : ι → List τ := Function.update qs p (qs p).tail

variable {qs : ι → List τ} {p p' : ι} {t u : τ}

@[simp] theorem arrive_same : arrive qs p t p = qs p ++ [t] := Function.update_self ..

theorem arrive_other (h : p' ≠ p) : arrive qs p t p' = qs p' := Function.update_of_ne h ..

@[simp] theorem leave_same : leave qs p p = (qs p).tail := Function.update_self ..

theorem leave_other (h : p' ≠ p) : leave qs p p' = qs p' := Function.update_of_ne h ..

theorem mem_arrive : u ∈ arrive qs p t p' ↔ u ∈ qs p' ∨ (p' = p ∧ u = t) := by
  by_cases h : p' = p
  · subst h
    simp
  · simp [arrive_other h, h]

theorem mem_of_mem_leave (h : u ∈ leave qs p p') : u ∈ qs p' := by
  by_cases hp : p' = p
  · subst hp
    rw [leave_same] at h
    exact List.mem_of_mem_tail h
  · rwa [leave_other hp] at h

theorem Served.split (h : Served qs p t) : ∃ xs, qs p = t :: xs := by
  obtain ⟨xs, hxs⟩ := List.head?_eq_some_iff.mp h.front
  exact ⟨xs, hxs⟩

theorem Served.mem (h : Served qs p t) : t ∈ qs p := List.mem_of_head? h.front

/-- No element waits at a smaller level. -/
theorem Served.le_of_mem (h : Served qs p t) (hu : u ∈ qs p') : p ≤ p' := by
  refine le_of_not_gt fun hlt => ?_
  rw [h.least p' hlt] at hu
  exact List.not_mem_nil hu

theorem Served.unique (h : Served qs p t) (h' : Served qs p' u) : p = p' ∧ t = u := by
  have hp : p = p' := le_antisymm (h.le_of_mem h'.mem) (h'.le_of_mem h.mem)
  subst hp
  exact ⟨rfl, Option.some.inj (h.front.symm.trans h'.front)⟩

/-- When something waits, something is served. -/
theorem exists_served [WellFoundedLT ι] (h : ∃ p, qs p ≠ []) : ∃ p t, Served qs p t := by
  obtain ⟨p, hp, hmin⟩ := WellFounded.has_min (wellFounded_lt (α := ι)) {p | qs p ≠ []} h
  obtain ⟨t, xs, hxs⟩ := List.exists_cons_of_ne_nil hp
  refine ⟨p, t, by rw [hxs]; rfl, fun p' hp' => ?_⟩
  exact not_not.mp fun hne => hmin p' hne hp'

end Levels
