-- Queues in the order of a priority. A value goes behind the values that are no later in the
-- order, so values of one priority stay in the order in which they came.
import Mathlib.Data.List.Perm.Basic
import Mathlib.Data.List.TakeWhile
import Mathlib.Order.Lattice

namespace StableQueue

variable {α κ : Type} [LinearOrder κ]

/-- The queue `xs` with `x` behind all values of no greater priority number. -/
def insert (prio : α → κ) (x : α) (xs : List α) : List α :=
  xs.takeWhile (fun y => prio y ≤ prio x) ++ x :: xs.dropWhile fun y => prio y ≤ prio x

/-- The queue `xs` has the values of `arrivals`, in the order of the priorities, and values of
one priority in the order in which they arrived. -/
structure Ordered (prio : α → κ) (arrivals xs : List α) : Prop where
  perm : xs.Perm arrivals
  sorted : xs.Pairwise fun x y => prio x ≤ prio y
  stable : ∀ k, xs.filter (fun x => prio x = k) = arrivals.filter fun x => prio x = k

variable {prio : α → κ} {arrivals xs ys : List α} {x : α}

theorem Ordered.nil (prio : α → κ) : Ordered prio [] [] :=
  ⟨.nil, .nil, fun _ => rfl⟩

theorem Ordered.mem_iff (h : Ordered prio arrivals xs) : x ∈ xs ↔
    x ∈ arrivals := h.perm.mem_iff

/-- Only the priorities of the values in the queue matter. -/
theorem Ordered.congr {prio' : α → κ} (h : Ordered prio arrivals xs)
    (hp : ∀ x ∈ xs, prio' x = prio x) : Ordered prio' arrivals xs := by
  refine ⟨h.perm, ?_, fun k => ?_⟩
  · refine h.sorted.imp_of_mem fun hx hy hle => ?_
    rw [hp _ hx, hp _ hy]
    exact hle
  · have hfilter : ∀ zs : List α, (∀ z ∈ zs, z ∈ xs) →
        zs.filter (fun x => prio' x = k) = zs.filter fun x => prio x = k := by
      intro zs hzs
      apply List.filter_congr
      intro z hz
      rw [hp z (hzs z hz)]
    rw [hfilter xs fun _ hz => hz, hfilter arrivals fun _ hz => h.mem_iff.mpr hz]
    exact h.stable k

/-- The values before the place of `x` are no greater. -/
theorem le_of_mem_takeWhile {y : α} (h : y ∈ xs.takeWhile fun y => prio y ≤ prio x) :
    prio y ≤ prio x := by
  have hle := List.mem_takeWhile_imp h
  exact of_decide_eq_true hle

/-- The values behind the place of `x` in a sorted queue are greater. -/
theorem lt_of_mem_dropWhile (hs : xs.Pairwise fun x y => prio x ≤ prio y) {y : α}
    (h : y ∈ xs.dropWhile fun y => prio y ≤ prio x) : prio x < prio y := by
  induction xs with
  | nil => cases h
  | cons z zs ih =>
    rw [List.dropWhile_cons] at h
    split at h
    · exact ih (List.pairwise_cons.mp hs).2 h
    · rename_i hz
      have hlt : prio x < prio z := by simpa using hz
      rcases List.mem_cons.mp h with rfl | hy
      · exact hlt
      · exact lt_of_lt_of_le hlt ((List.pairwise_cons.mp hs).1 y hy)

/-- A value arrives. -/
theorem Ordered.insert (h : Ordered prio arrivals xs) (x : α) :
    Ordered prio (arrivals ++ [x]) (insert prio x xs) := by
  have hsplit := List.takeWhile_append_dropWhile (p := fun y => decide (prio y ≤ prio x))
    (l := xs)
  have hpair := h.sorted
  rw [← hsplit, List.pairwise_append] at hpair
  refine ⟨?_, ?_, fun k => ?_⟩
  · unfold StableQueue.insert
    refine List.perm_middle.trans ?_
    rw [hsplit]
    exact (List.perm_append_singleton x xs).symm.trans (h.perm.append_right [x])
  · unfold StableQueue.insert
    rw [List.pairwise_append, List.pairwise_cons]
    refine ⟨hpair.1, ⟨fun y hy => ?_, hpair.2.1⟩, fun y hy z hz => ?_⟩
    · exact (lt_of_mem_dropWhile h.sorted hy).le
    · rcases List.mem_cons.mp hz with rfl | hz
      · exact le_of_mem_takeWhile hy
      · exact hpair.2.2 y hy z hz
  · unfold StableQueue.insert
    rw [List.filter_append, List.filter_append, ← h.stable k]
    have hold : xs.filter (fun y => prio y = k) =
        (xs.takeWhile fun y => prio y ≤ prio x).filter (fun y => prio y = k) ++
          (xs.dropWhile fun y => prio y ≤ prio x).filter fun y => prio y = k := by
      rw [← List.filter_append, hsplit]
    rw [hold]
    by_cases hk : prio x = k
    · -- no value of the priority stands behind the place of `x`
      have hnone : (xs.dropWhile fun y => prio y ≤ prio x).filter (fun y => prio y = k) = [] := by
        rw [List.filter_eq_nil_iff]
        intro y hy
        have hlt := lt_of_mem_dropWhile h.sorted hy
        simpa [← hk] using hlt.ne'
      rw [hnone, List.filter_cons_of_pos (by simpa using hk), hnone, List.append_nil,
        List.filter_cons_of_pos (by simpa using hk), List.filter_nil]
    · simp [hk]

/-- A value leaves. -/
theorem Ordered.erase [DecidableEq α] (h : Ordered prio arrivals xs)
    (hnd : arrivals.Nodup) (x : α) :
    Ordered prio (arrivals.erase x) (xs.erase x) := by
  have hnd' : xs.Nodup := h.perm.nodup_iff.mpr hnd
  refine ⟨h.perm.erase x, h.sorted.sublist (List.erase_sublist ..), fun k => ?_⟩
  rw [hnd.erase_eq_filter, hnd'.erase_eq_filter, List.filter_comm, h.stable k, List.filter_comm]

end StableQueue
