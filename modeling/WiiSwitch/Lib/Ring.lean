-- Doubly linked lists as rings. `fd` leads on and `bk` leads back; a sentinel `z`
-- stands before the first element and after the last one, so that the head of the
-- list is `fd z` and its tail is `bk z`. The two changes of a list, to link an
-- element in and to unlink one, then have no cases at the ends.
import Mathlib.Data.List.Basic
import Mathlib.Data.List.Nodup

namespace Ring

variable {α : Type} {fd bk fd' bk' : α → α} {a b z t x : α} {xs ys : List α}

/-- From `a` through `xs` to `b`, each step with its link on and its link back. -/
def Path (fd bk : α → α) : α → List α → α → Prop
  | a, [], b => fd a = b ∧ bk b = a
  | a, x :: xs, b => (fd a = x ∧ bk x = a) ∧ Path fd bk x xs b

/-- The list of the ring with the sentinel `z`. -/
def Linked (fd bk : α → α) (z : α) (xs : List α) : Prop :=
  Path fd bk z xs z ∧ (z :: xs).Nodup

@[simp] theorem path_nil : Path fd bk a [] b ↔ fd a = b ∧ bk b = a := Iff.rfl

@[simp] theorem path_cons :
    Path fd bk a (x :: xs) b ↔ (fd a = x ∧ bk x = a) ∧ Path fd bk x xs b := Iff.rfl

theorem path_append :
    Path fd bk a (xs ++ x :: ys) b ↔ Path fd bk a xs x ∧ Path fd bk x ys b := by
  induction xs generalizing a with
  | nil => simp
  | cons y xs ih => simp only [List.cons_append, path_cons, ih, and_assoc]

/-- The path the other way round. -/
theorem Path.reverse (h : Path fd bk a xs b) : Path bk fd b xs.reverse a := by
  induction xs generalizing a with
  | nil => exact ⟨h.2, h.1⟩
  | cons x xs ih =>
    rw [List.reverse_cons, path_append]
    exact ⟨ih h.2, h.1.2, h.1.1⟩

/-- A path does not see links outside it. -/
theorem Path.congr (h : Path fd bk a xs b) (hfd : ∀ x ∈ a :: xs, fd' x = fd x)
    (hbk : ∀ x ∈ xs ++ [b], bk' x = bk x) : Path fd' bk' a xs b := by
  induction xs generalizing a with
  | nil =>
    rw [path_nil, hfd a (by simp), hbk b (by simp)]
    exact h
  | cons x xs ih =>
    refine ⟨?_, ih h.2 (fun y hy => hfd y (by simp_all)) fun y hy => hbk y (by simp_all)⟩
    rw [hfd a (by simp), hbk x (by simp)]
    exact h.1

theorem Linked.congr (h : Linked fd bk z xs) (hfd : ∀ x ∈ z :: xs, fd' x = fd x)
    (hbk : ∀ x ∈ z :: xs, bk' x = bk x) : Linked fd' bk' z xs :=
  ⟨h.1.congr hfd fun x hx => hbk x (by simp_all [or_comm]), h.2⟩

/-- The first element, or the end when there is none. -/
theorem Path.fd_eq (h : Path fd bk a xs b) : fd a = (xs ++ [b]).head (by simp) := by
  cases xs with
  | nil => exact h.1
  | cons x xs => exact h.1.1

/-- The last element, or the start when there is none. -/
theorem Path.bk_mem (h : Path fd bk a xs b) : bk b ∈ a :: xs := by
  induction xs generalizing a with
  | nil => simp [h.2]
  | cons x xs ih => exact List.mem_cons_of_mem _ (ih h.2)

/-- The end of a path moves from `b` to `t` when the last link does. -/
theorem Path.retarget [DecidableEq α] (h : Path fd bk a xs b) (hn : (a :: xs).Nodup)
    (hfd : ∀ x ∈ a :: xs, fd' x = if x = bk b then t else fd x)
    (hbk : ∀ x ∈ xs, bk' x = bk x) (ht : bk' t = bk b) :
    Path fd' bk' a xs t := by
  induction xs generalizing a with
  | nil =>
    obtain ⟨_, h⟩ := h
    rw [path_nil, hfd a (by simp), ht, h, if_pos rfl]
    exact ⟨rfl, rfl⟩
  | cons x xs ih =>
    have hne : a ≠ bk b := by
      rintro rfl
      exact (List.nodup_cons.mp hn).1 h.2.bk_mem
    refine ⟨?_, ih h.2 (List.nodup_cons.mp hn).2 (fun y hy => ?_) fun y hy => ?_⟩
    · rw [hfd a (by simp), if_neg hne, hbk x (by simp)]
      exact h.1
    · exact hfd y (List.mem_cons_of_mem _ hy)
    · exact hbk y (List.mem_cons_of_mem _ hy)

/-! ## The links on alone -/

/-- From `a` through `xs` to `b`, by the links on. -/
def Forward (fd : α → α) : α → List α → α → Prop
  | a, [], b => fd a = b
  | a, x :: xs, b => fd a = x ∧ Forward fd x xs b

theorem Path.forward (h : Path fd bk a xs b) : Forward fd a xs b := by
  induction xs generalizing a with
  | nil => exact h.1
  | cons x xs ih => exact ⟨h.1.1, ih h.2⟩

/-- A chain that starts elsewhere, with the same first step. -/
theorem Forward.from (h : Forward fd a xs b) {a' : α} (hfd : fd' a' = fd a)
    (hxs : ∀ x ∈ xs, fd' x = fd x) : Forward fd' a' xs b := by
  induction xs generalizing a a' with
  | nil => exact hfd.trans h
  | cons x xs ih =>
    refine ⟨hfd.trans h.1, ih h.2 (hxs x List.mem_cons_self) fun y hy => ?_⟩
    exact hxs y (List.mem_cons_of_mem x hy)

/-! ## The two changes -/

/-- The element at which the second part of a ring starts, or the sentinel. -/
def first (ys : List α) (z : α) : α := ys.head?.getD z

@[simp] theorem first_nil : first [] z = z := rfl

@[simp] theorem first_cons : first (x :: ys) z = x := rfl

theorem first_mem : first ys z ∈ z :: ys := by
  cases ys with
  | nil => simp
  | cons y ys => simp

/-- Both parts of a ring, as paths. -/
theorem Linked.parts (h : Linked fd bk z (xs ++ ys)) :
    Path fd bk z xs (first ys z) ∧ (ys = [] ∨ Path fd bk (first ys z) ys.tail z) := by
  cases ys with
  | nil => exact ⟨by simpa using h.1, Or.inl rfl⟩
  | cons y ys =>
    have := path_append.mp h.1
    exact ⟨this.1, Or.inr this.2⟩

theorem Linked.fd_last (h : Linked fd bk z (xs ++ ys)) :
    fd (bk (first ys z)) = first ys z := by
  have hp := h.parts.1
  generalize first ys z = b at hp
  clear h
  induction xs generalizing z with
  | nil => rw [hp.2, hp.1]
  | cons x xs ih => exact ih hp.2

theorem Linked.bk_mem (h : Linked fd bk z (xs ++ ys)) : bk (first ys z) ∈ z :: xs :=
  h.parts.1.bk_mem

theorem Linked.fd_eq (h : Linked fd bk z xs) : fd z = first xs z := by
  cases xs with
  | nil => exact h.1.1
  | cons x xs => exact h.1.1.1

theorem Linked.bk_eq_of_cons (h : Linked fd bk z (x :: xs)) : bk x = z := h.1.1.2

/-- Link `t` in before `n`, which is the start of the second part or the sentinel. -/
theorem Linked.insert [DecidableEq α] (h : Linked fd bk z (xs ++ ys)) (ht : t ∉ z :: (xs ++ ys))
    {n : α} (hn : n = first ys z)
    (hfd : ∀ x, fd' x = if x = t then n else if x = bk n then t else fd x)
    (hbk : ∀ x, bk' x = if x = t then bk n else if x = n then t else bk x) :
    Linked fd' bk' z (xs ++ t :: ys) := by
  have hnd := h.2
  have hmem : bk n ∈ z :: xs := hn ▸ h.bk_mem
  have hmem' : n ∈ z :: ys := hn ▸ first_mem
  have hpath : Path fd bk z xs n := hn ▸ h.parts.1
  simp only [List.nodup_cons, List.nodup_append, List.mem_append, List.mem_cons]
    at ht hnd hmem hmem'
  refine ⟨path_append.mpr ⟨?_, ?_⟩, ?_⟩
  · refine hpath.retarget (by simp only [List.nodup_cons]; grind) (fun x hx => ?_)
      (fun x hx => ?_) ?_
    · rw [hfd, if_neg (by simp only [List.mem_cons] at hx; grind)]
    · rw [hbk, if_neg (by grind), if_neg (by grind)]
    · rw [hbk, if_pos rfl]
  · have hstart : fd' t = n ∧ bk' n = t := by
      rw [hfd, if_pos rfl, hbk, if_neg (by grind), if_pos rfl]
      exact ⟨rfl, rfl⟩
    cases ys with
    | nil => simpa [hn] using hstart
    | cons y ys =>
      rw [first_cons] at hn
      subst hn
      refine ⟨hstart, (path_append.mp h.1).2.congr (fun x hx => ?_) fun x hx => ?_⟩
      · rw [hfd, if_neg (by grind), if_neg (by grind)]
      · simp only [List.mem_append, List.mem_singleton] at hx
        rw [hbk, if_neg (by grind), if_neg (by grind)]
  · simp only [List.nodup_cons, List.nodup_append, List.mem_append, List.mem_cons]
    grind

/-- Unlink `t`. -/
theorem Linked.remove [DecidableEq α] (h : Linked fd bk z (xs ++ t :: ys))
    (hfd : ∀ x, x ≠ t → fd' x = if x = bk t then fd t else fd x)
    (hbk : ∀ x, x ≠ t → bk' x = if x = fd t then bk t else bk x) :
    Linked fd' bk' z (xs ++ ys) := by
  have hnd := h.2
  have hmem : bk t ∈ z :: xs := h.bk_mem
  obtain ⟨h1, h2⟩ := path_append.mp h.1
  have hnext : fd t = first ys z := by
    cases ys with
    | nil => exact h2.1
    | cons y ys => exact h2.1.1
  have hn : first ys z ∈ z :: ys := first_mem
  simp only [List.nodup_cons, List.nodup_append, List.mem_append, List.mem_cons] at hnd hmem hn
  refine ⟨?_, by simp only [List.nodup_cons, List.nodup_append, List.mem_append]; grind⟩
  have hpath : Path fd' bk' z xs (first ys z) := by
    refine h1.retarget (by simp only [List.nodup_cons]; grind) (fun x hx => ?_) (fun x hx => ?_) ?_
    · rw [hfd x (by simp only [List.mem_cons] at hx; grind), hnext]
    · rw [hbk x (by grind), if_neg (by grind)]
    · rw [hbk _ (by grind), if_pos hnext.symm]
  cases ys with
  | nil => simpa using hpath
  | cons y ys =>
    refine path_append.mpr ⟨hpath, h2.2.congr (fun x hx => ?_) fun x hx => ?_⟩
    · rw [hfd x (by grind), if_neg (by grind)]
    · simp only [List.mem_append, List.mem_singleton] at hx
      rw [first_cons] at hnext hn
      rw [hbk x (by grind), if_neg (by grind)]

end Ring
