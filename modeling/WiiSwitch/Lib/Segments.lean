-- The non-empty pieces of a list between separators, and the list that has given
-- pieces. Pieces that are not empty and have no separator in them come back from
-- the list that they make, so that list determines them.
import Mathlib.Data.List.Basic

namespace Segments

variable {α : Type} {sep : α} {l x : List α} {parts : List (List α)}

/-- The list with a separator before each piece. -/
def join (sep : α) (parts : List (List α)) : List α := parts.flatMap fun part => sep :: part

/-- A piece that has a place between separators. -/
def Plain (sep : α) (x : List α) : Prop := x ≠ [] ∧ sep ∉ x

@[simp] theorem join_nil : join sep [] = [] := rfl

@[simp] theorem join_cons : join sep (x :: parts) = sep :: (x ++ join sep parts) := rfl

theorem join_eq_nil : join sep parts = [] ↔ parts = [] := by
  cases parts with
  | nil => exact ⟨fun _ => rfl, fun _ => rfl⟩
  | cons x parts => simp

variable [DecidableEq α]

/-- The non-empty pieces between the separators. -/
def pieces (sep : α) (l : List α) : List (List α) :=
  match l with
  | [] => []
  | c :: rest =>
    if c = sep then pieces sep rest
    else
      (c :: rest.takeWhile (· ≠ sep)) :: pieces sep (rest.dropWhile (· ≠ sep))
termination_by l.length
decreasing_by
  · exact Nat.lt_succ_self _
  · exact Nat.lt_succ_of_le (List.dropWhile_sublist _).length_le

@[simp] theorem pieces_nil : pieces sep [] = [] := by rw [pieces]

@[simp] theorem pieces_sep : pieces sep (sep :: l) = pieces sep l := by rw [pieces, if_pos rfl]

theorem takeWhile_join (hx : sep ∉ x) : (x ++ join sep parts).takeWhile (· ≠ sep) = x := by
  rw [List.takeWhile_append_of_pos fun c hc => decide_eq_true (by rintro rfl; exact hx hc)]
  cases parts with
  | nil => simp
  | cons y parts => simp

theorem dropWhile_join (hx : sep ∉ x) :
    (x ++ join sep parts).dropWhile (· ≠ sep) = join sep parts := by
  rw [List.dropWhile_append_of_pos fun c hc => decide_eq_true (by rintro rfl; exact hx hc)]
  cases parts with
  | nil => simp
  | cons y parts => simp

/-- The first piece of a joined list. -/
theorem pieces_append (hx : Plain sep x) :
    pieces sep (x ++ join sep parts) = x :: pieces sep (join sep parts) := by
  obtain ⟨hne, hsep⟩ := hx
  cases x with
  | nil => exact absurd rfl hne
  | cons c x =>
    rw [List.mem_cons, not_or] at hsep
    rw [List.cons_append, pieces, if_neg (Ne.symm hsep.1), takeWhile_join hsep.2,
      dropWhile_join hsep.2]

/-- Pieces come back from the list that they make. -/
theorem pieces_join (h : ∀ x ∈ parts, Plain sep x) : pieces sep (join sep parts) = parts := by
  induction parts with
  | nil => exact pieces_nil
  | cons x parts ih =>
    rw [join_cons, pieces_sep, pieces_append (h x List.mem_cons_self),
      ih fun y hy => h y (List.mem_cons_of_mem x hy)]

end Segments
