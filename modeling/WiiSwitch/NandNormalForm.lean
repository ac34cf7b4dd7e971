-- Normalization as a canonical form. Behind a slash the loop starts a new part, so the
-- components of a path are those of its prefix with those of the rest worked into them.
-- The laws of the normal form are about what one component does to the components so far.
import WiiSwitch.NandPaths

namespace wii_switch

open Bytes Segments

/-! ## The loop over a prefix -/

section

variable {dataDir path path' a b x part : List Byte} {parts ps : List (List Byte)}

/-- Behind a slash the loop starts from the parts of what was before it. -/
theorem splitParts_append (a b part : List Byte) (parts : List (List Byte)) :
    splitParts (a ++ slash :: b) part parts = splitParts b [] (splitParts a part parts) := by
  induction a generalizing part parts with
  | nil => exact if_neg (not_not_intro rfl)
  | cons c a ih =>
    rw [List.cons_append, splitParts, splitParts]
    split
    · exact ih _ _
    · exact ih _ _

/-- The same for a whole path: the loop leaves out the first character. -/
theorem splitParts_tail_append (a b : List Byte) :
    splitParts (a ++ slash :: b).tail [] [] = splitParts b [] (splitParts a.tail [] []) := by
  cases a with
  | nil => rfl
  | cons c a => exact splitParts_append a b [] []

/-- The loop over one component. -/
theorem splitParts_component (hx : slash ∉ x) (part : List Byte) (parts : List (List Byte)) :
    splitParts x part parts = closePart (part ++ x) parts := by
  induction x generalizing part with
  | nil => rw [splitParts, List.append_nil]
  | cons c x ih =>
    rw [List.mem_cons, not_or] at hx
    rw [splitParts, if_pos (Ne.symm hx.1), ih hx.2, List.append_assoc, List.singleton_append]

theorem closePart_nil (parts : List (List Byte)) : closePart [] parts = parts := rfl

theorem closePart_dot (parts : List (List Byte)) : closePart [dot] parts = parts := rfl

theorem closePart_dots (parts : List (List Byte)) :
    closePart [dot, dot] parts = parts.dropLast := rfl

/-- A component goes to the end of the parts. -/
theorem closePart_plain (hx : IsComponent x) (parts : List (List Byte)) :
    closePart x parts = parts ++ [x] := by
  rw [closePart, if_neg hx.2.2.1, if_pos ⟨hx.1, hx.2.1⟩]

/-- The parts of a joined list are what was joined. -/
theorem splitParts_join (hx : IsComponent x) (h : ∀ y ∈ ps, IsComponent y)
    (parts : List (List Byte)) :
    splitParts (x ++ join slash ps) [] parts = parts ++ x :: ps := by
  induction ps generalizing x parts with
  | nil =>
    rw [join_nil, List.append_nil, splitParts_component hx.2.2.2.1, List.nil_append,
      closePart_plain hx]
  | cons y ps ih =>
    rw [join_cons, splitParts_append, splitParts_component hx.2.2.2.1, List.nil_append,
      closePart_plain hx, ih (h y List.mem_cons_self) fun z hz => h z (List.mem_cons_of_mem y hz),
      List.append_assoc, List.singleton_append]

/-! ## The parts of a path -/

theorem replaceBackslashes_append (a b : List Byte) :
    replaceBackslashes (a ++ b) = replaceBackslashes a ++ replaceBackslashes b := List.map_append ..

theorem replaceBackslashes_eq (h : backslash ∉ a) : replaceBackslashes a = a := by
  have hsame : ∀ c ∈ a, (if c = backslash then slash else c) = id c := by
    intro c hc
    rw [if_neg (by rintro rfl; exact h hc), id]
  rw [replaceBackslashes, List.map_congr_left hsame, List.map_id]

/-- The parts of a path up to a slash. -/
def partsBefore (dataDir a : List Byte) : List (List Byte) :=
  splitParts (rooted dataDir (replaceBackslashes a ++ [slash])).tail [] []

/-- The parts behind a slash work on the parts before it. -/
theorem partsOf_append (dataDir a b : List Byte) :
    partsOf dataDir (a ++ slash :: b) =
      splitParts (replaceBackslashes b) [] (partsBefore dataDir a) := by
  have hreplace : replaceBackslashes (a ++ slash :: b) =
      replaceBackslashes a ++ slash :: replaceBackslashes b := by
    rw [replaceBackslashes_append]
    rfl
  have hsplit : ∀ p q : List Byte, splitParts (p ++ slash :: q).tail [] [] =
      splitParts q [] (splitParts (p ++ [slash]).tail [] []) := by
    intro p q
    rw [splitParts_tail_append, splitParts_tail_append]
    rfl
  unfold partsOf partsBefore
  rw [hreplace]
  unfold rooted
  cases ha : replaceBackslashes a with
  | nil => exact hsplit [] _
  | cons c l =>
    rw [List.cons_append, List.cons_append, List.head?_cons, List.head?_cons]
    split
    · have h := hsplit (dataDir ++ slash :: (c :: l)) (replaceBackslashes b)
      simpa using h
    · exact hsplit (c :: l) _

/-- A component, and the rest behind it. -/
theorem partsOf_component (hx : slash ∉ x ∧ backslash ∉ x) (dataDir a b : List Byte) :
    partsOf dataDir (a ++ slash :: (x ++ slash :: b)) =
      splitParts (replaceBackslashes b) [] (closePart x (partsBefore dataDir a)) := by
  have hreplace : replaceBackslashes (x ++ slash :: b) = x ++ slash :: replaceBackslashes b := by
    rw [replaceBackslashes_append, replaceBackslashes_eq hx.2]
    rfl
  rw [partsOf_append, hreplace, splitParts_append, splitParts_component hx.1, List.nil_append]

/-- Paths with the same parts have the same normal form. -/
theorem normalize_congr (hne : path ≠ []) (hne' : path' ≠ [])
    (h : partsOf dataDir path = partsOf dataDir path') :
    normalize dataDir path = normalize dataDir path' := by
  rw [normalize_eq hne, normalize_eq hne', h]

/-! ## The laws -/

/-- The laws of a canonical form of paths, with relative paths in a data directory. -/
structure CanonicalForm (dataDir : List Byte) (norm : List Byte → List Byte) : Prop where
  idempotent : ∀ p, norm (norm p) = norm p
  up : ∀ a b x, IsComponent x →
    norm (a ++ [slash] ++ x ++ [slash, dot, dot, slash] ++ b) = norm (a ++ [slash] ++ b)
  here : ∀ a b, norm (a ++ [slash, dot, slash] ++ b) = norm (a ++ [slash] ++ b)
  doubled : ∀ a b, norm (a ++ [slash, slash] ++ b) = norm (a ++ [slash] ++ b)
  backslashes : ∀ p q, List.Forall₂ (fun c d => d = c ∨ c = slash ∧ d = backslash) p q →
    norm q = norm p
  relative : ∀ p c rest, p = c :: rest → c ≠ slash → c ≠ backslash →
    norm p = norm (dataDir ++ [slash] ++ p)

end

section

variable {p q : List Byte} (code : Word)

/-- A normal form is its own normal form. -/
theorem normalize_idempotent (p : List Byte) :
    normalize (currentDataDir code) (normalize (currentDataDir code) p) =
      normalize (currentDataDir code) p := by
  by_cases hp : p = []
  · subst hp
    rfl
  have hparts := partsOf_components code p
  rw [normalize_eq hp]
  cases hps : partsOf (currentDataDir code) p with
  | nil => rfl
  | cons x ps =>
    rw [hps] at hparts
    have hx := hparts x List.mem_cons_self
    have hrest : ∀ y ∈ ps, IsComponent y := fun y hy => hparts y (List.mem_cons_of_mem x hy)
    have hback : backslash ∉ join slash (x :: ps) := by
      intro hmem
      obtain ⟨y, hy, hmem⟩ := List.mem_flatMap.mp hmem
      rcases List.mem_cons.mp hmem with h | h
      · exact absurd h (by decide)
      · exact (hparts y hy).2.2.2.2 h
    have hsame : partsOf (currentDataDir code) (join slash (x :: ps)) = x :: ps := by
      unfold partsOf
      rw [replaceBackslashes_eq hback, join_cons, rooted, List.head?_cons,
        if_neg (not_not_intro rfl), List.tail_cons, splitParts_join hx hrest, List.nil_append]
    rw [if_neg (List.cons_ne_nil x ps), normalize_eq (by simp), hsame,
      if_neg (List.cons_ne_nil x ps)]

/-- A slash and a backslash are the same. -/
theorem replaceBackslashes_congr
    (h : List.Forall₂ (fun c d => d = c ∨ c = slash ∧ d = backslash) p q) :
    replaceBackslashes q = replaceBackslashes p := by
  induction h with
  | nil => rfl
  | @cons c d p q hcd _ ih =>
    rw [replaceBackslashes, replaceBackslashes, List.map_cons, List.map_cons]
    have hhead : (if d = backslash then slash else d) = if c = backslash then slash else c := by
      rcases hcd with rfl | ⟨rfl, rfl⟩
      · rfl
      · rfl
    rw [hhead]
    exact congrArg _ ih

/-- Normalization gives a canonical form, for every word at the disc header. -/
theorem normalization_is_a_canonical_form (low : Option Word) :
    CanonicalForm (currentDataDir (currentGameCode low))
      (normalize (currentDataDir (currentGameCode low))) where
  idempotent := normalize_idempotent (currentGameCode low)
  up := by
    intro a b x hx
    apply normalize_congr (by simp) (by simp)
    have hsplit : a ++ [slash] ++ x ++ [slash, dot, dot, slash] ++ b =
        a ++ slash :: (x ++ slash :: ([dot, dot] ++ slash :: b)) := by simp
    have hdots : replaceBackslashes ([dot, dot] ++ slash :: b) =
        [dot, dot] ++ slash :: replaceBackslashes b := rfl
    have hslash : a ++ [slash] ++ b = a ++ slash :: b := by simp
    have hplain : slash ∉ [dot, dot] := by decide
    rw [hsplit, partsOf_component hx.2.2.2, hdots, splitParts_append, splitParts_component hplain,
      List.nil_append, closePart_plain hx, closePart_dots, List.dropLast_concat, hslash,
      partsOf_append]
  here := by
    intro a b
    apply normalize_congr (by simp) (by simp)
    have hsplit : a ++ [slash, dot, slash] ++ b = a ++ slash :: ([dot] ++ slash :: b) := by simp
    have hslash : a ++ [slash] ++ b = a ++ slash :: b := by simp
    rw [hsplit, partsOf_component (by decide), closePart_dot, hslash, partsOf_append]
  doubled := by
    intro a b
    apply normalize_congr (by simp) (by simp)
    have hsplit : a ++ [slash, slash] ++ b = a ++ slash :: ([] ++ slash :: b) := by simp
    have hslash : a ++ [slash] ++ b = a ++ slash :: b := by simp
    rw [hsplit, partsOf_component (by decide), closePart_nil, hslash, partsOf_append]
  backslashes := by
    intro p q hpq
    unfold normalize
    rw [replaceBackslashes_congr hpq]
  relative := by
    rintro p c rest rfl hslash hback
    apply normalize_congr (by simp) (by simp)
    have hdata := backslash_not_mem_dataDir (currentGameCode low)
    have hreplace : replaceBackslashes
        (currentDataDir (currentGameCode low) ++ [slash] ++ c :: rest) =
        currentDataDir (currentGameCode low) ++ slash :: replaceBackslashes (c :: rest) := by
      rw [replaceBackslashes_append, replaceBackslashes_append, replaceBackslashes_eq hdata]
      simp [replaceBackslashes]
    have hhead : (replaceBackslashes (c :: rest)).head? ≠ some slash := by
      simpa [replaceBackslashes, hback] using hslash
    have habsolute : (currentDataDir (currentGameCode low) ++
        slash :: replaceBackslashes (c :: rest)).head? = some slash := rfl
    unfold partsOf
    rw [hreplace, rooted, if_pos hhead, rooted, if_neg (not_not_intro habsolute)]

end

end wii_switch
