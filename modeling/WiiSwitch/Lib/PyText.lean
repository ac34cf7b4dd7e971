-- Text as Python has it: a list of characters, its white space, its word characters,
-- its line breaks, and the lines of a text with their breaks.
import Mathlib.Data.List.Basic

namespace PyText

abbrev Text := List Char

/-! ## Characters -/

/-- `\s` of a regular expression. -/
def isSpace (c : Char) : Bool :=
  (9 ≤ c.toNat && c.toNat ≤ 13) || (28 ≤ c.toNat && c.toNat ≤ 32) ||
    c.toNat == 0x85 || c.toNat == 0xa0 || c.toNat == 0x1680 ||
    (0x2000 ≤ c.toNat && c.toNat ≤ 0x200a) || c.toNat == 0x2028 || c.toNat == 0x2029 ||
    c.toNat == 0x202f || c.toNat == 0x205f || c.toNat == 0x3000

/-- A character that ends a line for `splitlines`. -/
def isBreak (c : Char) : Bool :=
  (10 ≤ c.toNat && c.toNat ≤ 13) || (28 ≤ c.toNat && c.toNat ≤ 30) ||
    c.toNat == 0x85 || c.toNat == 0x2028 || c.toNat == 0x2029

/-- `\w` of a regular expression; `alnum` decides beyond ASCII. -/
def isWord (alnum : Char → Bool) (c : Char) : Bool :=
  if c.toNat < 128 then c.isAlphanum || c == '_' else alnum c

/-! ## Lines -/

/-- The lines with `a` before the first. -/
def glue (a : Text) : List Text → List Text
  | [] => [a]
  | l :: ls => (a ++ l) :: ls

/-- `splitlines(keepends=True)` -/
def splitLines : Text → List Text
  | [] => []
  | '\r' :: '\n' :: t => ['\r', '\n'] :: splitLines t
  | c :: t => if isBreak c then [c] :: splitLines t else glue [c] (splitLines t)

theorem flatten_glue (a : Text) (ls : List Text) : (glue a ls).flatten = a ++ ls.flatten := by
  cases ls <;> simp [glue]

theorem glue_glue (a b : Text) (ls : List Text) : glue a (glue b ls) = glue (a ++ b) ls := by
  cases ls <;> simp [glue]

theorem flatten_splitLines (t : Text) : (splitLines t).flatten = t := by
  induction t using splitLines.induct with
  | case1 => rfl
  | case2 t ih => simp [splitLines, ih]
  | case3 c t hcrlf hbreak ih =>
    rw [splitLines.eq_3 _ _ hcrlf, if_pos hbreak]
    simp [ih]
  | case4 c t hcrlf hbreak ih =>
    rw [splitLines.eq_3 _ _ hcrlf, if_neg hbreak, flatten_glue, ih]
    rfl

theorem splitLines_cons {c : Char} (hc : isBreak c = false) (t : Text) :
    splitLines (c :: t) = glue [c] (splitLines t) := by
  rw [splitLines.eq_3, if_neg (by simp [hc])]
  rintro u rfl -
  exact absurd hc (by decide)

/-- Text without a break only makes the first line longer. -/
theorem splitLines_append {a : Text} (ha : ∀ c ∈ a, isBreak c = false) (hne : a ≠ [])
    (t : Text) : splitLines (a ++ t) = glue a (splitLines t) := by
  induction a with
  | nil => exact absurd rfl hne
  | cons c a ih =>
    rw [List.cons_append, splitLines_cons (ha c List.mem_cons_self)]
    cases a with
    | nil => rfl
    | cons d a =>
      rw [ih (fun e he => ha e (List.mem_cons_of_mem _ he)) (List.cons_ne_nil d a), glue_glue]
      rfl

/-- A single break ends its line, unless it is the first half of `\r\n`. -/
theorem splitLines_break {c : Char} (hc : isBreak c = true) {t : Text}
    (ht : c = '\r' → t.head? ≠ some '\n') : splitLines (c :: t) = [c] :: splitLines t := by
  rw [splitLines.eq_3, if_pos hc]
  rintro u rfl rfl
  exact ht rfl rfl

/-- A text is empty, starts with a break, or starts within its first line. -/
theorem splitLines_cases (t : Text) : t = [] ∨
    (∃ e u, t = e ++ u ∧ e ≠ [] ∧ (∀ c ∈ e, isBreak c = true) ∧
      ∀ u', u'.head? = u.head? → splitLines (e ++ u') = e :: splitLines u') ∨
    ∃ c u, t = c :: u ∧ isBreak c = false := by
  cases t with
  | nil => exact Or.inl rfl
  | cons c t =>
    cases hc : isBreak c with
    | false => exact Or.inr (Or.inr ⟨c, t, rfl, hc⟩)
    | true =>
      apply Or.inr ∘ Or.inl
      by_cases hcrlf : c = '\r' ∧ t.head? = some '\n'
      · obtain ⟨rfl, ht⟩ := hcrlf
        obtain ⟨u, rfl⟩ := List.head?_eq_some_iff.mp ht
        refine ⟨['\r', '\n'], u, rfl, by simp, by simp [isBreak], ?_⟩
        intro u' _
        rfl
      · refine ⟨[c], t, rfl, by simp, by simpa using hc, ?_⟩
        intro u' hu
        exact splitLines_break hc fun hcr hn => hcrlf ⟨hcr, hu ▸ hn⟩

/-- Breaks stand only at the end. -/
def Unbroken : Text → Prop
  | [] => True
  | c :: t => (isBreak c = true → t = [] ∨ c = '\r' ∧ t = ['\n']) ∧ Unbroken t

theorem unbroken_splitLines (t : Text) : ∀ l ∈ splitLines t, Unbroken l := by
  induction t using splitLines.induct with
  | case1 => simp [splitLines]
  | case2 t ih =>
    rw [splitLines]
    simp only [List.mem_cons, forall_eq_or_imp]
    exact ⟨⟨fun _ => Or.inr ⟨rfl, rfl⟩, fun _ => Or.inl rfl, trivial⟩, ih⟩
  | case3 c t hcrlf hbreak ih =>
    rw [splitLines.eq_3 _ _ hcrlf, if_pos hbreak]
    simp only [List.mem_cons, forall_eq_or_imp]
    exact ⟨⟨fun _ => Or.inl rfl, trivial⟩, ih⟩
  | case4 c t hcrlf hbreak ih =>
    rw [splitLines.eq_3 _ _ hcrlf, if_neg hbreak]
    cases hl : splitLines t with
    | nil =>
      simp only [glue, List.mem_singleton, forall_eq]
      exact ⟨fun h => absurd h hbreak, trivial⟩
    | cons l ls =>
      rw [hl] at ih
      simp only [List.mem_cons, forall_eq_or_imp] at ih
      simp only [glue, List.mem_cons, forall_eq_or_imp]
      exact ⟨⟨fun h => absurd h hbreak, ih.1⟩, ih.2⟩

/-! ## Reading a file -/

/-- The text of a file that is read with universal newlines. -/
def readText : Text → Text
  | [] => []
  | '\r' :: '\n' :: t => '\n' :: readText t
  | '\r' :: t => '\n' :: readText t
  | c :: t => c :: readText t

theorem readText_of_not_mem {t : Text} (h : '\r' ∉ t) : readText t = t := by
  induction t using readText.induct with
  | case1 => rfl
  | case2 t ih => simp at h
  | case3 t hcrlf ih => simp at h
  | case4 c t hcrlf hcr ih =>
    rw [readText.eq_4 _ _ hcrlf hcr, ih fun ht => h (List.mem_cons_of_mem _ ht)]

theorem not_mem_readText (t : Text) : '\r' ∉ readText t := by
  induction t using readText.induct with
  | case1 => simp [readText]
  | case2 t ih => simp [readText, ih]
  | case3 t hcrlf ih => simp [readText.eq_3 _ hcrlf, ih]
  | case4 c t hcrlf hcr ih =>
    rw [readText.eq_4 _ _ hcrlf hcr]
    simp only [List.mem_cons, not_or]
    exact ⟨fun h => hcr h.symm, ih⟩

end PyText
