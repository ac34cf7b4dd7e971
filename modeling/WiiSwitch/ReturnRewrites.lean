-- The laws of the normalizer of returns: it only turns bare returns into typed ones, and
-- a second run changes nothing.
import WiiSwitch.TurnedReturns

namespace wii_switch.returns

open PyText

variable {alnum : Char → Bool}

/-! ## A turn of the scanner -/

/-- The turn substitutes in the line. -/
def Scan.rewrites (alnum : Char → Bool) (s : Scan) (line : Text) : Bool :=
  ((s.enter alnum line).pending || (s.enter alnum line).active) &&
    !(s.enter alnum line).prototype line && ((s.enter alnum line).advance line).active

/-- The scan after the turn. -/
def Scan.next (alnum : Char → Bool) (s : Scan) (line : Text) : Scan :=
  if (s.enter alnum line).prototype line then { s.enter alnum line with pending := false }
  else if s.rewrites alnum line then ((s.enter alnum line).advance line).leave
  else (s.enter alnum line).advance line

/-- The function that the turn counts. -/
def Scan.counted (alnum : Char → Bool) (s : Scan) (line : Text) : Nat :=
  if (s.enter alnum line).opens line then 1 else 0

theorem Scan.opens_not_prototype {s : Scan} {line : Text} (h : s.prototype line = true) :
    s.opens line = false := by
  unfold Scan.prototype at h
  unfold Scan.opens
  simp only [Bool.and_eq_true, Bool.not_eq_true'] at h
  rw [h.2, Bool.and_false]

/-- Only the line and the number of replacements depend on the substitution. -/
theorem normalizeLine_eq (s : Scan) (line : Text) : normalizeLine alnum s line =
    ⟨s.next alnum line, if s.rewrites alnum line then (subReturn alnum false 0 line).1 else line,
      s.counted alnum line,
      if s.rewrites alnum line then (subReturn alnum false 0 line).2 else 0⟩ := by
  unfold normalizeLine Scan.next Scan.counted Scan.rewrites
  generalize s.enter alnum line = s
  cases hproto : s.prototype line with
  | true =>
    have hpending : s.pending = true := by
      simp only [Scan.prototype, Bool.and_eq_true] at hproto
      exact hproto.1.1
    simp [hpending, hproto, Scan.opens_not_prototype hproto]
  | false =>
    cases hin : s.pending || s.active with
    | true =>
      cases hactive : (s.advance line).active <;> simp [hproto, hin, hactive]
    | false =>
      simp only [Bool.or_eq_false_iff] at hin
      simp [hin, Scan.opens, Scan.advance]

theorem Turned.enter_eq {x y : Text} (h : Turned x y) (s : Scan) :
    s.enter alnum x = s.enter alnum y := by
  unfold Scan.enter
  rw [h.funcStart_eq]

theorem Turned.semicolon {x y : Text} (h : Turned x y) : x.contains ';' = y.contains ';' :=
  h.contains (by decide) (by decide) (by decide)

theorem Turned.brace {x y : Text} (h : Turned x y) : x.contains '{' = y.contains '{' :=
  h.contains (by decide) (by decide) (by decide)

theorem Turned.prototype_eq {x y : Text} (h : Turned x y) (s : Scan) :
    s.prototype x = s.prototype y := by
  unfold Scan.prototype
  rw [h.semicolon, h.brace]

theorem Turned.opens_eq {x y : Text} (h : Turned x y) (s : Scan) : s.opens x = s.opens y := by
  unfold Scan.opens
  rw [h.brace]

theorem Turned.advance_eq {x y : Text} (h : Turned x y) (s : Scan) :
    s.advance x = s.advance y := by
  unfold Scan.advance
  rw [h.opens_eq, h.braceDelta_eq]

/-- No decision of a turn sees the difference. -/
theorem Turned.rewrites_eq {x y : Text} (h : Turned x y) (s : Scan) :
    s.rewrites alnum x = s.rewrites alnum y := by
  unfold Scan.rewrites
  rw [h.enter_eq, h.prototype_eq, h.advance_eq]

theorem Turned.next_eq {x y : Text} (h : Turned x y) (s : Scan) :
    s.next alnum x = s.next alnum y := by
  unfold Scan.next
  rw [h.rewrites_eq, h.enter_eq, h.prototype_eq, h.advance_eq]

theorem Turned.counted_eq {x y : Text} (h : Turned x y) (s : Scan) :
    s.counted alnum x = s.counted alnum y := by
  unfold Scan.counted
  rw [h.enter_eq, h.opens_eq]

theorem normalizeLine_turned (s : Scan) {line : Text} (h : Unbroken line) :
    Turned line (normalizeLine alnum s line).line := by
  rw [normalizeLine_eq]
  dsimp only
  split
  · exact (replaced_subReturn h false).turned
  · exact Turned.refl line

/-- A second turn over the line decides the same, and substitutes nothing. -/
theorem normalizeLine_again (s : Scan) {line : Text} (h : Unbroken line) :
    normalizeLine alnum s (normalizeLine alnum s line).line =
      { normalizeLine alnum s line with replacements := 0 } := by
  have hturned : Turned line (normalizeLine alnum s line).line := normalizeLine_turned s h
  have hsub : subReturn alnum false 0 (subReturn alnum false 0 line).1 =
      ((subReturn alnum false 0 line).1, 0) := (replaced_subReturn h false).again
  rw [normalizeLine_eq s (normalizeLine alnum s line).line, ← hturned.next_eq,
    ← hturned.rewrites_eq, ← hturned.counted_eq]
  rw [normalizeLine_eq]
  cases hrewrites : s.rewrites alnum line with
  | true => simp [hsub]
  | false => simp

/-! ## All lines -/

theorem normalizeLines_turned (s : Scan) {lines : List Text} (h : ∀ l ∈ lines, Unbroken l) :
    List.Forall₂ Turned lines (normalizeLines alnum s lines).out := by
  induction lines generalizing s with
  | nil => exact .nil
  | cons l ls ih =>
    exact .cons (normalizeLine_turned s (h l List.mem_cons_self))
      (ih _ fun l' hl' => h l' (List.mem_cons_of_mem _ hl'))

theorem normalizeLines_again (s : Scan) {lines : List Text} (h : ∀ l ∈ lines, Unbroken l) :
    normalizeLines alnum s (normalizeLines alnum s lines).out =
      { normalizeLines alnum s lines with replacements := 0 } := by
  induction lines generalizing s with
  | nil => rfl
  | cons l ls ih =>
    have hline : normalizeLine alnum s (normalizeLine alnum s l).line =
        { normalizeLine alnum s l with replacements := 0 } :=
      normalizeLine_again s (h l List.mem_cons_self)
    have hrest := ih (normalizeLine alnum s l).scan fun l' hl' => h l' (List.mem_cons_of_mem _ hl')
    simp only [normalizeLines, hline, hrest]

theorem Turned.flatten {xs ys : List Text} (h : List.Forall₂ Turned xs ys) :
    Turned xs.flatten ys.flatten := by
  induction h with
  | nil => exact .nil
  | cons hx _ ih => exact hx.append ih

theorem Turned.eq_of_not_mem {x y : Text} (h : Turned x y) (hr : 'r' ∉ x) : y = x := by
  induction h with
  | nil => rfl
  | keep c _ ih => rw [ih fun hm => hr (List.mem_cons_of_mem c hm)]
  | turn _ _ _ => exact absurd List.mem_cons_self hr

/-- The breaks of the lines that follow are found behind any piece without a break. -/
theorem splitLines_glued {a b t x y : Text} {ls ys : List Text}
    (hb : ∀ c ∈ b, isBreak c = false) (hne : b ≠ [])
    (heq : glue a (splitLines t) = (a ++ x) :: ls) (hx : Turned x y)
    (hls : List.Forall₂ Turned ls ys)
    (ih : ∀ zs, List.Forall₂ Turned (splitLines t) zs → splitLines zs.flatten = zs) :
    splitLines ((b ++ y) :: ys).flatten = (b ++ y) :: ys := by
  rw [List.flatten_cons, List.append_assoc, splitLines_append hb hne]
  cases hsplit : splitLines t with
  | nil =>
    simp only [hsplit, glue, List.cons.injEq] at heq
    obtain ⟨hax, rfl⟩ := heq
    have hxnil : x = [] := by simpa using hax
    subst hxnil
    cases hx
    cases hls
    simp [splitLines, glue]
  | cons l ls' =>
    simp only [hsplit, glue, List.cons.injEq] at heq
    obtain ⟨hax, rfl⟩ := heq
    obtain rfl := List.append_cancel_left hax
    have hrest := ih (y :: ys) (hsplit ▸ .cons hx hls)
    rw [List.flatten_cons] at hrest
    rw [hrest]
    rfl

/-- The first line starts with a turned return. -/
theorem splitLines_turned_return {c : Char} {ws x x' y u : Text} {ls ys : List Text}
    (hws : Gap ws) (heq : c :: x = returnWord ++ (ws ++ '{' :: x'))
    (hglue : glue [c] (splitLines u) = (c :: x) :: ls) (hc : isBreak c = false)
    (hx : Turned x' y) (hls : List.Forall₂ Turned ls ys)
    (ih : ∀ v : Text, v.length < u.length + 1 → ∀ zs,
      List.Forall₂ Turned (splitLines v) zs →
      splitLines zs.flatten = zs) :
    splitLines ((replacement ++ y) :: ys).flatten = (replacement ++ y) :: ys := by
  have hwhole : c :: u = (returnWord ++ (ws ++ ['{'])) ++ (x' ++ ls.flatten) := by
    have h := flatten_glue [c] (splitLines u)
    rw [hglue, flatten_splitLines, List.flatten_cons, heq] at h
    simpa using h.symm
  have hword : ∀ d ∈ returnWord, isBreak d = false := by simp [returnWord, isBreak]
  have hpiece : ∀ d ∈ returnWord ++ (ws ++ ['{']), isBreak d = false := by
    intro d hd
    simp only [List.mem_append, List.mem_singleton] at hd
    rcases hd with hd | hd | rfl
    · exact hword d hd
    · exact (hws d hd).2
    · rfl
  have hlines : glue (returnWord ++ (ws ++ ['{'])) (splitLines (x' ++ ls.flatten)) =
      (returnWord ++ (ws ++ ['{']) ++ x') :: ls := by
    rw [← splitLines_append hpiece (by simp [returnWord]), ← hwhole, splitLines_cons hc, hglue,
      heq]
    simp
  have hlen : (x' ++ ls.flatten).length < u.length + 1 := by
    have := congrArg List.length hwhole
    simp [returnWord] at this
    simp
    omega
  have hnew : ∀ d ∈ replacement, isBreak d = false := by
    simp [replacement, returnWord, resultType, isBreak]
  exact splitLines_glued hnew (by decide) hlines hx hls (ih _ hlen)

/-- The text with its returns turned has the turned lines. -/
theorem splitLines_turned {t : Text} {ys : List Text}
    (h : List.Forall₂ Turned (splitLines t) ys) : splitLines ys.flatten = ys := by
  induction hlen : t.length using Nat.strong_induction_on generalizing t ys with
  | _ n ih =>
    have ih' (u : Text) (hu : u.length < n) (zs : List Text)
        (hzs : List.Forall₂ Turned (splitLines u) zs) : splitLines zs.flatten = zs :=
      ih u.length hu hzs rfl
    rcases splitLines_cases t with rfl | ⟨e, u, rfl, hne, he, hsplit⟩ | ⟨c, u, rfl, hc⟩
    · cases h
      rfl
    · rw [hsplit u rfl] at h
      cases h with
      | @cons _ y _ ys hy hys =>
        have hr : 'r' ∉ e := fun hm => absurd (he 'r' hm) (by decide)
        obtain rfl := hy.eq_of_not_mem hr
        have hu : u.length < n := by
          have := List.length_pos_iff.mpr hne
          simp at hlen
          omega
        have hhead : ys.flatten.head? = u.head? := by
          have := (Turned.flatten hys).head
          rw [flatten_splitLines] at this
          exact this.symm
        rw [List.flatten_cons, hsplit _ hhead, ih' u hu ys hys]
    · rw [splitLines_cons hc] at h
      cases hglue : glue [c] (splitLines u) with
      | nil => cases hs : splitLines u <;> simp [hs, glue] at hglue
      | cons l ls =>
        rw [hglue] at h
        cases h with
        | @cons _ y _ ys hy hys =>
          obtain ⟨x, rfl⟩ : ∃ x, l = c :: x := by
            cases hs : splitLines u with
            | nil => simp [hs, glue] at hglue; exact ⟨_, hglue.1.symm⟩
            | cons l' ls' => simp [hs, glue] at hglue; exact ⟨_, hglue.1.symm⟩
          rcases hy.cons_inv with ⟨y, rfl, hxy⟩ | ⟨ws, x', y', hws, heq, rfl, hxy⟩
          · have hu : u.length < n := by
              simp at hlen
              omega
            exact splitLines_glued (a := [c]) (b := [c]) (by simpa using hc) (by simp) hglue hxy
              hys (ih' u hu)
          · exact splitLines_turned_return hws heq hglue hc hxy hys fun v hv =>
              ih' v (by simpa [← hlen] using hv)

/-! ## The file -/

theorem normalizeText_lines (text : Text) :
    List.Forall₂ Turned (splitLines text) (normalizeText alnum text).out :=
  normalizeLines_turned .initial (unbroken_splitLines text)

theorem normalizeText_turned (text : Text) :
    Turned text (normalizeText alnum text).out.flatten := by
  have h : Turned (splitLines text).flatten (normalizeText alnum text).out.flatten :=
    Turned.flatten (normalizeText_lines text)
  rw [flatten_splitLines] at h
  exact h

/-- A second run finds the same lines and decides the same. -/
theorem normalizeText_again (text : Text) :
    normalizeText alnum (normalizeText alnum text).out.flatten =
      { normalizeText alnum text with replacements := 0 } := by
  have hlines : splitLines (normalizeText alnum text).out.flatten =
      (normalizeText alnum text).out := splitLines_turned (normalizeText_lines text)
  calc normalizeLines alnum .initial (splitLines (normalizeText alnum text).out.flatten)
    _ = normalizeLines alnum .initial (normalizeText alnum text).out := by rw [hlines]
    _ = { normalizeText alnum text with replacements := 0 } :=
      normalizeLines_again .initial (unbroken_splitLines text)

theorem Turned.no_return {x y : Text} (h : Turned x y) (hx : '\r' ∉ x) : '\r' ∉ y := by
  induction h with
  | nil => exact hx
  | keep c _ ih =>
    simp only [List.mem_cons, not_or] at hx ⊢
    exact ⟨hx.1, ih hx.2⟩
  | turn _ _ ih =>
    have hword : '\r' ∉ replacement := by decide
    simp only [List.mem_append, List.mem_cons, not_or] at hx ⊢
    exact ⟨hword, ih hx.2.2.2⟩

/-- The text of the file after the script is the text that the loop has made. -/
theorem readText_normalizeFile (content : Text) :
    readText (normalizeFile alnum content).1 =
      (normalizeText alnum (readText content)).out.flatten := by
  have hread : '\r' ∉ (normalizeText alnum (readText content)).out.flatten :=
    (normalizeText_turned (readText content)).no_return (not_mem_readText content)
  unfold normalizeFile
  dsimp only
  split
  · exact readText_of_not_mem hread
  · rename_i hsame
    exact (Decidable.not_not.mp hsame).symm

/-- The script is idempotent and minimal: a second run replaces nothing and counts the same
functions, and the text differs only in turned returns. -/
theorem normalize_file_is_idempotent_and_minimal (alnum : Char → Bool) (content : Text) :
    normalizeFile alnum (normalizeFile alnum content).1 =
        ((normalizeFile alnum content).1, (normalizeFile alnum content).2.1, 0) ∧
      Turned (readText content) (readText (normalizeFile alnum content).1) := by
  have hread : readText (normalizeFile alnum content).1 =
      (normalizeText alnum (readText content)).out.flatten := readText_normalizeFile content
  constructor
  · rw [normalizeFile, hread, normalizeText_again]
    simp only [ne_eq, not_true_eq_false, if_false]
    rfl
  · rw [hread]
    exact normalizeText_turned (readText content)

end wii_switch.returns
