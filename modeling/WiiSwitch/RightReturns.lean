-- The returns that the normalizer should turn, by the lexical scopes of the text, and those that
-- it does turn: all on the lines that its tests take for lines of a body.
import WiiSwitch.Lib.CppScope
import WiiSwitch.ReturnBlocks

namespace wii_switch.returns

open PyText CppScope

/-! ## The right returns -/

/-- The line with those bare returns turned that are code in a body. -/
def turnBodies (alnum : Char → Bool) (opens : Nat → Bool) (cur : Cursor) (prev : Bool)
    (skip : Nat) : Text → Text
  | [] => []
  | c :: t =>
    match skip with
    | k + 1 => turnBodies alnum opens (cur.step opens c) (isWord alnum c) k t
    | 0 =>
      match if prev || !cur.inBody then none else bareReturnAt (c :: t) with
      | none => c :: turnBodies alnum opens (cur.step opens c) (isWord alnum c) 0 t
      | some n =>
        replacement ++ turnBodies alnum opens (cur.step opens c) (isWord alnum c) (n - 1) t

def turnLines (alnum : Char → Bool) (opens : Nat → Bool) (cur : Cursor) :
    List Text → List Text
  | [] => []
  | l :: ls => turnBodies alnum opens cur false 0 l :: turnLines alnum opens (cur.run opens l) ls

/-- The normalizer turns exactly the bare returns that are code in the body of a function with the
return type; `opens` are the positions of the braces that open these bodies. -/
def RewritesExactly (alnum : Char → Bool) (opens : Nat → Bool) (text : Text) : Prop :=
  (normalizeText alnum text).out = turnLines alnum opens .start (splitLines text)

/-- Every match of `BARE_RETURN` in the text is code in a body. -/
def returnsInBody (alnum : Char → Bool) (opens : Nat → Bool) (cur : Cursor) (prev : Bool) :
    Text → Bool
  | [] => true
  | c :: t =>
    (prev || (bareReturnAt (c :: t)).isNone || cur.inBody) &&
      returnsInBody alnum opens (cur.step opens c) (isWord alnum c) t

/-- No match of `BARE_RETURN` in the text is code in a body. -/
def returnsOutside (alnum : Char → Bool) (opens : Nat → Bool) (cur : Cursor) (prev : Bool) :
    Text → Bool
  | [] => true
  | c :: t =>
    (prev || (bareReturnAt (c :: t)).isNone || !cur.inBody) &&
      returnsOutside alnum opens (cur.step opens c) (isWord alnum c) t

/-- On the lines that are taken for lines of a body every match of `BARE_RETURN` is code in the body
of a function, and on the others none is. -/
def ReadsRight (alnum : Char → Bool) (opens : Nat → Bool) (cur : Cursor) :
    List (Text × Bool) → Prop
  | [] => True
  | (l, true) :: ls =>
    returnsInBody alnum opens cur false l = true ∧ ReadsRight alnum opens (cur.run opens l) ls
  | (l, false) :: ls =>
    returnsOutside alnum opens cur false l = true ∧ ReadsRight alnum opens (cur.run opens l) ls

variable {alnum : Char → Bool} {opens : Nat → Bool}

/-! ## The lines -/

/-- Where every match is code in a body, all of them are turned. -/
theorem turnBodies_eq_subReturn {cur : Cursor} {prev : Bool} {l : Text} (skip : Nat)
    (h : returnsInBody alnum opens cur prev l = true) :
    turnBodies alnum opens cur prev skip l = (subReturn alnum prev skip l).1 := by
  induction l generalizing cur prev skip with
  | nil => rfl
  | cons c t ih =>
    simp only [returnsInBody, Bool.and_eq_true, Bool.or_eq_true] at h
    cases skip with
    | succ k => exact ih k h.2
    | zero =>
      have hsame : (if prev || !cur.inBody then none else bareReturnAt (c :: t)) =
          if prev then none else bareReturnAt (c :: t) := by
        rcases h.1 with (h | h) | h
        · simp [h]
        · rw [Option.isNone_iff_eq_none.mp h]
          simp
        · simp [h]
      simp only [turnBodies, subReturn_cons, hsame]
      cases (if prev then none else bareReturnAt (c :: t)) with
      | none => simp [ih 0 h.2]
      | some n => simp [ih (n - 1) h.2]

theorem turnBodies_cons (cur : Cursor) (prev : Bool) (c : Char) (t : Text) :
    turnBodies alnum opens cur prev 0 (c :: t) =
      match if prev || !cur.inBody then none else bareReturnAt (c :: t) with
      | none => c :: turnBodies alnum opens (cur.step opens c) (isWord alnum c) 0 t
      | some n =>
        replacement ++ turnBodies alnum opens (cur.step opens c) (isWord alnum c) (n - 1) t := rfl

theorem turnBodies_keep {cur : Cursor} {prev : Bool} {c : Char} {t : Text}
    (h : prev = true ∨ cur.inBody = false ∨ bareReturnAt (c :: t) = none) :
    turnBodies alnum opens cur prev 0 (c :: t) =
      c :: turnBodies alnum opens (cur.step opens c) (isWord alnum c) 0 t := by
  have hnone : (if prev || !cur.inBody then none else bareReturnAt (c :: t)) = none := by
    rcases h with h | h | h <;> simp [h]
  rw [turnBodies_cons, hnone]

theorem turnBodies_skip (p : Text) (c : Char) (t : Text) (cur : Cursor) (prev : Bool) :
    turnBodies alnum opens cur prev (p.length + 1) (p ++ c :: t) =
      turnBodies alnum opens (cur.run opens (p ++ [c])) (isWord alnum c) 0 t := by
  induction p generalizing cur prev with
  | nil => rfl
  | cons d p ih => exact ih _ _

theorem turnBodies_pass {p : Text} {c : Char} (hp : NoMatchIn (p ++ [c])) (cur : Cursor)
    (prev : Bool) (t : Text) : turnBodies alnum opens cur prev 0 (p ++ c :: t) =
      p ++ c :: turnBodies alnum opens (cur.run opens (p ++ [c])) (isWord alnum c) 0 t := by
  induction p generalizing cur prev with
  | nil => exact turnBodies_keep (Or.inr (Or.inr (hp.head t)))
  | cons d p ih =>
    have hhead : bareReturnAt (d :: (p ++ c :: t)) = none := by simpa using hp.head t
    rw [List.cons_append, turnBodies_keep (Or.inr (Or.inr hhead)), ih hp.tail]
    rfl

theorem returnsInBody_pass {p : Text} {c : Char} (hp : NoMatchIn (p ++ [c])) (cur : Cursor)
    (prev : Bool) (t : Text) : returnsInBody alnum opens cur prev (p ++ c :: t) =
      returnsInBody alnum opens (cur.run opens (p ++ [c])) (isWord alnum c) t := by
  induction p generalizing cur prev with
  | nil =>
    have hhead : bareReturnAt (c :: t) = none := hp.head t
    simp [returnsInBody, hhead, Cursor.run]
  | cons d p ih =>
    have hhead : bareReturnAt (d :: (p ++ c :: t)) = none := by simpa using hp.head t
    have hrest := ih hp.tail (cur.step opens d) (isWord alnum d)
    simp only [List.cons_append, returnsInBody, hhead, Option.isNone_none, Bool.or_true,
      Bool.true_or, Bool.true_and, hrest]
    rfl

theorem bareReturnAt_of_ne {c : Char} (hc : c ≠ 'r') (t : Text) :
    bareReturnAt (c :: t) = none := by
  unfold bareReturnAt
  have : returnWord.isPrefixOf? (c :: t) = none := by
    simp [returnWord, List.isPrefixOf?, Ne.symm hc]
  rw [this]

/-- No match starts within a match. -/
theorem noMatchIn_match {ws : Text} (hws : ∀ c ∈ ws, isSpace c = true) :
    NoMatchIn ((returnWord.tail ++ ws) ++ ['{']) := by
  have hgap : ∀ c ∈ ws ++ ['{'], c ≠ 'r' := by
    intro c hc
    rcases List.mem_append.mp hc with hc | hc
    · exact isSpace_ne (hws c hc) (by decide)
    · rw [List.mem_singleton.mp hc]
      decide
  intro s hs hne t
  have htails : s ∈ ('e' :: 't' :: 'u' :: 'r' :: 'n' :: (ws ++ ['{'])).tails := by
    simpa [returnWord] using hs
  simp only [List.tails_cons, List.mem_cons] at htails
  rcases htails with rfl | rfl | rfl | rfl | rfl | hs
  · rfl
  · rfl
  · rfl
  · rfl
  · rfl
  · cases s with
    | nil => exact absurd rfl hne
    | cons d s =>
      have hd : d ∈ ws ++ ['{'] := ((List.mem_tails _ _).mp hs).mem List.mem_cons_self
      exact bareReturnAt_of_ne (hgap d hd) _

theorem match_split (ws t : Text) : returnWord ++ (ws ++ '{' :: t) =
    'r' :: ((returnWord.tail ++ ws) ++ '{' :: t) := by
  simp [returnWord]

/-- The cursor behind a match. -/
def Cursor.behind (opens : Nat → Bool) (cur : Cursor) (ws : Text) : Cursor :=
  (cur.step opens 'r').run opens ((returnWord.tail ++ ws) ++ ['{'])

/-- A match that is turned. -/
theorem turnBodies_turn {ws : Text} (hws : ∀ c ∈ ws, isSpace c = true) {cur : Cursor}
    (hin : cur.inBody = true) (t : Text) :
    turnBodies alnum opens cur false 0 (returnWord ++ (ws ++ '{' :: t)) =
      replacement ++ turnBodies alnum opens (Cursor.behind opens cur ws) false 0 t := by
  have hmatch := bareReturnAt_match hws t
  have hlen : ws.length + 7 - 1 = (returnWord.tail ++ ws).length + 1 := by simp [returnWord]
  rw [match_split] at hmatch ⊢
  rw [turnBodies_cons, hin, if_neg (by decide), hmatch]
  dsimp only
  rw [hlen, turnBodies_skip]
  rfl

/-- A match elsewhere is kept. -/
theorem turnBodies_leave {ws : Text} (hws : ∀ c ∈ ws, isSpace c = true) {cur : Cursor}
    (hout : cur.inBody = false) (t : Text) :
    turnBodies alnum opens cur false 0 (returnWord ++ (ws ++ '{' :: t)) =
      returnWord ++
        (ws ++ '{' :: turnBodies alnum opens (Cursor.behind opens cur ws) false 0 t) := by
  rw [match_split, match_split, turnBodies_keep (Or.inr (Or.inl hout)),
    turnBodies_pass (noMatchIn_match hws)]
  rfl

theorem returnsInBody_match {ws : Text} (hws : ∀ c ∈ ws, isSpace c = true) {cur : Cursor}
    (hin : cur.inBody = true) (t : Text) :
    returnsInBody alnum opens cur false (returnWord ++ (ws ++ '{' :: t)) =
      returnsInBody alnum opens (Cursor.behind opens cur ws) false t := by
  rw [match_split, returnsInBody, hin, Bool.or_true, Bool.true_and,
    returnsInBody_pass (noMatchIn_match hws)]
  rfl

/-- If all the matches of a text are turned, they are all code in a body. -/
theorem returnsInBody_of_turned {l : Text} {cur : Cursor} {prev : Bool}
    (h : turnBodies alnum opens cur prev 0 l = (subReturn alnum prev 0 l).1) :
    returnsInBody alnum opens cur prev l = true := by
  induction hlen : l.length using Nat.strong_induction_on generalizing l cur prev with
  | _ n ih =>
    cases l with
    | nil => rfl
    | cons c t =>
      by_cases hno : prev = true ∨ bareReturnAt (c :: t) = none
      · rw [turnBodies_keep (hno.imp_right Or.inr), subReturn_keep hno] at h
        have hrest := ih t.length (by simp [← hlen]) (List.cons.inj h).2 rfl
        simp only [returnsInBody, hrest, Bool.and_true]
        rcases hno with hno | hno <;> simp [hno]
      · obtain ⟨hprev, hmatch⟩ := not_or.mp hno
        obtain ⟨k, hk⟩ := Option.ne_none_iff_exists'.mp hmatch
        obtain ⟨ws, r, hws, heq, -⟩ := bareReturnAt_some hk
        rw [Bool.not_eq_true] at hprev
        subst hprev
        rw [heq] at h hlen ⊢
        rw [subReturn_turn hws] at h
        cases hin : cur.inBody with
        | false =>
          rw [turnBodies_leave hws hin] at h
          have hkept :=
            bareReturnAt_match hws (turnBodies alnum opens (Cursor.behind opens cur ws) false 0 r)
          rw [h, replacement_no_match] at hkept
          cases hkept
        | true =>
          rw [turnBodies_turn hws hin] at h
          rw [returnsInBody_match hws hin]
          refine ih r.length ?_ (List.append_cancel_left h) rfl
          simp [← hlen]
          omega

/-- A line that keeps its returns has none that should be turned. -/
theorem returnsOutside_iff {l : Text} {cur : Cursor} {prev : Bool} :
    turnBodies alnum opens cur prev 0 l = l ↔ returnsOutside alnum opens cur prev l = true := by
  induction l generalizing cur prev with
  | nil => exact iff_of_true rfl rfl
  | cons c t ih =>
    by_cases hkeep : prev = true ∨ cur.inBody = false ∨ bareReturnAt (c :: t) = none
    · rw [turnBodies_keep hkeep, returnsOutside]
      have hfirst : (prev || (bareReturnAt (c :: t)).isNone || !cur.inBody) = true := by
        rcases hkeep with h | h | h <;> simp [h]
      rw [hfirst, Bool.true_and, ← ih]
      exact ⟨fun h => (List.cons.inj h).2, fun h => by rw [h]⟩
    · obtain ⟨hprev, hin, hmatch⟩ : prev ≠ true ∧ cur.inBody ≠ false ∧
          bareReturnAt (c :: t) ≠ none := by
        rw [not_or, not_or] at hkeep
        exact hkeep
      obtain ⟨k, hk⟩ := Option.ne_none_iff_exists'.mp hmatch
      obtain ⟨ws, r, hws, heq, -⟩ := bareReturnAt_some hk
      obtain rfl := Bool.eq_false_iff.mpr hprev
      have hin : cur.inBody = true := Bool.ne_false_iff.mp hin
      refine iff_of_false (fun h => ?_) (by simp [returnsOutside, hk, hin])
      rw [heq, turnBodies_turn hws hin] at h
      have hstill := bareReturnAt_match hws r
      rw [← h, replacement_no_match] at hstill
      cases hstill

/-- The scanner over lines, with its flags beside them. -/
theorem normalizeLines_exact {scan : Scan} {cur : Cursor} {ls : List (Text × Bool)}
    (hflags : scan.flags alnum (ls.map Prod.fst) = ls.map Prod.snd) :
    (normalizeLines alnum scan (ls.map Prod.fst)).out =
      turnLines alnum opens cur (ls.map Prod.fst) ↔
      ReadsRight alnum opens cur ls := by
  induction ls generalizing scan cur with
  | nil => exact iff_of_true rfl trivial
  | cons line ls ih =>
    obtain ⟨l, taken⟩ := line
    obtain ⟨hrewrites, hrest⟩ := List.cons.inj hflags
    simp only [List.map_cons, normalizeLines, turnLines, normalizeLine_eq, hrewrites,
      List.cons.injEq, ih hrest]
    cases taken with
    | true =>
      refine and_congr_left fun _ => ?_
      exact ⟨fun h => returnsInBody_of_turned h.symm, fun h =>
        (turnBodies_eq_subReturn 0 h).symm⟩
    | false =>
      refine and_congr_left fun _ => ?_
      exact eq_comm.trans returnsOutside_iff

instance (alnum : Char → Bool) (opens : Nat → Bool) (text : Text) :
    Decidable (RewritesExactly alnum opens text) := inferInstanceAs (Decidable (_ = _))

/-! ## Texts -/

/-- The braces that open the bodies, where each of these stands at the start of a line. -/
def bracesOfLines (text : Text) (i : Nat) : Bool :=
  text[i]? == some '{' && (i == 0 || text[i - 1]? == some '\n')

/-- A prototype over two lines, a body with a literal and a comment that hold braces, and a
function with another type. -/
def twoFunctions : Text :=
  ["MkwStateFreeResult2 f(int a,\n", "  int b);\n", "MkwStateFreeResult2 f(int a, int b)\n",
    "\x7b\n", "  if (a) \x7b return \x7b b, b \x7d; \x7d // \x7d\n",
    "  g(\"\x7d\"); return \x7b a, b \x7d;\n", "\x7d\n",
    "Pair h() \x7b return \x7b 1, 2 \x7d; \x7d\n"].flatMap String.toList

example : RewritesExactly (fun _ => false) (bracesOfLines twoFunctions) twoFunctions := by
  decide +kernel

/-- A comment in a body with the pattern of a bare return. -/
def commentedReturn : Text :=
  ["MkwStateFreeResult2 f(int a)\n", "\x7b\n", "  // return \x7b a, a \x7d;\n",
    "  return \x7b a, a \x7d;\n", "\x7d\n"].flatMap String.toList

/-- A comment with a semicolon behind the signature. -/
def commentedSignature : Text :=
  ["MkwStateFreeResult2 f(int a) // a;\n", "\x7b\n", "  return \x7b a, a \x7d;\n",
    "\x7d\n"].flatMap String.toList

end wii_switch.returns
