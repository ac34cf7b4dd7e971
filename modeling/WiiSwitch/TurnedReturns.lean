-- Texts whose bare returns are turned into typed ones. No test of the scanner sees the
-- difference between a line and the line with its returns turned, and the replacements
-- in a line leave nothing to replace.
import WiiSwitch.ReturnScanner
import Mathlib.Data.List.Infix
import Mathlib.Data.List.TakeWhile

namespace wii_switch.returns

open PyText

variable {alnum : Char → Bool}

/-! ## Turned texts -/

/-- White space that does not end a line. -/
def Gap (ws : Text) : Prop := ∀ c ∈ ws, isSpace c = true ∧ isBreak c = false

/-- The second text is the first with some `return {`, on one line, turned into
`return MkwStateFreeResult2{`. -/
inductive Turned : Text → Text → Prop
  | nil : Turned [] []
  | keep (c : Char) {x y : Text} (h : Turned x y) : Turned (c :: x) (c :: y)
  | turn {ws x y : Text} (hws : Gap ws) (h : Turned x y) :
      Turned (returnWord ++ (ws ++ '{' :: x)) (replacement ++ y)

theorem Turned.refl (x : Text) : Turned x x := by
  induction x with
  | nil => exact .nil
  | cons c x ih => exact .keep c ih

theorem Turned.head {x y : Text} (h : Turned x y) : x.head? = y.head? := by
  cases h <;> rfl

theorem Turned.append {a b x y : Text} (h : Turned a b) (h' : Turned x y) :
    Turned (a ++ x) (b ++ y) := by
  induction h with
  | nil => exact h'
  | keep c _ ih => exact .keep c ih
  | @turn ws a b hws _ ih =>
    have hleft : returnWord ++ (ws ++ '{' :: a) ++ x = returnWord ++ (ws ++ '{' :: (a ++ x)) := by
      simp
    rw [hleft, List.append_assoc]
    exact .turn hws ih

/-- The first character of a turned text is kept, or the text starts with a turned return. -/
theorem Turned.cons_inv {c : Char} {x z : Text} (h : Turned (c :: x) z) :
    (∃ y, z = c :: y ∧ Turned x y) ∨
      ∃ ws x' y', Gap ws ∧
      c :: x = returnWord ++ (ws ++ '{' :: x') ∧ z = replacement ++ y' ∧
        Turned x' y' := by
  generalize hw : c :: x = w at h
  cases h with
  | nil => simp at hw
  | keep d h =>
    obtain ⟨rfl, rfl⟩ := List.cons.inj hw
    exact Or.inl ⟨_, rfl, h⟩
  | turn hws h => exact Or.inr ⟨_, _, _, hws, rfl, rfl, h⟩

/-- A character of a turned text is kept, or the text starts with a turned return. -/
theorem Turned.inv_cons {c : Char} {y z : Text} (h : Turned z (c :: y)) :
    (∃ x, z = c :: x ∧ Turned x y) ∨ ∃ y', c :: y = replacement ++ y' := by
  generalize hw : c :: y = w at h
  cases h with
  | nil => simp at hw
  | keep d h =>
    obtain ⟨rfl, rfl⟩ := List.cons.inj hw
    exact Or.inl ⟨_, rfl, h⟩
  | turn hws h => exact Or.inr ⟨_, rfl⟩

/-- What has no `r` is kept. -/
theorem Turned.inv_append {p y z : Text} (hp : 'r' ∉ p) (h : Turned z (p ++ y)) :
    ∃ x, z = p ++ x ∧ Turned x y := by
  induction p generalizing z with
  | nil => exact ⟨z, rfl, h⟩
  | cons c p ih =>
    simp only [List.mem_cons, not_or] at hp
    rcases h.inv_cons with ⟨x, rfl, hx⟩ | ⟨y', hy⟩
    · obtain ⟨x', rfl, hx'⟩ := ih hp.2 hx
      exact ⟨x', rfl, hx'⟩
    · exact absurd (List.cons.inj hy).1.symm hp.1

/-! ## The tests of a line -/

theorem isSpace_ne {c d : Char} (hc : isSpace c = true) (hd : isSpace d = false) : c ≠ d := by
  rintro rfl
  rw [hc] at hd
  cases hd

theorem Gap.not_mem {ws : Text} (h : Gap ws) {c : Char} (hc : isSpace c = false) : c ∉ ws :=
  fun hm => isSpace_ne (h c hm).1 hc rfl

theorem Turned.contains {x y : Text} (h : Turned x y) {c : Char} (hspace : isSpace c = false)
    (hword : c ∉ returnWord) (htype : c ∉ resultType) : x.contains c = y.contains c := by
  have hmem : c ∈ x ↔ c ∈ y := by
    induction h with
    | nil => rfl
    | keep d _ ih => simp [ih]
    | turn hws _ ih =>
      have hne : c ≠ ' ' := by
        rintro rfl
        exact absurd hspace (by decide)
      simp [replacement, hword, htype, hws.not_mem hspace, hne, ih]
  simp [hmem]

/-- A character that the count of braces steps over. -/
def Inert (c : Char) : Prop := c ∉ ['\\', '"', '\'', '/', '{', '}']

theorem isSpace_inert {c : Char} (h : isSpace c = true) : Inert c := by
  unfold Inert
  intro hc
  simp only [List.mem_cons, List.not_mem_nil, or_false] at hc
  rcases hc with rfl | rfl | rfl | rfl | rfl | rfl <;> exact absurd h (by decide)

theorem braceDelta_cons {c : Char} (hc : Inert c) (inString inChar escape : Bool) (t : Text) :
    braceDelta inString inChar escape (c :: t) = braceDelta inString inChar false t := by
  simp only [Inert, List.mem_cons, List.not_mem_nil, or_false, not_or] at hc
  cases inString <;> cases inChar <;> cases escape <;> simp [braceDelta, hc]

theorem braceDelta_inert {p : Text} (hp : ∀ c ∈ p, Inert c) (hne : p ≠ [])
    (inString inChar escape : Bool) (t : Text) :
    braceDelta inString inChar escape (p ++ t) = braceDelta inString inChar false t := by
  induction p generalizing escape with
  | nil => exact absurd rfl hne
  | cons c p ih =>
    rw [List.cons_append, braceDelta_cons (hp c List.mem_cons_self)]
    cases p with
    | nil => rfl
    | cons d p => exact ih (fun e he => hp e (List.mem_cons_of_mem _ he)) (List.cons_ne_nil d p) _

instance (c : Char) : Decidable (Inert c) := inferInstanceAs (Decidable (_ ∉ _))

theorem Turned.braceDelta_eq {x y : Text} (h : Turned x y) (inString inChar escape : Bool) :
    braceDelta inString inChar escape x = braceDelta inString inChar escape y := by
  induction h generalizing inString inChar escape with
  | nil => rfl
  | keep c h ih => simp only [braceDelta, h.head, ih]
  | @turn ws x y hws h ih =>
    have hword : ∀ c ∈ returnWord, Inert c := by simp [returnWord, Inert]
    have hleft : ∀ c ∈ returnWord ++ ws, Inert c := by
      intro c hc
      rcases List.mem_append.mp hc with hc | hc
      · exact hword c hc
      · exact isSpace_inert (hws c hc).1
    have hright : ∀ c ∈ returnWord ++ ' ' :: resultType, Inert c := by
      simp [returnWord, resultType, Inert]
    have hbrace : braceDelta inString inChar false ('{' :: x) =
        braceDelta inString inChar false ('{' :: y) := by simp only [braceDelta, h.head, ih]
    calc braceDelta inString inChar escape (returnWord ++ (ws ++ '{' :: x))
      _ = braceDelta inString inChar escape ((returnWord ++ ws) ++ '{' :: x) := by simp
      _ = braceDelta inString inChar false ('{' :: x) :=
        braceDelta_inert hleft (by simp [returnWord]) _ _ _ _
      _ = braceDelta inString inChar false ('{' :: y) := hbrace
      _ = braceDelta inString inChar escape ((returnWord ++ ' ' :: resultType) ++ '{' :: y) :=
        (braceDelta_inert hright (by simp) _ _ _ _).symm
      _ = braceDelta inString inChar escape (replacement ++ y) := by simp [replacement]

/-! ## The start of a function -/

theorem Turned.dropSpaces {x y : Text} (h : Turned x y) :
    Turned (x.dropWhile isSpace) (y.dropWhile isSpace) := by
  induction h with
  | nil => exact .nil
  | keep c h ih =>
    rw [List.dropWhile_cons, List.dropWhile_cons]
    split
    · exact ih
    · exact .keep c h
  | turn hws h _ => exact .turn hws h

theorem dropWhile_gap {ws : Text} (hws : ∀ c ∈ ws, isSpace c = true) (t : Text) :
    (ws ++ '{' :: t).dropWhile isSpace = '{' :: t := by
  rw [List.dropWhile_append_of_pos hws]
  rfl

theorem isSpace_not_ident {c : Char} (h : isSpace c = true) : isIdent c = false := by
  unfold isIdent
  rw [Bool.or_eq_false_iff]
  constructor
  · have hval : c.toNat = c.val.toNat := rfl
    simp only [isSpace, Bool.or_eq_true, Bool.and_eq_true, decide_eq_true_eq, beq_iff_eq] at h
    unfold Char.isAlphanum Char.isAlpha Char.isUpper Char.isLower Char.isDigit
    simp [UInt32.le_iff_toNat_le, ← hval]
    omega
  · rw [beq_eq_false_iff_ne]
    rintro rfl
    exact absurd h (by decide)

/-- After the turned `return` comes no parenthesis. -/
theorem Turned.opensParams_eq {x y : Text} (h : Turned x y) : opensParams x = opensParams y := by
  induction h with
  | nil => rfl
  | @keep c x y h ih =>
    unfold opensParams at ih ⊢
    rw [List.dropWhile_cons, List.dropWhile_cons]
    split
    · exact ih
    · rw [(Turned.keep c h).dropSpaces.head]
  | @turn ws x y hws h _ =>
    have hname : (ws ++ '{' :: x).dropWhile isIdent = ws ++ '{' :: x := by
      cases ws with
      | nil => rfl
      | cons w ws =>
        simp [isSpace_not_ident (hws w List.mem_cons_self).1]
    have hleft : (returnWord ++ (ws ++ '{' :: x)).dropWhile isIdent = ws ++ '{' :: x := by
      rw [List.dropWhile_append_of_pos (List.all_eq_true.mp rfl), hname]
    unfold opensParams
    rw [hleft, dropWhile_gap fun c hc => (hws c hc).1]
    rfl

theorem Turned.namesFunction_eq {x y : Text} (h : Turned x y) :
    namesFunction x = namesFunction y := by
  unfold namesFunction
  rw [h.head, h.dropSpaces.head, h.dropSpaces.opensParams_eq]

/-- No part of the name of the type can begin in a `return`. -/
theorem resultType_suffixes : ∀ s ∈ resultType.tails, s ≠ [] →
    ¬ s <+: returnWord ∧ ¬ returnWord <+: s := by decide

theorem prefix_none {s w : Text} (h : ¬ s <+: w ∧ ¬ w <+: s) (t : Text) :
    s.isPrefixOf? (w ++ t) = none := by
  cases hs : s.isPrefixOf? (w ++ t) with
  | none => rfl
  | some u =>
    have heq := List.isPrefixOf?_eq_some_iff_append_eq.mp hs
    have hor := List.prefix_or_prefix_of_prefix ⟨u, heq⟩ (List.prefix_append w t)
    exact absurd hor (not_or.mpr h)

/-- Both texts go on with the same piece of the name of the type, or none does. -/
theorem Turned.dropType {x y : Text} (h : Turned x y) {s : Text} (hs : s ∈ resultType.tails) :
    (s.isPrefixOf? x = none ∧ s.isPrefixOf? y = none) ∨
      ∃ x' y', s.isPrefixOf? x = some x' ∧ s.isPrefixOf? y = some y' ∧ Turned x' y' := by
  induction s generalizing x y with
  | nil => exact Or.inr ⟨x, y, rfl, rfl, h⟩
  | cons a s ih =>
    have hne := resultType_suffixes _ hs (List.cons_ne_nil a s)
    cases h with
    | nil => exact Or.inl ⟨rfl, rfl⟩
    | keep c h =>
      have htail : s ∈ resultType.tails :=
        (List.mem_tails _ _).mpr ((List.suffix_cons a s).trans ((List.mem_tails _ _).mp hs))
      simp only [List.isPrefixOf?]
      split
      · exact ih h htail
      · exact Or.inl ⟨rfl, rfl⟩
    | turn hws h => exact Or.inl ⟨prefix_none hne _, prefix_none hne _⟩

theorem Turned.funcStartAt_eq {x y : Text} (h : Turned x y) : funcStartAt x = funcStartAt y := by
  unfold funcStartAt
  have hall : resultType ∈ resultType.tails := (List.mem_tails _ _).mpr (List.suffix_refl _)
  rcases h.dropType hall with ⟨hx, hy⟩ | ⟨x', y', hx, hy, h'⟩
  · rw [hx, hy]
  · rw [hx, hy]
    exact h'.namesFunction_eq

/-- No function starts where the name of the type does not. -/
theorem funcStartAt_of_ne {c : Char} (hc : c ≠ 'M')
    (t : Text) : funcStartAt (c :: t) = false := by
  unfold funcStartAt
  have : resultType.isPrefixOf? (c :: t) = none := by
    simp [resultType, List.isPrefixOf?, Ne.symm hc]
  rw [this]

theorem funcStart_skip {p : Text} {c : Char} (hp : ∀ d ∈ p ++ [c], d ≠ 'M') (prev : Bool)
    (t : Text) : funcStart alnum prev (p ++ c :: t) = funcStart alnum (isWord alnum c) t := by
  induction p generalizing prev with
  | nil => simp [funcStart, funcStartAt_of_ne (hp c (by simp))]
  | cons d p ih =>
    have hd := hp d (by simp)
    simp only [List.cons_append, funcStart, funcStartAt_of_ne hd, Bool.and_false, Bool.false_or]
    exact ih (fun e he => hp e (by simpa using Or.inr (by simpa using he))) _

theorem Turned.funcStart_eq {x y : Text} (h : Turned x y) (prev : Bool) :
    funcStart alnum prev x = funcStart alnum prev y := by
  induction h generalizing prev with
  | nil => rfl
  | keep c h ih => simp only [funcStart, (Turned.keep c h).funcStartAt_eq, ih]
  | @turn ws x y hws h ih =>
    have hword : ∀ d ∈ returnWord, d ≠ 'M' := by simp [returnWord]
    have hleft : ∀ d ∈ (returnWord ++ ws) ++ ['{'], d ≠ 'M' := by
      intro d hd
      simp only [List.mem_append, List.mem_singleton] at hd
      rcases hd with (hd | hd) | rfl
      · exact hword d hd
      · exact isSpace_ne (hws d hd).1 (by decide)
      · decide
    have hx : funcStart alnum prev (returnWord ++ (ws ++ '{' :: x)) = funcStart alnum false x := by
      rw [← List.append_assoc]
      exact funcStart_skip hleft prev x
    have hy : funcStart alnum prev (replacement ++ y) = funcStart alnum false y := by
      calc funcStart alnum prev (returnWord ++ ' ' :: (resultType ++ '{' :: y))
        _ = funcStart alnum false (resultType ++ '{' :: y) :=
          funcStart_skip (p := returnWord) (by simp [returnWord]) prev _
        _ = funcStart alnum true (resultType.tail ++ '{' :: y) := rfl
        _ = funcStart alnum false y := funcStart_skip (p := resultType.tail)
          (by simp [resultType]) true y
    rw [hx, hy, ih]

/-! ## The bare returns of a line -/

theorem bareReturnAt_eq (r : Text) : bareReturnAt (returnWord ++ r) =
    if (r.dropWhile isSpace).head? = some '{' then some ((r.takeWhile isSpace).length + 7)
    else none := by
  have hpre : returnWord.isPrefixOf? (returnWord ++ r) = some r :=
    List.isPrefixOf?_eq_some_iff_append_eq.mpr rfl
  unfold bareReturnAt
  rw [hpre]
  simp only [returnWord, List.length_cons, List.length_nil]
  congr 2
  omega

/-- What a match of `BARE_RETURN` looks like. -/
theorem bareReturnAt_some {t : Text} {n : Nat} (h : bareReturnAt t = some n) :
    ∃ ws r, (∀ c ∈ ws, isSpace c = true) ∧ t = returnWord ++ (ws ++ '{' :: r) ∧
      n = ws.length + 7 := by
  cases hpre : returnWord.isPrefixOf? t with
  | none => simp [bareReturnAt, hpre] at h
  | some r =>
    obtain rfl := List.isPrefixOf?_eq_some_iff_append_eq.mp hpre
    rw [bareReturnAt_eq] at h
    split at h
    · rename_i hhead
      cases hdrop : r.dropWhile isSpace with
      | nil => simp [hdrop] at hhead
      | cons c u =>
        simp only [hdrop, List.head?_cons, Option.some.injEq] at hhead
        subst hhead
        refine ⟨r.takeWhile isSpace, u, fun c hc => List.mem_takeWhile_imp hc, ?_,
          (Option.some.inj h).symm⟩
        rw [← hdrop, List.takeWhile_append_dropWhile]
    · cases h

theorem bareReturnAt_match {ws : Text} (hws : ∀ c ∈ ws, isSpace c = true) (r : Text) :
    bareReturnAt (returnWord ++ (ws ++ '{' :: r)) = some (ws.length + 7) := by
  have htake : (ws ++ '{' :: r).takeWhile isSpace = ws := by
    rw [List.takeWhile_append_of_pos hws]
    exact List.append_nil ws
  rw [bareReturnAt_eq, dropWhile_gap hws, htake]
  rfl

theorem replacement_no_match (y : Text) : bareReturnAt (replacement ++ y) = none := rfl

/-- A return that the turned text still has was not turned, so the text had it before. -/
theorem Turned.no_new_match {x y : Text} (h : Turned x y) (hx : bareReturnAt x = none) :
    bareReturnAt y = none := by
  cases hy : bareReturnAt y with
  | none => rfl
  | some n =>
    obtain ⟨ws, r, hws, rfl, -⟩ := bareReturnAt_some hy
    have hkeep : ∃ z, x = returnWord ++ z ∧ Turned z (ws ++ '{' :: r) := by
      rcases h.inv_cons with ⟨x₁, rfl, h₁⟩ | ⟨y', hy'⟩
      · obtain ⟨x₂, rfl, h₂⟩ := Turned.inv_append (p := ['e', 't', 'u']) (by decide) h₁
        rcases h₂.inv_cons with ⟨x₃, rfl, h₃⟩ | ⟨y', hy'⟩
        · obtain ⟨x₄, rfl, h₄⟩ := Turned.inv_append (p := ['n']) (by decide) h₃
          exact ⟨x₄, rfl, h₄⟩
        · simp [replacement, returnWord] at hy'
      · have heq : returnWord ++ (ws ++ '{' :: r) = replacement ++ y' := hy'
        rw [heq] at hy
        cases hy
    obtain ⟨z, rfl, hz⟩ := hkeep
    have hr : 'r' ∉ ws ++ ['{'] := by
      intro hm
      rcases List.mem_append.mp hm with hm | hm
      · exact isSpace_ne (hws _ hm) (by decide) rfl
      · exact absurd hm (by decide)
    obtain ⟨u, rfl, -⟩ := Turned.inv_append (y := r) hr (by simpa using hz)
    rw [List.append_assoc, List.singleton_append, bareReturnAt_match hws] at hx
    cases hx

/-- The text `y` is `x` after `n` replacements, found from left to right. -/
inductive Replaced (alnum : Char → Bool) : Bool → Text → Text → Nat → Prop
  | nil (prev : Bool) : Replaced alnum prev [] [] 0
  | keep {prev : Bool} {c : Char} {x y : Text} {n : Nat}
      (hno : prev = true ∨ bareReturnAt (c :: x) = none)
      (h : Replaced alnum (isWord alnum c) x y n) : Replaced alnum prev (c :: x) (c :: y) n
  | turn {ws x y : Text} {n : Nat} (hws : Gap ws) (h : Replaced alnum false x y n) :
      Replaced alnum false (returnWord ++ (ws ++ '{' :: x)) (replacement ++ y) (n + 1)

theorem Replaced.turned {prev : Bool} {x y : Text} {n : Nat} (h : Replaced alnum prev x y n) :
    Turned x y := by
  induction h with
  | nil => exact .nil
  | keep _ _ ih => exact .keep _ ih
  | turn hws _ ih => exact .turn hws ih

theorem subReturn_cons (prev : Bool) (c : Char) (t : Text) : subReturn alnum prev 0 (c :: t) =
    match if prev then none else bareReturnAt (c :: t) with
    | none =>
      (c :: (subReturn alnum (isWord alnum c) 0 t).1, (subReturn alnum (isWord alnum c) 0 t).2)
    | some n =>
      (replacement ++ (subReturn alnum (isWord alnum c) (n - 1) t).1,
        (subReturn alnum (isWord alnum c) (n - 1) t).2 + 1) := rfl

theorem subReturn_keep {prev : Bool} {c : Char} {t : Text}
    (h : prev = true ∨ bareReturnAt (c :: t) = none) : subReturn alnum prev 0 (c :: t) =
      (c :: (subReturn alnum (isWord alnum c) 0 t).1,
        (subReturn alnum (isWord alnum c) 0 t).2) := by
  have hnone : (if prev then none else bareReturnAt (c :: t)) = none := by
    rcases h with rfl | h
    · rfl
    · rw [h, ite_self]
  rw [subReturn_cons, hnone]

theorem subReturn_skip (p : Text) (c : Char) (t : Text) (prev : Bool) :
    subReturn alnum prev (p.length + 1) (p ++ c :: t) = subReturn alnum (isWord alnum c) 0 t := by
  induction p generalizing prev with
  | nil => rfl
  | cons d p ih => exact ih _

theorem subReturn_turn {ws : Text} (hws : ∀ c ∈ ws, isSpace c = true) (t : Text) :
    subReturn alnum false 0 (returnWord ++ (ws ++ '{' :: t)) =
      (replacement ++ (subReturn alnum false 0 t).1, (subReturn alnum false 0 t).2 + 1) := by
  have hmatch := bareReturnAt_match hws t
  have hskip : subReturn alnum (isWord alnum 'r') (ws.length + 7 - 1)
      (returnWord.tail ++ (ws ++ '{' :: t)) = subReturn alnum false 0 t := by
    have hlen : ws.length + 7 - 1 = (returnWord.tail ++ ws).length + 1 := by
      simp [returnWord]
    rw [hlen, ← List.append_assoc, subReturn_skip]
    rfl
  change subReturn alnum false 0 ('r' :: (returnWord.tail ++ (ws ++ '{' :: t))) = _
  change bareReturnAt ('r' :: (returnWord.tail ++ (ws ++ '{' :: t))) = _ at hmatch
  rw [subReturn_cons, if_neg Bool.false_ne_true, hmatch]
  simp only [hskip]

/-- No match starts within the typed return. -/
theorem replacement_suffixes : ∀ s ∈ replacement.tail.tails, s ≠ [] →
    ¬ returnWord <+: s ∧ ¬ s <+: returnWord := by decide

/-- A piece in which no match of `BARE_RETURN` starts, whatever follows it. -/
def NoMatchIn (p : Text) : Prop :=
  ∀ s ∈ p.tails, s ≠ [] → ∀ t, bareReturnAt (s ++ t) = none

theorem NoMatchIn.head {c : Char} {p : Text} (h : NoMatchIn (c :: p)) (t : Text) :
    bareReturnAt (c :: (p ++ t)) = none :=
  h (c :: p) (by simp) (List.cons_ne_nil c p) t

theorem NoMatchIn.tail {c : Char} {p : Text} (h : NoMatchIn (c :: p)) : NoMatchIn p := by
  intro s hs
  apply h s
  rw [List.tails_cons]
  exact List.mem_cons_of_mem _ hs

/-- The search goes over a piece in which no match starts. -/
theorem subReturn_pass {p : Text} {c : Char} (hp : NoMatchIn (p ++ [c])) (prev : Bool)
    (t : Text) : subReturn alnum prev 0 (p ++ c :: t) =
      (p ++ c :: (subReturn alnum (isWord alnum c) 0 t).1,
        (subReturn alnum (isWord alnum c) 0 t).2) := by
  induction p generalizing prev with
  | nil => exact subReturn_keep (Or.inr (hp.head t))
  | cons d p ih =>
    have hno : bareReturnAt (d :: (p ++ c :: t)) = none := by simpa using hp.head t
    rw [List.cons_append, subReturn_keep (Or.inr hno), ih hp.tail]
    rfl

/-- The replacements leave nothing to replace. -/
theorem Replaced.again {prev : Bool} {x y : Text} {n : Nat} (h : Replaced alnum prev x y n) :
    subReturn alnum prev 0 y = (y, 0) := by
  induction h with
  | nil prev => rfl
  | @keep prev c x y n hno h ih =>
    have hno' : prev = true ∨ bareReturnAt (c :: y) = none :=
      hno.imp_right (Turned.keep c h.turned).no_new_match
    rw [subReturn_keep hno', ih]
  | @turn ws x y n hws h ih =>
    have hpass : NoMatchIn (replacement.tail.dropLast ++ ['{']) := by
      intro s hs hne t
      unfold bareReturnAt
      rw [prefix_none (replacement_suffixes s hs hne)]
    have hsplit : replacement ++ y = 'r' :: (replacement.tail.dropLast ++ '{' :: y) := rfl
    have hno : bareReturnAt ('r' :: (replacement.tail.dropLast ++ '{' :: y)) = none :=
      replacement_no_match y
    have hbody : subReturn alnum true 0 (replacement.tail.dropLast ++ '{' :: y) =
        (replacement.tail.dropLast ++ '{' :: (subReturn alnum false 0 y).1,
          (subReturn alnum false 0 y).2) := subReturn_pass hpass true y
    have hword : isWord alnum 'r' = true := rfl
    rw [hsplit, subReturn_keep (Or.inr hno), hword, hbody, ih]

theorem Unbroken.tail {c : Char} {t : Text} (h : Unbroken (c :: t)) : Unbroken t := h.2

theorem Unbroken.drop {p t : Text} (h : Unbroken (p ++ t)) : Unbroken t := by
  induction p with
  | nil => exact h
  | cons c p ih => exact ih h.2

/-- White space before a brace is on the line of the brace. -/
theorem Unbroken.gap {ws t : Text} (hws : ∀ c ∈ ws, isSpace c = true)
    (h : Unbroken (ws ++ '{' :: t)) : Gap ws := by
  induction ws with
  | nil => simp [Gap]
  | cons c ws ih =>
    intro d hd
    rcases List.mem_cons.mp hd with rfl | hd
    · refine ⟨hws d List.mem_cons_self, ?_⟩
      rw [Bool.eq_false_iff]
      intro hbreak
      rcases h.1 hbreak with h | ⟨-, h⟩
      · simp at h
      · cases ws <;> simp at h
    · exact ih (fun e he => hws e (List.mem_cons_of_mem _ he)) h.2 d hd

/-- The replacements of `BARE_RETURN.subn` in a line. -/
theorem replaced_subReturn {x : Text} (hx : Unbroken x) (prev : Bool) :
    Replaced alnum prev x (subReturn alnum prev 0 x).1 (subReturn alnum prev 0 x).2 := by
  induction hlen : x.length using Nat.strong_induction_on generalizing x prev with
  | _ n ih =>
    cases x with
    | nil => exact .nil prev
    | cons c x =>
      by_cases hno : prev = true ∨ bareReturnAt (c :: x) = none
      · rw [subReturn_keep hno]
        exact .keep hno (ih x.length (by simp [← hlen]) (Unbroken.tail hx) _ rfl)
      · obtain ⟨hprev, hmatch⟩ := not_or.mp hno
        obtain ⟨k, hk⟩ := Option.ne_none_iff_exists'.mp hmatch
        obtain ⟨ws, r, hws, heq, -⟩ := bareReturnAt_some hk
        rw [Bool.not_eq_true] at hprev
        subst hprev
        rw [heq] at hx hlen ⊢
        have hrest : Unbroken (ws ++ '{' :: r) := Unbroken.drop hx
        have hgap := Unbroken.gap hws hrest
        have hr : Unbroken r := Unbroken.tail (Unbroken.drop hrest)
        rw [subReturn_turn hws]
        refine .turn hgap (ih r.length ?_ hr _ rfl)
        simp [← hlen]
        omega

end wii_switch.returns
