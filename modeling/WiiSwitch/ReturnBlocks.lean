-- What the tests of the normalizer make of the lines of a text: prototypes and definitions
-- between other lines. The two flags and the depth of the scanner say on which lines of a
-- definition it is.
import WiiSwitch.ReturnRewrites

namespace wii_switch.returns

open PyText

/-! ## Blocks of lines -/

/-- The line ends no signature: it has neither a semicolon nor an opening brace. -/
def staysOpen (l : Text) : Bool := !l.contains ';' && !l.contains '{'

/-- `FUNC_START` matches in the first of the lines. -/
def Starts (alnum : Char → Bool) (ls : List Text) : Prop :=
  ls.head?.any (funcStart alnum false) = true

/-- The sum of `brace_delta` over lines. -/
def linesDelta (ls : List Text) : Int :=
  (ls.map (braceDelta false false false)).foldr (· + ·) 0

/-- The lines, each with `false` or each with `true`. -/
def marked (taken : Bool) (ls : List Text) : List (Text × Bool) := ls.map fun l => (l, taken)

/-- The lines of a text, each with whether the tests take it for a line of a body. A signature
goes from a line where `FUNC_START` matches up to the first line with a semicolon or an opening
brace. If that line has no brace, the signature is a prototype. If it has one, a body begins on
that line, and ends on the first line where the braces are closed again. -/
inductive Blocks (alnum : Char → Bool) : List (Text × Bool) → Prop
  | nil : Blocks alnum []
  | other {l : Text} {ls : List (Text × Bool)} : funcStart alnum false l = false →
    Blocks alnum ls → Blocks alnum ((l, false) :: ls)
  | prototype {sig : List Text} {l : Text} {ls : List (Text × Bool)} :
    Starts alnum (sig ++ [l]) → (∀ s ∈ sig, staysOpen s = true) →
    l.contains ';' = true → l.contains '{' = false →
    Blocks alnum ls → Blocks alnum (marked false sig ++ (l, false) :: ls)
  | signature {sig : List Text} : Starts alnum sig → (∀ s ∈ sig, staysOpen s = true) →
    Blocks alnum (marked false sig)
  | definition {sig body : List Text} {l : Text} {ls : List (Text × Bool)} :
    Starts alnum (sig ++ [l]) → (∀ s ∈ sig, staysOpen s = true) → l.contains '{' = true →
    (∀ p, p <+: l :: body → p ≠ [] → p ≠ l :: body → 0 < linesDelta p) →
    linesDelta (l :: body) ≤ 0 →
    Blocks alnum ls → Blocks alnum (marked false sig ++ (marked true (l :: body) ++ ls))
  | unended {sig body : List Text} {l : Text} :
    Starts alnum (sig ++ [l]) → (∀ s ∈ sig, staysOpen s = true) → l.contains '{' = true →
    (∀ p, p <+: l :: body → p ≠ [] → 0 < linesDelta p) →
    Blocks alnum (marked false sig ++ marked true (l :: body))

variable {alnum : Char → Bool}

@[simp] theorem linesDelta_cons (l : Text) (ls : List Text) :
    linesDelta (l :: ls) = braceDelta false false false l + linesDelta ls := rfl

@[simp] theorem linesDelta_nil : linesDelta [] = 0 := rfl

theorem marked_fst (taken : Bool) (ls : List Text) : (marked taken ls).map Prod.fst = ls := by
  simp [marked, Function.comp_def]

theorem marked_snd (taken : Bool) (ls : List Text) :
    (marked taken ls).map Prod.snd = List.replicate ls.length taken := by
  simp [marked, Function.comp_def, List.map_const']

/-! ## A text has its blocks -/

/-- The braces of the lines are closed on one of them, or on none. -/
theorem closes_or_not (d : Int) (ls : List Text) :
    (∃ body rest, ls = body ++ rest ∧ body ≠ [] ∧ d + linesDelta body ≤ 0 ∧
      ∀ p, p <+: body → p ≠ [] → p ≠ body → 0 < d + linesDelta p) ∨
    ∀ p, p <+: ls → p ≠ [] → 0 < d + linesDelta p := by
  induction ls generalizing d with
  | nil => exact Or.inr fun p hp hne => absurd (List.prefix_nil.mp hp) hne
  | cons l ls ih =>
    by_cases hclosed : d + braceDelta false false false l ≤ 0
    · refine Or.inl ⟨[l], ls, rfl, List.cons_ne_nil l [], by simpa using hclosed, ?_⟩
      intro p hp hne hall
      rcases List.prefix_cons_iff.mp hp with rfl | ⟨p', rfl, hp'⟩
      · exact absurd rfl hne
      · exact absurd (by rw [List.prefix_nil.mp hp']) hall
    -- the first line leaves braces open
    have hfirst : 0 < d + linesDelta [l] := by
      rw [linesDelta_cons, linesDelta_nil]
      omega
    rcases ih (d + braceDelta false false false l) with ⟨body, rest, rfl, hne, hsum, hopen⟩
      | hopen
    · refine Or.inl ⟨l :: body, rest, rfl, List.cons_ne_nil l body, ?_,
        fun p hp hp0 hall => ?_⟩
      · rw [linesDelta_cons]
        omega
      · rcases List.prefix_cons_iff.mp hp with rfl | ⟨p', rfl, hp'⟩
        · exact absurd rfl hp0
        by_cases h0 : p' = []
        · rwa [h0]
        have := hopen p' hp' h0 fun he => hall (by rw [he])
        rw [linesDelta_cons]
        omega
    · refine Or.inr fun p hp hp0 => ?_
      rcases List.prefix_cons_iff.mp hp with rfl | ⟨p', rfl, hp'⟩
      · exact absurd rfl hp0
      by_cases h0 : p' = []
      · rwa [h0]
      have := hopen p' hp' h0
      rw [linesDelta_cons]
      omega

/-- Every list of lines has its blocks. -/
theorem exists_blocks (alnum : Char → Bool) (lines : List Text) :
    ∃ ls, Blocks alnum ls ∧ ls.map Prod.fst = lines := by
  induction hlen : lines.length using Nat.strong_induction_on generalizing lines with
  | _ n ih =>
    cases lines with
    | nil => exact ⟨[], .nil, rfl⟩
    | cons l lines =>
      cases hstart : funcStart alnum false l with
      | false =>
        obtain ⟨ls, hls, hmap⟩ := ih lines.length (by simp [← hlen]) lines rfl
        exact ⟨(l, false) :: ls, .other hstart hls, by rw [List.map_cons, hmap]⟩
      | true =>
        have hsplit := List.takeWhile_append_dropWhile (p := staysOpen) (l := l :: lines)
        have hsig : ∀ s ∈ (l :: lines).takeWhile staysOpen, staysOpen s = true := fun s hs =>
          List.mem_takeWhile_imp hs
        have hhead := List.head?_dropWhile_not staysOpen (l :: lines)
        generalize (l :: lines).takeWhile staysOpen = sig at hsplit hsig
        generalize (l :: lines).dropWhile staysOpen = rest at hsplit hhead
        have hstarts : Starts alnum (sig ++ rest) := by
          rw [hsplit]
          exact hstart
        cases rest with
        | nil =>
          rw [List.append_nil] at hsplit hstarts
          exact ⟨marked false sig, .signature hstarts hsig, by rw [marked_fst, hsplit]⟩
        | cons m rest =>
          have hfirst : Starts alnum (sig ++ [m]) := by
            cases sig with
            | nil => exact hstarts
            | cons s sig => exact hstarts
          have hlength : (sig ++ m :: rest).length = n := by rw [hsplit, hlen]
          have hends : staysOpen m = false := by simpa using hhead
          cases hbrace : m.contains '{' with
          | false =>
            have hsemi : m.contains ';' = true := by
              have hbrace' : '{' ∉ m := by simpa using hbrace
              simpa [staysOpen, hbrace'] using hends
            obtain ⟨ls, hls, hmap⟩ := ih rest.length (by simp at hlength; omega) rest rfl
            refine ⟨_, .prototype hfirst hsig hsemi hbrace hls, ?_⟩
            rw [List.map_append, List.map_cons, marked_fst, hmap, hsplit]
          | true =>
            rcases closes_or_not 0 (m :: rest) with ⟨body, more, hbody, hne, hsum, hopen⟩
              | hopen
            · obtain ⟨b, body, rfl⟩ := List.exists_cons_of_ne_nil hne
              obtain ⟨rfl, rfl⟩ := List.cons.inj hbody
              obtain ⟨ls, hls, hmap⟩ := ih more.length (by simp at hlength; omega) more rfl
              refine ⟨marked false sig ++ (marked true (m :: body) ++ ls),
                .definition hfirst hsig hbrace (fun p hp h0 hall => ?_) ?_ hls, ?_⟩
              · simpa using hopen p hp h0 hall
              · simpa using hsum
              · rw [List.map_append, List.map_append, marked_fst, marked_fst, hmap, ← hsplit]
                rfl
            · refine ⟨marked false sig ++ marked true (m :: rest),
                .unended hfirst hsig hbrace fun p hp h0 => by simpa using hopen p hp h0, ?_⟩
              rw [List.map_append, marked_fst, marked_fst, hsplit]

/-! ## The scanner follows the blocks -/

/-- The lines on which the scanner substitutes. -/
def Scan.flags (alnum : Char → Bool) (s : Scan) : List Text → List Bool
  | [] => []
  | l :: ls => s.rewrites alnum l :: (s.next alnum l).flags alnum ls

/-- The scanner behind lines. -/
def Scan.after (alnum : Char → Bool) (s : Scan) (ls : List Text) : Scan :=
  ls.foldl (Scan.next alnum) s

theorem Scan.flags_append (s : Scan) (xs ys : List Text) :
    s.flags alnum (xs ++ ys) = s.flags alnum xs ++ (s.after alnum xs).flags alnum ys := by
  induction xs generalizing s with
  | nil => rfl
  | cons x xs ih =>
    rw [List.cons_append, Scan.flags, Scan.flags, ih]
    rfl

/-- In a signature. -/
def Scan.signature : Scan := ⟨true, false, 0⟩

/-- In a body with open braces. -/
def Scan.body (depth : Int) : Scan := ⟨false, true, depth⟩

/-- In a body, or behind it. -/
def Scan.closing (depth : Int) : Scan := if depth ≤ 0 then .initial else .body depth

/-- A function starts on the line, or its signature is open. -/
def Scan.Enters (alnum : Char → Bool) (s : Scan) (l : Text) : Prop :=
  s.enter alnum l = .signature

theorem initial_enters {l : Text} (h : funcStart alnum false l = true) :
    Scan.initial.Enters alnum l := by
  simp [Scan.Enters, Scan.enter, Scan.initial, Scan.signature, h]

theorem signature_enters (l : Text) : Scan.signature.Enters alnum l := by
  simp [Scan.Enters, Scan.enter, Scan.signature]

theorem initial_other {l : Text} (h : funcStart alnum false l = false) :
    Scan.initial.rewrites alnum l = false ∧ Scan.initial.next alnum l = .initial := by
  simp [Scan.rewrites, Scan.next, Scan.enter, Scan.initial, h, Scan.prototype, Scan.advance,
    Scan.opens]

theorem Scan.Enters.staysOpen {s : Scan} {l : Text} (hs : s.Enters alnum l)
    (hl : staysOpen l = true) : s.rewrites alnum l = false ∧ s.next alnum l = .signature := by
  have hs : s.enter alnum l = ⟨true, false, 0⟩ := hs
  obtain ⟨hsemi, hbrace⟩ : ';' ∉ l ∧ '{' ∉ l := by simpa [returns.staysOpen] using hl
  simp [Scan.rewrites, Scan.next, hs, Scan.signature, Scan.prototype, Scan.advance, Scan.opens,
    hsemi, hbrace]

theorem Scan.Enters.prototype {s : Scan} {l : Text} (hs : s.Enters alnum l)
    (hsemi : l.contains ';' = true) (hbrace : l.contains '{' = false) :
    s.rewrites alnum l = false ∧ s.next alnum l = .initial := by
  have hs : s.enter alnum l = ⟨true, false, 0⟩ := hs
  simp only [List.contains_eq_mem, decide_eq_true_eq, decide_eq_false_iff_not] at hsemi hbrace
  simp [Scan.rewrites, Scan.next, hs, Scan.initial, Scan.prototype, hsemi, hbrace]

theorem Scan.Enters.opens {s : Scan} {l : Text} (hs : s.Enters alnum l)
    (hbrace : l.contains '{' = true) : s.rewrites alnum l = true ∧
      s.next alnum l = .closing (braceDelta false false false l) := by
  have hs : s.enter alnum l = ⟨true, false, 0⟩ := hs
  simp only [List.contains_iff_mem] at hbrace
  simp [Scan.rewrites, Scan.next, hs, Scan.initial, Scan.prototype, Scan.opens, Scan.advance,
    Scan.leave, Scan.closing, Scan.body, hbrace]

theorem body_goes_on (d : Int) (l : Text) : (Scan.body d).rewrites alnum l = true ∧
    (Scan.body d).next alnum l = .closing (d + braceDelta false false false l) := by
  simp [Scan.rewrites, Scan.next, Scan.enter, Scan.body, Scan.prototype, Scan.opens, Scan.advance,
    Scan.leave, Scan.closing, Scan.initial]

/-- The lines of a signature are left, and the next line finds it open. -/
theorem signature_flags {s : Scan} {sig : List Text} (hsig : ∀ l ∈ sig, staysOpen l = true)
    (hs : ∀ l ∈ sig.head?, s.Enters alnum l) :
    s.flags alnum sig = List.replicate sig.length false ∧
      (sig ≠ [] → s.after alnum sig = .signature) := by
  induction sig generalizing s with
  | nil => exact ⟨rfl, fun h => absurd rfl h⟩
  | cons l sig ih =>
    obtain ⟨hrewrites, hnext⟩ := (hs l rfl).staysOpen (hsig l List.mem_cons_self)
    obtain ⟨hflags, hafter⟩ := ih (s := .signature)
      (fun l' hl' => hsig l' (List.mem_cons_of_mem l hl'))
      fun l' _ => signature_enters l'
    refine ⟨?_, fun _ => ?_⟩
    · rw [Scan.flags, hrewrites, hnext, hflags]
      rfl
    · cases sig with
      | nil => exact hnext
      | cons m sig =>
        have hrest : s.after alnum (l :: m :: sig) = (s.next alnum l).after alnum (m :: sig) := rfl
        rw [hrest, hnext]
        exact hafter (List.cons_ne_nil m sig)

/-- From the first line on, the first line behind a signature is read in it. -/
theorem enters_behind {sig : List Text} {l : Text} (hstarts : Starts alnum (sig ++ [l]))
    (hsig : ∀ s ∈ sig, staysOpen s = true) :
    Scan.initial.flags alnum sig = List.replicate sig.length false ∧
      (Scan.initial.after alnum sig).Enters alnum l := by
  cases sig with
  | nil => exact ⟨rfl, initial_enters (by simpa [Starts] using hstarts)⟩
  | cons s sig =>
    have hs : Scan.initial.Enters alnum s := initial_enters (by simpa [Starts] using hstarts)
    obtain ⟨hflags, hafter⟩ := signature_flags hsig fun l' hl' => by
      obtain rfl : s = l' := Option.some.inj hl'
      exact hs
    exact ⟨hflags, by rw [hafter (List.cons_ne_nil s sig)]; exact signature_enters l⟩

/-- The lines of a body are all taken, up to the one that closes it. -/
theorem body_flags {d : Int} (hd : 0 < d) {ls : List Text}
    (hopen : ∀ p, p <+: ls → p ≠ [] → p ≠ ls → 0 < d + linesDelta p) :
    (Scan.body d).flags alnum ls = List.replicate ls.length true ∧
      (Scan.body d).after alnum ls = .closing (d + linesDelta ls) := by
  induction ls generalizing d with
  | nil =>
    refine ⟨rfl, ?_⟩
    show Scan.body d = _
    rw [linesDelta_nil, Scan.closing, if_neg (by omega), Int.add_zero]
  | cons l ls ih =>
    obtain ⟨hrewrites, hnext⟩ := @body_goes_on alnum d l
    have hafter : (Scan.body d).after alnum (l :: ls) =
        ((Scan.body d).next alnum l).after alnum ls := rfl
    rw [Scan.flags, hafter, hrewrites, hnext, linesDelta_cons]
    cases ls with
    | nil => exact ⟨rfl, by rw [linesDelta_nil, Int.add_zero]; rfl⟩
    | cons m ls =>
      have hfirst : 0 < d + braceDelta false false false l := by
        simpa using hopen [l] ⟨m :: ls, rfl⟩ (List.cons_ne_nil l []) (by simp)
      rw [Scan.closing, if_neg (by omega), ← Int.add_assoc]
      obtain ⟨hflags, hrest⟩ := ih hfirst fun p hp h0 hall => by
        have := hopen (l :: p) (List.prefix_cons_inj l |>.mpr hp) (List.cons_ne_nil l p)
          (by simpa using hall)
        rw [linesDelta_cons] at this
        omega
      exact ⟨by rw [hflags]; rfl, hrest⟩

/-- A body from its first line on. -/
theorem opened_flags {s : Scan} {l : Text} (hs : s.Enters alnum l) (hbrace : l.contains '{' = true)
    {body : List Text}
    (hopen : ∀ p, p <+: l :: body → p ≠ [] → p ≠ l :: body → 0 < linesDelta p) :
    s.flags alnum (l :: body) = List.replicate (l :: body).length true ∧
      s.after alnum (l :: body) = .closing (linesDelta (l :: body)) := by
  obtain ⟨hrewrites, hnext⟩ := hs.opens hbrace
  have hafter : s.after alnum (l :: body) = (s.next alnum l).after alnum body := rfl
  rw [Scan.flags, hafter, hrewrites, hnext, linesDelta_cons]
  cases body with
  | nil => exact ⟨rfl, by rw [linesDelta_nil, Int.add_zero]; rfl⟩
  | cons m body =>
    have hfirst : 0 < braceDelta false false false l := by
      simpa using hopen [l] ⟨m :: body, rfl⟩ (List.cons_ne_nil l []) (by simp)
    rw [Scan.closing, if_neg (by omega)]
    obtain ⟨hflags, hrest⟩ := @body_flags alnum _ hfirst (m :: body) fun p hp h0 hall => by
      have := hopen (l :: p) (List.prefix_cons_inj l |>.mpr hp) (List.cons_ne_nil l p)
        (by simpa using hall)
      rwa [linesDelta_cons] at this
    exact ⟨by rw [hflags]; rfl, hrest⟩

/-- The scanner substitutes exactly on the lines that are taken for lines of a body. -/
theorem Blocks.flags {ls : List (Text × Bool)} (h : Blocks alnum ls) :
    Scan.initial.flags alnum (ls.map Prod.fst) = ls.map Prod.snd := by
  induction h with
  | nil => rfl
  | other hstart _ ih =>
    obtain ⟨hrewrites, hnext⟩ := initial_other hstart
    rw [List.map_cons, List.map_cons, Scan.flags, hrewrites, hnext, ih]
  | prototype hstarts hsig hsemi hbrace _ ih =>
    obtain ⟨hflags, henters⟩ := enters_behind hstarts hsig
    obtain ⟨hrewrites, hnext⟩ := henters.prototype hsemi hbrace
    rw [List.map_append, List.map_append, List.map_cons, List.map_cons, marked_fst, marked_snd,
      Scan.flags_append, hflags, Scan.flags, hrewrites, hnext, ih]
  | @signature sig hstarts hsig =>
    rw [marked_fst, marked_snd]
    refine (signature_flags hsig fun l hl => initial_enters ?_).1
    unfold Starts at hstarts
    rw [Option.mem_def.mp hl] at hstarts
    exact hstarts
  | definition hstarts hsig hbrace hopen hsum _ ih =>
    obtain ⟨hflags, henters⟩ := enters_behind hstarts hsig
    obtain ⟨hbody, hafter⟩ := opened_flags henters hbrace hopen
    rw [Scan.closing, if_pos hsum] at hafter
    simp only [List.map_append, marked_fst, marked_snd, Scan.flags_append, hflags,
      hbody, hafter, ih]
  | @unended sig body l hstarts hsig hbrace hopen =>
    obtain ⟨hflags, henters⟩ := enters_behind hstarts hsig
    obtain ⟨hbody, -⟩ := opened_flags henters hbrace fun p hp h0 _ => hopen p hp h0
    simp only [List.map_append, marked_fst, marked_snd, Scan.flags_append, hflags, hbody]

/-- Lines have one division into blocks. -/
theorem Blocks.unique {ls ls' : List (Text × Bool)} (h : Blocks alnum ls) (h' : Blocks alnum ls')
    (hsame : ls'.map Prod.fst = ls.map Prod.fst) : ls' = ls := by
  have hflags : ls'.map Prod.snd = ls.map Prod.snd := by rw [← h.flags, ← h'.flags, hsame]
  calc ls' = (ls'.map Prod.fst).zip (ls'.map Prod.snd) := List.zip_of_prod rfl rfl
    _ = (ls.map Prod.fst).zip (ls.map Prod.snd) := by rw [hsame, hflags]
    _ = ls := (List.zip_of_prod rfl rfl).symm

end wii_switch.returns
