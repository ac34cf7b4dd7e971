-- The beat of the retraces. Every retrace waits for a deadline that is one interval behind the
-- deadline before it, not behind the time it came back, so the deadlines do not drift: the last
-- one is the time of VIInit plus the intervals of all retraces. A host that sleeps as long as
-- it is asked to never lets the guest run ahead of it.
import WiiSwitch.RetraceRuns

namespace wii_switch

open Bytes OS VI

/-! ## The beat of a history -/

/-- The intervals of all retraces: each waits for the format that was active before it. -/
def elapsed : ViHistory → Int
  | [] => 0
  | (.waitForRetrace, _) :: h => elapsed h + retraceIntervalNs (lastArmed h).tvFormat
  | _ :: h => elapsed h

/-- The deadline of the retrace behind a history, on a clock that VIInit read first. -/
def deadline (clock : Nat → Int) (h : ViHistory) : Int :=
  clock 0 + elapsed h + retraceIntervalNs (lastArmed h).tvFormat

/-- How early the guest asks for the retrace behind a history. -/
def ahead (clock : Nat → Int) (h : ViHistory) : Int :=
  deadline clock h - clock ((retraces h).length + 1)

/-- What the host is asked to sleep, newest first: a retrace behind its deadline asks for no
sleep. -/
def sleeps (clock : Nat → Int) : ViHistory → List Int
  | [] => []
  | (.waitForRetrace, _) :: h =>
    if 0 < ahead clock h then ahead clock h :: sleeps clock h else sleeps clock h
  | _ :: h => sleeps clock h

/-- The clock never runs back, and runs on by as long as the host was asked to sleep. -/
def SleepsThrough (clock : Nat → Int) : ViHistory → Prop
  | [] => True
  | (.waitForRetrace, _) :: h => SleepsThrough clock h ∧
    clock ((retraces h).length + 1) + max 0 (ahead clock h) ≤ clock ((retraces h).length + 2)
  | _ :: h => SleepsThrough clock h

section

variable {h : ViHistory} {p : ViPending} {c : ViCall} {clock : Nat → Int}

theorem elapsed_of_ne (hc : c ≠ .waitForRetrace) : elapsed ((c, p) :: h) = elapsed h := by
  cases c <;> simp_all [elapsed]

theorem sleeps_of_ne (hc : c ≠ .waitForRetrace) :
    sleeps clock ((c, p) :: h) = sleeps clock h := by
  cases c <;> simp_all [sleeps]

theorem elapsed_of_none (hnone : retraces h = []) : elapsed h = 0 := by
  induction h with
  | nil => rfl
  | cons call h ih =>
    obtain ⟨c, p⟩ := call
    by_cases hc : c = .waitForRetrace
    · subst hc
      simp [retraces] at hnone
    · rw [retraces_of_ne hc] at hnone
      rw [elapsed_of_ne hc]
      exact ih hnone

theorem retraceIntervalNs_bounds (w : Word) :
    kNtscRetraceNs ≤ retraceIntervalNs w ∧ retraceIntervalNs w ≤ kPalRetraceNs := by
  unfold retraceIntervalNs kNtscRetraceNs kPalRetraceNs
  split <;> omega

/-- No retrace takes less than the shorter interval or more than the longer one. -/
theorem elapsed_bounds (h : ViHistory) :
    (retraces h).length * kNtscRetraceNs ≤ elapsed h ∧
      elapsed h ≤ (retraces h).length * kPalRetraceNs := by
  induction h with
  | nil => simp [elapsed, retraces]
  | cons call h ih =>
    obtain ⟨c, p⟩ := call
    by_cases hc : c = .waitForRetrace
    · subst hc
      have hone := retraceIntervalNs_bounds (lastArmed h).tvFormat
      simp only [elapsed, retraces, List.length_cons, Nat.cast_add, Nat.cast_one, add_mul, one_mul]
      exact ⟨add_le_add ih.1 hone.1, add_le_add ih.2 hone.2⟩
    · rw [elapsed_of_ne hc, retraces_of_ne hc]
      exact ih

/-- On a host that sleeps through, the clock is never ahead of the deadlines. -/
theorem deadline_le_clock (hsleep : SleepsThrough clock h) (hsome : retraces h ≠ []) :
    clock 0 + elapsed h ≤ clock ((retraces h).length + 1) := by
  induction h with
  | nil => simp [retraces] at hsome
  | cons call h ih =>
    obtain ⟨c, p⟩ := call
    by_cases hc : c = .waitForRetrace
    · subst hc
      have hlate := hsleep.2
      have hdeadline : clock 0 + elapsed ((.waitForRetrace, p) :: h) = deadline clock h := by
        rw [elapsed, deadline, add_assoc]
      rw [hdeadline, retraces, List.length_cons]
      unfold ahead at hlate
      have hmax := le_max_right 0 (deadline clock h - clock ((retraces h).length + 1))
      change deadline clock h ≤ clock ((retraces h).length + 2)
      omega
    · have hrest : SleepsThrough clock h := by
        cases c <;> simp_all [SleepsThrough]
      rw [retraces_of_ne hc] at hsome ⊢
      rw [elapsed_of_ne hc]
      exact ih hrest hsome

end

/-! ## The invariant -/

/-- The part of the state that the pacing reads and writes. -/
structure ViTimes where
  initialized : Bool
  lastRetraceNs : Int
  fieldOdd : Bool
  clock : Nat → Int
  asked : Nat
  slept : List Int

def ViState.times (v : ViState) : ViTimes :=
  ⟨v.initialized, v.lastRetraceNs, v.fieldOdd, v.clock, v.asked, v.slept⟩

/-- The pacing state holds the beat of the history. -/
structure Paced (h : ViHistory) (t : ViTimes) : Prop where
  unread : t.initialized = false → t.asked = 0
  read : t.initialized = true → t.asked = (retraces h).length + 1
  last : t.initialized = true → t.lastRetraceNs = t.clock 0 + elapsed h
  odd : t.initialized = true → t.fieldOdd = decide ((retraces h).length % 2 = 1)
  slept : t.slept = sleeps t.clock h

section

variable {h : ViHistory} {f : ViWords} {v v' : ViState} {p : ViPending} {cpu : CpuPtr}
  {config : List RegionConfig} {s s' : Machine Memory} {c : ViCall}

theorem paced_start (clock : Nat → Int) : Paced [] (ViState.start clock).times where
  unread := fun _ => rfl
  read := by simp [ViState.start, ViState.times]
  last := by simp [ViState.start, ViState.times]
  odd := by simp [ViState.start, ViState.times]
  slept := rfl

/-- VIInit reads the clock for the first time. -/
theorem Paced.inited (hp : Paced h v.times) (hfresh : v.initialized = false → retraces h = []) :
    Paced h v.inited.times := by
  cases hinit : v.initialized with
  | true =>
    rw [ViState.inited_of_initialized hinit]
    exact hp
  | false =>
    have hnone := hfresh hinit
    have hasked : v.asked = 0 := hp.unread hinit
    unfold ViState.inited ViState.times
    rw [if_neg (by simp [hinit])]
    constructor
    case unread => simp
    case read => simp [hasked, hnone]
    case last => simp [hasked, elapsed_of_none hnone]
    case odd => simp [hnone]
    case slept => exact hp.slept

/-- A call that is no retrace adds no beat. -/
theorem Paced.other (hp : Paced h v.times) (hc : c ≠ .waitForRetrace) :
    Paced ((c, p) :: h) v.times where
  unread := hp.unread
  read := by rw [retraces_of_ne hc]; exact hp.read
  last := by rw [elapsed_of_ne hc]; exact hp.last
  odd := by rw [retraces_of_ne hc]; exact hp.odd
  slept := by rw [sleeps_of_ne hc]; exact hp.slept

theorem ViState.retraced_times (v : ViState) (hinit : v.initialized = true) :
    v.retraced.times = ⟨true, v.target, !v.fieldOdd, v.clock, v.asked + 1, v.paced.slept⟩ := by
  unfold retraced counted committed
  rw [ViState.inited_of_initialized hinit]
  split <;> simp [times, paced, hinit]

/-- A retrace adds one beat, and sleeps for what is left of it. -/
theorem Paced.retraced (hp : Paced h v.times) (hl : Latches h f v) (hinit : v.initialized = true) :
    Paced ((.waitForRetrace, p) :: h) v.retraced.times := by
  have hlast : v.lastRetraceNs = v.clock 0 + elapsed h := hp.last hinit
  have hasked : v.asked = (retraces h).length + 1 := hp.read hinit
  have hodd : v.fieldOdd = decide ((retraces h).length % 2 = 1) := hp.odd hinit
  have htarget : v.target = deadline v.clock h := by
    rw [ViState.target, hlast, hl.active.tvFormat, deadline]
  rw [v.retraced_times hinit]
  constructor
  case unread => simp
  case read => simp [retraces, hasked]
  case last =>
    intro _
    simp only [elapsed, htarget, deadline, add_assoc]
  case odd =>
    intro _
    simp only [retraces, List.length_cons, hodd, ← decide_not]
    exact decide_eq_decide.mpr (by omega)
  case slept =>
    have hslept : v.slept = sleeps v.clock h := hp.slept
    have hsleep : v.target - v.clock v.asked = ahead v.clock h := by rw [ahead, htarget, hasked]
    have hearly : v.clock v.asked < v.target ↔ 0 < ahead v.clock h := by
      rw [← hsleep]
      omega
    simp only [ViState.paced, sleeps, hsleep, hslept, hearly]

/-- Only VIInit and a retrace touch the pacing state. -/
theorem call_times (hd : Displays config s.mem f) (hc : c ≠ .waitForRetrace)
    (hcall : c.routine cpu (s, v) = .ret () (s', v')) :
    v'.times = v.times ∨ v'.times = v.inited.times := by
  have hstate : ∀ {t : Machine Memory} {u : ViState}, c.routine cpu (s, v) = .ret () (t, u) →
      v' = u := by
    intro t u hrun
    rw [hcall] at hrun
    injection hrun with _ hpair
    injection hpair
  cases c with
  | init =>
    obtain ⟨t, hrun, _⟩ := advances_viInit (v := v) cpu s hd
    exact .inr (hstate hrun ▸ rfl)
  | configure =>
    by_cases hrej : RejectsMode config cpu (s.gpr cpu 3)
    · obtain ⟨t, hrun, _⟩ := viConfigure_rejects (v := v) hd hrej
      exact .inl (hstate hrun ▸ rfl)
    · obtain ⟨t, mode, hrun, _⟩ := viConfigure_runs (v := v) hd hrej
      exact .inr (hstate hrun ▸ rfl)
  | setBlack =>
    obtain ⟨t, hrun, _⟩ := viSetBlack_runs (v := v) cpu hd
    have hblack := hstate hrun
    unfold ViState.blackened at hblack
    split at hblack
    · exact .inl (hblack ▸ rfl)
    · exact .inr (hblack ▸ rfl)
  | flush =>
    obtain ⟨t, hrun, _⟩ := advances_viFlush (v := v) cpu s hd
    exact .inr (hstate hrun ▸ rfl)
  | waitForRetrace => exact absurd rfl hc

/-- What one call does to the beat. -/
theorem call_paced (hd : Displays config s.mem f) (hl : Latches h f v) (hp : Paced h v.times)
    (hwait : c = .waitForRetrace → cpu ≠ 0 ∧ RetraceIdle s.mem v)
    (hcall : c.routine cpu (s, v) = .ret () (s', v')) : Paced ((c, p) :: h) v'.times := by
  have hinited := hp.inited hl.fresh
  by_cases hc : c = .waitForRetrace
  · subst hc
    obtain ⟨hcpu, hidle⟩ := hwait rfl
    obtain ⟨t, hrun, _⟩ := advances_viWaitForRetrace hcpu (hidle.words hd) s hd
    have hrun' : ViCall.waitForRetrace.routine cpu (s, v) = .ret () (t, v.retraced) := hrun
    rw [hcall] at hrun'
    injection hrun' with _ hpair
    injection hpair with _ hv
    rw [hv, ← v.inited_retraced]
    exact hinited.retraced hl.inited v.inited_initialized
  · rcases call_times hd hc hcall with hsame | hsame
    · rw [hsame]
      exact hp.other hc
    · rw [hsame]
      exact hinited.other hc

theorem run_paced (hmaps : MapsVi config) (hrun : ViRun config h s v) : Paced h v.times := by
  induction hrun with
  | start _ => exact paced_start _
  | guest _ _ _ ih => exact ih
  | call hbefore hwait hcall ih =>
    obtain ⟨f, hd, hl⟩ := run_latches hmaps hbefore
    exact call_paced hd hl ih hwait hcall

/-! ## The law -/

/-- What the pacing state shows of the history that led to it. -/
structure KeepsTheBeat (h : ViHistory) (v : ViState) : Prop where
  last : retraces h ≠ [] → v.lastRetraceNs = v.clock 0 + elapsed h
  slept : v.slept = sleeps v.clock h
  readings : retraces h ≠ [] → v.asked = (retraces h).length + 1
  field : retraces h ≠ [] → v.fieldOdd = decide ((retraces h).length % 2 = 1)
  onTime : SleepsThrough v.clock h → retraces h ≠ [] →
    v.clock 0 + (retraces h).length * kNtscRetraceNs ≤ v.lastRetraceNs ∧
      v.lastRetraceNs ≤ v.clock v.asked

/-- After every history the last deadline is the time of VIInit plus the intervals of all
retraces, the host was asked to sleep for what was left of each, and no host that sleeps
through comes back from a retrace before its deadline. -/
theorem retraces_keep_the_beat (hmaps : MapsVi config) (hrun : ViRun config h s v) :
    KeepsTheBeat h v := by
  have hp := run_paced hmaps hrun
  obtain ⟨f, _, hl⟩ := run_latches hmaps hrun
  have hinit : retraces h ≠ [] → v.initialized = true := by
    intro hsome
    by_contra hnot
    exact hsome (hl.fresh (Bool.not_eq_true _ ▸ hnot))
  have hlast : retraces h ≠ [] → v.lastRetraceNs = v.clock 0 + elapsed h :=
    fun hsome => hp.last (hinit hsome)
  have hread : retraces h ≠ [] → v.asked = (retraces h).length + 1 :=
    fun hsome => hp.read (hinit hsome)
  constructor
  case last => exact hlast
  case slept => exact hp.slept
  case readings => exact hread
  case field => exact fun hsome => hp.odd (hinit hsome)
  case onTime =>
    intro hsleep hsome
    rw [hlast hsome, hread hsome]
    exact ⟨Int.add_le_add_left (elapsed_bounds h).1 _, deadline_le_clock hsleep hsome⟩

end

/-- A retrace right behind VIInit, on a host that sleeps for the whole interval. -/
theorem the_first_retrace_is_on_time : ∃ (h : ViHistory) (s : Machine Memory) (v : ViState),
    ViRun wiiDefaults h s v ∧ KeepsTheBeat h v ∧ SleepsThrough v.clock h ∧
      v.slept = [kNtscRetraceNs] := by
  obtain ⟨m, hm⟩ := Option.isSome_iff_exists.mp wiiBoot_isSome
  let clock : Nat → Int := fun n => if n ≤ 1 then 0 else kNtscRetraceNs
  have hd₀ : Displays wiiDefaults (bootMachine m).mem fun _ => 0#32 := wiiBoot_displays hm
  have hrun₀ : ViRun wiiDefaults [] (bootMachine m) (.start clock) := .start hd₀.serves
  have hidle : ∀ v, RetraceIdle (bootMachine m).mem v :=
    fun v => ⟨hd₀.words _, hd₀.words _, fun _ => hd₀.words _, fun _ => hd₀.words _⟩
  obtain ⟨s₁, hcall₁, _⟩ := advances_viWaitForRetrace (Nat.succ_ne_zero 0)
    ((hidle _).words hd₀) (bootMachine m) hd₀
  have hrun₁ :=
    ViRun.call (c := .waitForRetrace) hrun₀ (fun _ => ⟨by decide, hidle _⟩) hcall₁
  have hlaw := retraces_keep_the_beat wii_mapsVi hrun₁
  exact ⟨_, _, _, hrun₁, hlaw, ⟨trivial, by decide⟩, by decide⟩

end wii_switch
