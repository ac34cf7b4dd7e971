-- OSGetTime (include/switch_os_hle_traits.hpp) over the time base of the host
-- (source/ppc_runtime_helpers_bridge.cpp). The two halves of the time come from readings at
-- different instants, and the call tries again until the upper half is the same before and
-- behind the lower one.
import WiiSwitch.WiiLayout
import Mathlib

namespace wii_switch

open Bytes OS

/-! ## The clock -/

/-- The steady clock of the host: its readings in nanoseconds, the reading at the start of the
process, and how many were taken. -/
structure HostClock where
  now : Nat → Int
  timeBaseStart : Int
  asked : Nat

/-- A routine over the machine and the clock. -/
abbrev Timed := Routine (Machine Memory × HostClock) Stop Away

/-- `TimeBaseContract::NanosecondsToTicks`, which the build takes from the pinned runtime. -/
abbrev Ticks := Word64 → Word64

/-- What the time base is at a reading. -/
def timeBaseAt (nanosecondsToTicks : Ticks) (c : HostClock) (k : Nat) : Word64 :=
  nanosecondsToTicks (BitVec.ofInt 64 (c.now k - c.timeBaseStart))

section

variable (nanosecondsToTicks : Ticks)

/-- `GetTimeBase`. -/
def getTimeBase : Timed Word64 := do
  let c ← Routine.gets fun p => p.2
  Routine.modify fun p => (p.1, { p.2 with asked := p.2.asked + 1 })
  return timeBaseAt nanosecondsToTicks c c.asked

/-- `PPC_Mftb`. -/
def ppcMftb : Timed Word := do
  let t ← getTimeBase nanosecondsToTicks
  return t.setWidth 32

/-- `PPC_Mftbu`. -/
def ppcMftbu : Timed Word := do
  let t ← getTimeBase nanosecondsToTicks
  return (t >>> 32).setWidth 32

/-- A change of a register. -/
def setTimedGpr (cpu : CpuPtr) (i : Fin 32) (x : Word) : Timed Unit :=
  Routine.modify fun p => (p.1.setGpr cpu i x, p.2)

/-- The loop of `OSGetTime`. -/
def getTimeLoop (cpu : CpuPtr) : Nat → Timed Unit
  | 0 => Routine.stop .diverge
  | fuel + 1 => do
    let hi1 ← ppcMftbu nanosecondsToTicks
    let lo ← ppcMftb nanosecondsToTicks
    let hi2 ← ppcMftbu nanosecondsToTicks
    if hi1 = hi2 then
      setTimedGpr cpu 3 hi1
      setTimedGpr cpu 4 lo
    else getTimeLoop cpu fuel

/-- `OSGetTime`. -/
def osGetTime (fuel : Nat) (cpu : CpuPtr) : Timed Unit :=
  if cpu = 0 then pure () else getTimeLoop nanosecondsToTicks cpu fuel

end

/-- The time in r3 and r4. -/
def timeResult (s : Machine Memory) (cpu : CpuPtr) : Word64 := s.gpr cpu 3 ++ s.gpr cpu 4

/-! ## The assumptions -/

/-- The steady clock does not go back, and its 64-bit count does not wrap. -/
structure HostClock.Steady (c : HostClock) : Prop where
  monotone : Monotone c.now
  fits : ∀ k, 0 ≤ c.now k - c.timeBaseStart ∧ c.now k - c.timeBaseStart < 2 ^ 64

/-- The time base does not go back. -/
def NonDecreasing (T : Nat → Word64) : Prop := ∀ i j, i ≤ j → T i ≤ T j

/-- A steady clock and a monotone conversion give a time base that does not go back. -/
theorem timeBaseAt_nonDecreasing {nanosecondsToTicks : Ticks} {c : HostClock} (hc : c.Steady)
    (hticks : ∀ x y, x ≤ y → nanosecondsToTicks x ≤ nanosecondsToTicks y) :
    NonDecreasing (timeBaseAt nanosecondsToTicks c) := by
  intro i j hij
  apply hticks
  obtain ⟨hi, hi'⟩ := hc.fits i
  obtain ⟨hj, hj'⟩ := hc.fits j
  have hle := hc.monotone hij
  rw [BitVec.le_def, BitVec.toNat_ofInt, BitVec.toNat_ofInt]
  omega

/-! ## One try -/

/-- The upper half. -/
def upper (t : Word64) : Word := (t >>> 32).setWidth 32

/-- The lower half. -/
def lower (t : Word64) : Word := t.setWidth 32

theorem upper_toNat (t : Word64) : (upper t).toNat = t.toNat / 2 ^ 32 := by
  have := t.isLt
  simp only [upper, BitVec.toNat_setWidth, BitVec.toNat_ushiftRight, Nat.shiftRight_eq_div_pow]
  omega

theorem upper_append_lower (t : Word64) : upper t ++ lower t = t := by
  apply BitVec.eq_of_toNat_eq
  have hlow : (lower t).toNat < 2 ^ 32 := (lower t).isLt
  rw [BitVec.toNat_append, Nat.shiftLeft_eq, or_add hlow, upper_toNat, lower,
    BitVec.toNat_setWidth]
  omega

theorem upper_mono {t u : Word64} (h : t ≤ u) : upper t ≤ upper u := by
  rw [BitVec.le_def] at h ⊢
  rw [upper_toNat, upper_toNat]
  omega

/-- Two readings with one upper half, and a reading between them. -/
theorem upper_between {T : Nat → Word64} (hT : NonDecreasing T) {i j k : Nat} (hij : i ≤ j)
    (hjk : j ≤ k) (h : upper (T i) = upper (T k)) : upper (T i) = upper (T j) := by
  have hlow := upper_mono (hT i j hij)
  have hhigh := upper_mono (hT j k hjk)
  apply BitVec.eq_of_toNat_eq
  rw [BitVec.le_def] at hlow hhigh
  rw [h] at hlow ⊢
  omega

section

variable {nanosecondsToTicks : Ticks} {s s' : Machine Memory} {c c' : HostClock} {cpu : CpuPtr}

/-- One turn of the loop takes three readings. -/
theorem getTimeLoop_succ (fuel : Nat) :
    getTimeLoop nanosecondsToTicks cpu (fuel + 1) (s, c) =
      if upper (timeBaseAt nanosecondsToTicks c c.asked) =
          upper (timeBaseAt nanosecondsToTicks c (c.asked + 2)) then
        .ret () ((s.setGpr cpu 3 (upper (timeBaseAt nanosecondsToTicks c c.asked))).setGpr cpu 4
          (lower (timeBaseAt nanosecondsToTicks c (c.asked + 1))), { c with asked := c.asked + 3 })
      else getTimeLoop nanosecondsToTicks cpu fuel (s, { c with asked := c.asked + 3 }) :=
  Routine.ite_apply _ _ _ _

/-- The registers of the result. -/
theorem timeResult_set (hi lo : Word) :
    timeResult ((s.setGpr cpu 3 hi).setGpr cpu 4 lo) cpu = hi ++ lo := by
  unfold timeResult
  simp

/-- The loop only takes readings. -/
theorem getTimeLoop_clock {fuel : Nat}
    (hrun : getTimeLoop nanosecondsToTicks cpu fuel (s, c) = .ret () (s', c')) :
    ∃ n, c' = { c with asked := n } := by
  induction fuel generalizing c with
  | zero => cases hrun
  | succ fuel ih =>
    rw [getTimeLoop_succ] at hrun
    split at hrun
    case isTrue =>
      injection hrun with _ hstate
      injection hstate with _ hc
      exact ⟨c.asked + 3, hc.symm⟩
    case isFalse =>
      obtain ⟨n, hc⟩ := ih hrun
      exact ⟨n, hc⟩

/-- The loop returns a time that the time base had, whatever the number of tries. -/
theorem getTimeLoop_reads (hT : NonDecreasing (timeBaseAt nanosecondsToTicks c)) {fuel : Nat}
    (hrun : getTimeLoop nanosecondsToTicks cpu fuel (s, c) = .ret () (s', c')) :
    ∃ k, c.asked ≤ k ∧ k < c'.asked ∧
      timeResult s' cpu = timeBaseAt nanosecondsToTicks c k := by
  induction fuel generalizing c with
  | zero => cases hrun
  | succ fuel ih =>
    rw [getTimeLoop_succ] at hrun
    split at hrun
    case isTrue hsame =>
      injection hrun with _ hstate
      injection hstate with hs hc
      subst hs hc
      refine ⟨c.asked + 1, by simp, by simp, ?_⟩
      have hmid := upper_between hT (Nat.le_succ c.asked) (Nat.le_succ (c.asked + 1)) hsame
      rw [timeResult_set, hmid, upper_append_lower]
    case isFalse =>
      have hT' : NonDecreasing (timeBaseAt nanosecondsToTicks { c with asked := c.asked + 3 }) := hT
      obtain ⟨k, hlow, hhigh, hvalue⟩ := ih hT' hrun
      exact ⟨k, Nat.le_trans (Nat.le_add_right _ 3) hlow, hhigh, hvalue⟩

/-- Each failed try moves the upper half on, so the loop returns. -/
theorem getTimeLoop_returns (hT : NonDecreasing (timeBaseAt nanosecondsToTicks c)) {fuel : Nat}
    (hfuel : 2 ^ 32 ≤ (upper (timeBaseAt nanosecondsToTicks c c.asked)).toNat + fuel) :
    ∃ p, getTimeLoop nanosecondsToTicks cpu fuel (s, c) = .ret () p := by
  induction fuel generalizing c with
  | zero =>
    have := (upper (timeBaseAt nanosecondsToTicks c c.asked)).isLt
    omega
  | succ fuel ih =>
    rw [getTimeLoop_succ]
    split
    case isTrue => exact ⟨_, rfl⟩
    case isFalse hmoved =>
      have hT' : NonDecreasing (timeBaseAt nanosecondsToTicks { c with asked := c.asked + 3 }) := hT
      apply ih hT'
      have hmid := upper_mono (hT c.asked (c.asked + 2) (by omega))
      have hnext := upper_mono (hT (c.asked + 2) (c.asked + 3) (by omega))
      have hne := mt BitVec.eq_of_toNat_eq hmoved
      rw [BitVec.le_def] at hmid hnext
      change 2 ^ 32 ≤ (upper (timeBaseAt nanosecondsToTicks c (c.asked + 3))).toNat + fuel
      omega

end

/-! ## Runs -/

/-- A call that returned: the readings before it, the readings behind it, and its result. -/
structure TimeCall where
  entry : Nat
  exit : Nat
  value : Word64

/-- The calls so far, newest first. Between two calls the machine changes and others read the
clock. -/
inductive TimeRun (nanosecondsToTicks : Ticks) :
    List TimeCall → Machine Memory → HostClock → Prop
  | start {s : Machine Memory} {c : HostClock} : TimeRun nanosecondsToTicks [] s c
  | other {h : List TimeCall} {s s' : Machine Memory} {c : HostClock} {n : Nat} :
      TimeRun nanosecondsToTicks h s c → c.asked ≤ n →
      TimeRun nanosecondsToTicks h s' { c with asked := n }
  | call {h : List TimeCall} {s s' : Machine Memory} {c c' : HostClock} {cpu : CpuPtr}
      {fuel : Nat} :
      TimeRun nanosecondsToTicks h s c → cpu ≠ 0 →
      osGetTime nanosecondsToTicks fuel cpu (s, c) = .ret () (s', c') →
      TimeRun nanosecondsToTicks (⟨c.asked, c'.asked, timeResult s' cpu⟩ :: h) s' c'

/-- The time base had each result between the entry and the return of the call, and no result is
before the one of an older call. -/
structure Untorn (T : Nat → Word64) (h : List TimeCall) : Prop where
  instant : ∀ r ∈ h, ∃ k, r.entry ≤ k ∧ k < r.exit ∧ r.value = T k
  ordered : h.Pairwise fun newer older => older.value ≤ newer.value

section

variable {nanosecondsToTicks : Ticks} {s : Machine Memory} {c : HostClock} {h : List TimeCall}

/-- The call returns, for each steady clock. -/
theorem os_get_time_returns (hT : NonDecreasing (timeBaseAt nanosecondsToTicks c)) (cpu : CpuPtr) :
    ∃ p, osGetTime nanosecondsToTicks (2 ^ 32) cpu (s, c) = .ret () p := by
  unfold osGetTime
  split
  case isTrue => exact ⟨_, rfl⟩
  case isFalse => exact getTimeLoop_returns hT (Nat.le_add_left _ _)

/-- What holds behind every run. -/
structure TimesHold (T : Nat → Word64) (h : List TimeCall) (asked : Nat) : Prop where
  untorn : Untorn T h
  past : ∀ r ∈ h, r.exit ≤ asked

theorem run_times (hrun : TimeRun nanosecondsToTicks h s c)
    (hT : NonDecreasing (timeBaseAt nanosecondsToTicks c)) :
    TimesHold (timeBaseAt nanosecondsToTicks c) h c.asked := by
  induction hrun with
  | start => exact ⟨⟨fun r hr => absurd hr List.not_mem_nil, .nil⟩,
      fun r hr => absurd hr List.not_mem_nil⟩
  | other _ hn ih =>
    have hold := ih hT
    exact ⟨hold.untorn, fun r hr => Nat.le_trans (hold.past r hr) hn⟩
  | @call h s s' c c' cpu fuel hbefore hcpu hcall ih =>
    unfold osGetTime at hcall
    rw [if_neg hcpu] at hcall
    obtain ⟨n, rfl⟩ := getTimeLoop_clock hcall
    have hT' : NonDecreasing (timeBaseAt nanosecondsToTicks c) := hT
    have hold := ih hT'
    obtain ⟨k, hlow, hhigh, hvalue⟩ := getTimeLoop_reads hT' hcall
    constructor
    case untorn =>
      constructor
      case instant =>
        exact List.forall_mem_cons.mpr ⟨⟨k, hlow, hhigh, hvalue⟩, hold.untorn.instant⟩
      case ordered =>
        refine List.pairwise_cons.mpr ⟨fun r hr => ?_, hold.untorn.ordered⟩
        obtain ⟨k', _, hbound, hvalue'⟩ := hold.untorn.instant r hr
        have hpast := hold.past r hr
        rw [hvalue', hvalue]
        exact hT k' k (by omega)
    case past =>
      have hle : c.asked ≤ n := Nat.le_trans hlow (Nat.le_of_lt hhigh)
      exact List.forall_mem_cons.mpr ⟨Nat.le_refl n, fun r hr =>
        Nat.le_trans (hold.past r hr) hle⟩

/-- Each result is a time that the time base had during the call, so the results of successive
calls do not go back. -/
theorem os_get_time_is_never_torn (hT : NonDecreasing (timeBaseAt nanosecondsToTicks c))
    (hrun : TimeRun nanosecondsToTicks h s c) : Untorn (timeBaseAt nanosecondsToTicks c) h :=
  (run_times hrun hT).untorn

end

/-! ## A rollover -/

/-- A clock whose time base rolls over between its first two readings, and which then stands. -/
def rollingClock : HostClock := ⟨fun k => 0xFFFFFFFF + (min k 9 : Nat), 0, 0⟩

theorem rollingClock_steady : rollingClock.Steady := by
  constructor
  case monotone =>
    intro i j hij
    simp only [rollingClock]
    omega
  case fits =>
    intro k
    simp only [rollingClock]
    omega

/-- The first try meets the rollover, and the second one returns. -/
theorem the_time_behind_a_rollover : ∃ (s : Machine Memory) (c : HostClock) (r : TimeCall),
    TimeRun id [r] s c ∧ Untorn (timeBaseAt id c) [r] ∧ r.value = 0x100000003#64 := by
  obtain ⟨m, hm⟩ := Option.isSome_iff_exists.mp wiiBoot_isSome
  have hcall : osGetTime id 2 1 (bootMachine m, rollingClock) = .ret ()
      (((bootMachine m).setGpr 1 3 1#32).setGpr 1 4 3#32, { rollingClock with asked := 6 }) := by
    unfold osGetTime
    rw [if_neg (by decide), getTimeLoop_succ, if_neg (by decide), getTimeLoop_succ,
      if_pos (by decide)]
    rfl
  have hrun := TimeRun.call .start (Nat.succ_ne_zero 0) hcall
  have hT : NonDecreasing (timeBaseAt id rollingClock) :=
    timeBaseAt_nonDecreasing rollingClock_steady fun _ _ h => h
  refine ⟨_, _, _, hrun, os_get_time_is_never_torn hT hrun, ?_⟩
  exact timeResult_set _ _

end wii_switch
