-- The host stacks of the fibers over whole runs. A stack is freed by `create`, when it makes
-- a new fiber for a thread. In no run does a switch go to a stack that was freed, and no
-- stack is entered twice.
import WiiSwitch.FiberTable

namespace wii_switch

open OS Routine

/-! ## The table behind a switch -/

theorem loaded_record (s : Machine Memory) (t : Word) (c : CpuPtr) (i j : Fin 64) :
    (s.loaded t c i).fibers.records j =
      if j = i then { s.recordAtSwitch c i with state := .running } else s.recordAtSwitch c j :=
  Function.update_apply ..

theorem loaded_used {s : Machine Memory} {t : Word} {c : CpuPtr} {i j : Fin 64}
    (hi : s.fibers.Used i) : (s.loaded t c i).fibers.Used j ↔ s.fibers.Used j := by
  unfold GuestFibers.Used
  rw [loaded_record]
  by_cases hji : j = i
  · rw [if_pos hji, hji]
    exact iff_of_true (fun h => FiberState.noConfusion h) hi
  · rw [if_neg hji]
    rfl

/-! ## The invariant -/

/-- The records, the host contexts and the stacks that wait fit together. `started` are the
stacks that have run. -/
structure StacksOwned (started : List Handle) (f : GuestFibers) (h : HostContexts)
    (waiting : Handle → Option Waiting) : Prop where
  distinct : f.Distinct
  nodup : started.Nodup
  below : ∀ k ∈ started, 0 < k ∧ k < h.next
  runs_or_waits : ∀ k, k ∈ started ↔ k = h.current ∨ (waiting k).isSome
  idle : waiting h.current = none
  current_live : h.live h.current = true
  host_below : ∀ i, f.Used i → 0 < (f.records i).host ∧ (f.records i).host < h.next
  host_live : ∀ i, f.Used i → h.live (f.records i).host = true
  scheduled : ∀ i, f.Used i → f.schedulerHost ≠ 0
  scheduler : f.schedulerHost ≠ 0 → f.schedulerHost ∈ started
  scheduler_live : f.schedulerHost ≠ 0 → h.live f.schedulerHost = true
  flag : ∀ i, f.Used i →
    ((f.records i).schedulerHost = true ↔ (f.records i).host = f.schedulerHost)
  one : ∀ i j, f.Used i → f.Used j → (f.records i).host = (f.records j).host →
    (f.records i).schedulerHost = false → i = j
  argument : ∀ i, f.Used i → (f.records i).schedulerHost = false →
    h.argument (f.records i).host = (f.records i).guestThread
  previous : ∀ k w i, waiting k = some w → f.Used i → (f.records i).host = k →
    (f.records i).guestThread = w.frame.previousThread → w.frame.previous = some i

namespace StacksOwned

variable {started : List Handle} {f f' : GuestFibers} {h : HostContexts}
  {waiting : Handle → Option Waiting} {t : Word} {i j : Fin 64}

theorem current_started (ho : StacksOwned started f h waiting) : h.current ∈ started :=
  (ho.runs_or_waits _).mpr (Or.inl rfl)

theorem current_below (ho : StacksOwned started f h waiting) : 0 < h.current ∧
    h.current < h.next :=
  ho.below _ ho.current_started

theorem next_ne (ho : StacksOwned started f h waiting) : h.next ≠ 0 :=
  Nat.ne_of_gt (Nat.zero_lt_of_lt ho.current_below.2)

/-- A stack that waits has run. -/
theorem waits_below (ho : StacksOwned started f h waiting) {k : Handle} {w : Waiting}
    (hw : waiting k = some w) : k < h.next := by
  have hk : k ∈ started := (ho.runs_or_waits k).mpr (Or.inr (by rw [hw]; rfl))
  exact (ho.below k hk).2

/-- A fresh handle is of no stack that waits. -/
theorem next_idle (ho : StacksOwned started f h waiting) : waiting h.next = none := by
  cases hw : waiting h.next with
  | none => rfl
  | some w => exact absurd (ho.waits_below hw) (Nat.lt_irrefl _)

/-- A record in use has a stack. -/
theorem find_of_has (ho : StacksOwned started f h waiting) (hhas : f.has t = false) :
    f.find t = none := by
  unfold GuestFibers.has at hhas
  cases hfind : f.find t with
  | none => rfl
  | some i =>
    have hhost := (ho.host_below i (GuestFibers.find_spec hfind).2.1).1
    rw [hfind] at hhas
    exact absurd (not_not.mp (of_decide_eq_false hhas)) (Nat.ne_of_gt hhost)

/-- A stack in the table that has not run was made for its thread. -/
theorem argument_of_idle (ho : StacksOwned started f h waiting) (hi : f.Used i)
    (hne : (f.records i).host ≠ h.current) (hidle : waiting (f.records i).host = none) :
    h.argument (f.records i).host = (f.records i).guestThread := by
  apply ho.argument i hi
  rw [← Bool.not_eq_true, ho.flag i hi]
  intro hscheduler
  have hstarted := ho.scheduler (ho.scheduled i hi)
  rw [← hscheduler] at hstarted
  rcases (ho.runs_or_waits _).mp hstarted with h | h
  · exact hne h
  · rw [hidle] at h
    cases h

/-- Only the states and the saved registers of the records change, and who runs. -/
theorem restate (ho : StacksOwned started f h waiting) (hhost : f'.schedulerHost = f.schedulerHost)
    (hused : ∀ i, f'.Used i ↔ f.Used i)
    (hsame : ∀ i, (f'.records i).guestThread = (f.records i).guestThread ∧
      (f'.records i).host = (f.records i).host ∧
      (f'.records i).schedulerHost = (f.records i).schedulerHost) :
    StacksOwned started f' h waiting := by
  have hthread : ∀ i, (f'.records i).guestThread = (f.records i).guestThread :=
    fun i => (hsame i).1
  have hhosts : ∀ i, (f'.records i).host = (f.records i).host := fun i => (hsame i).2.1
  have hflags : ∀ i, (f'.records i).schedulerHost = (f.records i).schedulerHost :=
    fun i => (hsame i).2.2
  constructor
  · constructor
    · simpa only [hused, hthread] using ho.distinct.thread_ne
    · simpa only [hused, hthread] using ho.distinct.one
  · exact ho.nodup
  · exact ho.below
  · exact ho.runs_or_waits
  · exact ho.idle
  · exact ho.current_live
  · simpa only [hused, hhosts] using ho.host_below
  · simpa only [hused, hhosts] using ho.host_live
  · simpa only [hused, hhost] using ho.scheduled
  · simpa only [hhost] using ho.scheduler
  · simpa only [hhost] using ho.scheduler_live
  · simpa only [hused, hhosts, hflags, hhost] using ho.flag
  · simpa only [hused, hhosts, hflags] using ho.one
  · simpa only [hused, hhosts, hflags, hthread] using ho.argument
  · simpa only [hused, hhosts, hthread] using ho.previous

/-- The table learns of the first host stack. -/
theorem firstHost (ho : StacksOwned started f h waiting) :
    StacksOwned started { f with
      schedulerHost := if f.schedulerHost = 0 then h.current else f.schedulerHost } h waiting := by
  by_cases hzero : f.schedulerHost = 0
  · have hnone : ∀ i, ¬ f.Used i := fun i hi => ho.scheduled i hi hzero
    rw [if_pos hzero]
    constructor
    · exact ⟨fun i hi => absurd hi (hnone i), fun i _ hi => absurd hi (hnone i)⟩
    · exact ho.nodup
    · exact ho.below
    · exact ho.runs_or_waits
    · exact ho.idle
    · exact ho.current_live
    · exact fun i hi => absurd hi (hnone i)
    · exact fun i hi => absurd hi (hnone i)
    · exact fun i hi => absurd hi (hnone i)
    · exact fun _ => ho.current_started
    · exact fun _ => ho.current_live
    · exact fun i hi => absurd hi (hnone i)
    · exact fun i _ hi => absurd hi (hnone i)
    · exact fun i hi => absurd hi (hnone i)
    · exact fun _ _ i _ hi => absurd hi (hnone i)
  · rw [if_neg hzero]
    exact ho

/-- The host that `create` destroys is of no other record. -/
theorem replaced_other (ho : StacksOwned started f h waiting) (hj : f.Used j) (hij : j ≠ i) :
    (f.records j).host ≠ f.replaced t i := by
  unfold GuestFibers.replaced
  split
  · rename_i hfound
    obtain ⟨hfind, hflag⟩ := hfound
    intro heq
    exact hij (ho.one i j (GuestFibers.find_spec hfind).2.1 hj heq.symm hflag).symm
  · exact Nat.ne_of_gt (ho.host_below j hj).1

/-- Nor is it the first host stack. -/
theorem replaced_scheduler (ho : StacksOwned started f h waiting) (hne : f.schedulerHost ≠ 0) :
    f.schedulerHost ≠ f.replaced t i := by
  unfold GuestFibers.replaced
  split
  · rename_i hfound
    obtain ⟨hfind, hflag⟩ := hfound
    intro heq
    rw [(ho.flag i (GuestFibers.find_spec hfind).2.1).mpr heq.symm] at hflag
    cases hflag
  · exact hne

/-- What the other records keep when `create` takes a slot over. -/
theorem other_live (ho : StacksOwned started f h waiting) (hj : f.Used j) (hij : j ≠ i) :
    (h.destroy (f.replaced t i)).live (f.records j).host = true := by
  rw [HostContexts.destroy_live h (Or.inr (ho.replaced_other hj hij))]
  exact ho.host_live j hj

/-- `create` takes a slot over: it is cleared, or it gets the record of a fresh stack. -/
theorem takeOver (ho : StacksOwned started f h waiting) {r : GuestFiberRecord} {h' : HostContexts}
    (hnext : h'.next = h.next + 1) (hcurrent : h'.current = h.current)
    (hlive : ∀ k < h.next, h'.live k = (h.destroy (f.replaced t i)).live k)
    (hargument : ∀ k < h.next, h'.argument k = h.argument k)
    (hdistinct : (f.setRecord i r).Distinct)
    (hr : r.state ≠ .empty → f.schedulerHost ≠ 0 ∧ r.host = h.next ∧
      r.schedulerHost = false ∧
      h'.live h.next = true ∧ h'.argument h.next = r.guestThread) :
    StacksOwned started (f.setRecord i r) h' waiting := by
  have hcase := GuestFibers.setRecord_used (f := f) (i := i) (r := r) rfl
  have hcurrent_below := ho.current_below.2
  constructor
  · exact hdistinct
  · exact ho.nodup
  · intro k hk
    rw [hnext]
    exact ⟨(ho.below k hk).1, Nat.lt_succ_of_lt (ho.below k hk).2⟩
  · rw [hcurrent]
    exact ho.runs_or_waits
  · rw [hcurrent]
    exact ho.idle
  · rw [hcurrent, hlive _ hcurrent_below, HostContexts.destroy_live h (Or.inl rfl)]
    exact ho.current_live
  · intro j hj
    rw [hnext]
    rcases hcase j hj with ⟨_, hu, hold⟩ | ⟨_, hstate, hnew⟩
    · rw [hold]
      exact ⟨(ho.host_below j hu).1, Nat.lt_succ_of_lt (ho.host_below j hu).2⟩
    · rw [hnew, (hr hstate).2.1]
      exact ⟨Nat.zero_lt_of_lt hcurrent_below, Nat.lt_succ_self _⟩
  · intro j hj
    rcases hcase j hj with ⟨hji, hu, hold⟩ | ⟨_, hstate, hnew⟩
    · rw [hold, hlive _ (ho.host_below j hu).2]
      exact ho.other_live hu hji
    · obtain ⟨_, hhost, _, hl, _⟩ := hr hstate
      rw [hnew, hhost]
      exact hl
  · intro j hj
    rcases hcase j hj with ⟨_, hu, _⟩ | ⟨_, hstate, _⟩
    · exact ho.scheduled j hu
    · exact (hr hstate).1
  · exact ho.scheduler
  · intro hne
    have hold := (ho.below _ (ho.scheduler hne)).2
    change h'.live f.schedulerHost = true
    rw [hlive _ hold, HostContexts.destroy_live h (Or.inr (ho.replaced_scheduler hne))]
    exact ho.scheduler_live hne
  · intro j hj
    rcases hcase j hj with ⟨_, hu, hold⟩ | ⟨_, hstate, hnew⟩
    · rw [hold]
      exact ho.flag j hu
    · -- The first stack is older than the fresh one.
      obtain ⟨hne, hhost, hflag, _⟩ := hr hstate
      rw [hnew, hhost, hflag]
      have hold := (ho.below _ (ho.scheduler hne)).2
      exact iff_of_false Bool.false_ne_true (Nat.ne_of_gt hold)
  · intro j k hj hk heq hflag
    rcases hcase j hj with ⟨_, hu, hold⟩ | ⟨hji, hstate, hnew⟩
    · rw [hold] at heq hflag
      rcases hcase k hk with ⟨_, hu', hold'⟩ | ⟨_, hstate, hnew⟩
      · rw [hold'] at heq
        exact ho.one j k hu hu' heq hflag
      · rw [hnew, (hr hstate).2.1] at heq
        exact absurd heq (Nat.ne_of_lt (ho.host_below j hu).2)
    · rcases hcase k hk with ⟨_, hu', hold'⟩ | ⟨hki, _, _⟩
      · rw [hnew, hold', (hr hstate).2.1] at heq
        exact absurd heq (Nat.ne_of_gt (ho.host_below k hu').2)
      · rw [hji, hki]
  · intro j hj hflag
    rcases hcase j hj with ⟨_, hu, hold⟩ | ⟨_, hstate, hnew⟩
    · rw [hold] at hflag ⊢
      rw [hargument _ (ho.host_below j hu).2]
      exact ho.argument j hu hflag
    · obtain ⟨_, hhost, _, _, harg⟩ := hr hstate
      rw [hnew, hhost]
      exact harg
  · intro k w j hw hj hhost hthread
    rcases hcase j hj with ⟨_, hu, hold⟩ | ⟨_, hstate, hnew⟩
    · rw [hold] at hhost hthread
      exact ho.previous k w j hw hu hhost hthread
    · rw [hnew, (hr hstate).2.1] at hhost
      rw [← hhost, ho.next_idle] at hw
      cases hw

/-- `create` keeps the stacks. -/
theorem creates {s s' : Machine Memory} {entry arg top : Word} {seed : CpuPtr} {b : Bool}
    (ho : StacksOwned started s.fibers s.hosts waiting)
    (hc : s.Creates t entry arg top seed b s') :
    StacksOwned started s'.fibers s'.hosts waiting := by
  have hfirst := ho.firstHost
  cases hc with
  | refused => exact hfirst
  | cleared i _ _ _ =>
    apply hfirst.takeOver (t := t)
    · exact congrArg (· + 1) (HostContexts.destroy_next ..)
    · exact HostContexts.destroy_current ..
    · exact fun _ _ => rfl
    · exact fun k _ => congrFun (HostContexts.destroy_argument ..) k
    · exact hfirst.distinct.clear
    · exact fun h => absurd rfl h
  | made i hid2 ht hslot hready hgrants =>
    have hne : ∀ k < s.hosts.next, k ≠ (s.hosts.destroy (s.fibers.replaced t i)).next := by
      intro k hk
      rw [HostContexts.destroy_next]
      exact Nat.ne_of_lt hk
    apply hfirst.takeOver (t := t)
    · exact congrArg (· + 1) (HostContexts.destroy_next ..)
    · exact HostContexts.destroy_current ..
    · exact fun k hk => Function.update_of_ne (hne k hk) ..
    · intro k hk
      exact (Function.update_of_ne (hne k hk) ..).trans
        (congrFun (HostContexts.destroy_argument ..) k)
    · exact hfirst.distinct.setRecord ht hslot rfl
    · intro _
      have hfresh : (s.hosts.destroy (s.fibers.replaced t i)).next = s.hosts.next :=
        HostContexts.destroy_next ..
      refine ⟨hready, rfl, rfl, ?_, ?_⟩
      · rw [← hfresh]
        exact Function.update_self ..
      · rw [← hfresh]
        exact Function.update_self ..

/-- `register_current` keeps the stacks. -/
theorem registers {s s' : Machine Memory} {c : CpuPtr} {b : Bool}
    (ho : StacksOwned started s.fibers s.hosts waiting) (hr : s.Registers t c b s') :
    StacksOwned started s'.fibers s'.hosts waiting := by
  cases hr with
  | refused => exact ho
  | made i r ht hslot hready hcurrent hhost hruns =>
    obtain ⟨hthread, hrhost, _, hstate, hflag⟩ := hruns
    have hstarted : s.fibers.schedulerHost ∈ started := ho.scheduler hready
    have hcase : ∀ j, (s.fibers.setRecord i r).Used j →
        (s.fibers.Used j ∧ (s.fibers.setRecord i r).records j = s.fibers.records j) ∨
          (j = i ∧ (s.fibers.setRecord i r).records j = r) := by
      intro j hj
      by_cases hji : j = i
      · rw [hji]
        exact Or.inr ⟨rfl, GuestFibers.setRecord_self ..⟩
      · exact Or.inl ⟨(GuestFibers.used_setRecord_other hji).mp hj,
          GuestFibers.setRecord_other _ r hji⟩
    suffices hset : StacksOwned started (s.fibers.setRecord i r) s.hosts waiting from
      hset.restate rfl (fun _ => Iff.rfl) fun _ => ⟨rfl, rfl, rfl⟩
    constructor
    · exact ho.distinct.setRecord ht hslot hthread
    · exact ho.nodup
    · exact ho.below
    · exact ho.runs_or_waits
    · exact ho.idle
    · exact ho.current_live
    · intro j hj
      rcases hcase j hj with ⟨hu, hold⟩ | ⟨_, hnew⟩
      · rw [hold]
        exact ho.host_below j hu
      · rw [hnew, hrhost]
        exact ho.below _ hstarted
    · intro j hj
      rcases hcase j hj with ⟨hu, hold⟩ | ⟨_, hnew⟩
      · rw [hold]
        exact ho.host_live j hu
      · rw [hnew, hrhost, ← hcurrent]
        exact ho.current_live
    · exact fun _ _ => hready
    · exact fun _ => hstarted
    · exact ho.scheduler_live
    · intro j hj
      rcases hcase j hj with ⟨hu, hold⟩ | ⟨_, hnew⟩
      · rw [hold]
        exact ho.flag j hu
      · rw [hnew]
        exact iff_of_true hflag hrhost
    · intro j k hj hk heq hfalse
      rcases hcase j hj with ⟨hu, hold⟩ | ⟨_, hnew⟩
      · rw [hold] at heq hfalse
        rcases hcase k hk with ⟨hu', hold'⟩ | ⟨_, hnew⟩
        · rw [hold'] at heq
          exact ho.one j k hu hu' heq hfalse
        · -- A record on the first stack has its flag set.
          rw [hnew, hrhost] at heq
          rw [(ho.flag j hu).mpr heq] at hfalse
          cases hfalse
      · rw [hnew, hflag] at hfalse
        cases hfalse
    · intro j hj hfalse
      rcases hcase j hj with ⟨hu, hold⟩ | ⟨_, hnew⟩
      · rw [hold] at hfalse ⊢
        exact ho.argument j hu hfalse
      · rw [hnew, hflag] at hfalse
        cases hfalse
    · intro k w j hw hj hk hp
      rcases hcase j hj with ⟨hu, hold⟩ | ⟨_, hnew⟩
      · rw [hold] at hk hp
        exact ho.previous k w j hw hu hk hp
      · -- The first stack is the one that runs.
        rw [hnew, hrhost, ← hcurrent] at hk
        rw [← hk, ho.idle] at hw
        cases hw

/-- `suspend` and `resume` keep the stacks. -/
theorem setState (ho : StacksOwned started f h waiting) {state : FiberState}
    (hstate : state ≠ .empty) : StacksOwned started (f.setState t state) h waiting := by
  obtain ⟨hscheduler, _, hsame⟩ := setState_same f t hstate
  refine ho.restate hscheduler (fun j => (hsame j).1) fun j => ?_
  obtain ⟨state', hrecord⟩ := (hsame j).2
  rw [hrecord]
  exact ⟨rfl, rfl, rfl⟩

/-- The table after a switch has its records at the same places. -/
theorem loaded {s : Machine Memory} {c : CpuPtr}
    (ho : StacksOwned started s.fibers h waiting) (hi : s.fibers.Used i) :
    StacksOwned started (s.loaded t c i).fibers h waiting := by
  refine ho.restate rfl (fun _ => loaded_used hi) ?_
  intro j
  rw [loaded_record]
  by_cases hji : j = i
  · rw [if_pos hji, hji]
    exact ⟨rfl, rfl, rfl⟩
  · rw [if_neg hji]
    exact ⟨rfl, rfl, rfl⟩

/-- The end of a call that was switched away changes a record in use. -/
theorem leave {s : Machine Memory} {frame : SwitchFrame}
    (ho : StacksOwned started s.fibers h waiting)
    (hframe : ∀ i, frame.reclaims s.mem = some i → s.fibers.Used i) :
    StacksOwned started (frame.leave s).fibers h waiting := by
  unfold SwitchFrame.leave
  cases hreclaims : frame.reclaims s.mem with
  | none => exact ho.restate rfl (fun _ => Iff.rfl) fun _ => ⟨rfl, rfl, rfl⟩
  | some i =>
    have hi := hframe i hreclaims
    refine ho.restate rfl ?_ ?_
    · intro j
      by_cases hji : j = i
      · rw [hji]
        apply iff_of_true _ hi
        exact GuestFibers.used_setRecord_self.mpr fun h => FiberState.noConfusion h
      · exact GuestFibers.used_setRecord_other hji
    · intro j
      by_cases hji : j = i
      · rw [hji]
        change (((s.fibers.setRecord i _).records i).guestThread = _ ∧ _)
        simp
      · change (((s.fibers.setRecord i _).records j).guestThread = _ ∧ _)
        simp [GuestFibers.setRecord_other _ _ hji]

/-- The running stack waits as `w`, and a stack that has not run is entered. -/
theorem enter (ho : StacksOwned started f h waiting) {w : Waiting} {k : Handle}
    (hw : w.frame.previous = f.find w.frame.previousThread) (hi : f.Used i)
    (hk : (f.records i).host = k) (hne : k ≠ h.current) (hidle : waiting k = none) :
    StacksOwned (k :: started) f { h with current := k }
      (Function.update waiting h.current (some w)) := by
  subst hk
  have hnew : (f.records i).host ∉ started := by
    intro hk
    rcases (ho.runs_or_waits _).mp hk with h | h
    · exact hne h
    · rw [hidle] at h
      cases h
  constructor
  · exact ho.distinct
  · exact List.nodup_cons.mpr ⟨hnew, ho.nodup⟩
  · intro k hk
    rcases List.mem_cons.mp hk with rfl | hk
    · exact ho.host_below i hi
    · exact ho.below k hk
  · intro k
    rw [List.mem_cons, ho.runs_or_waits]
    by_cases hkc : k = h.current
    · rw [hkc, Function.update_self]
      simp
    · rw [Function.update_of_ne hkc]
      simp [hkc]
  · exact (Function.update_of_ne hne ..).trans hidle
  · exact ho.host_live i hi
  · exact ho.host_below
  · exact ho.host_live
  · exact ho.scheduled
  · exact fun h => List.mem_cons_of_mem _ (ho.scheduler h)
  · exact ho.scheduler_live
  · exact ho.flag
  · exact ho.one
  · exact ho.argument
  · intro k w' j hw' hj hhost hthread
    by_cases hkc : k = h.current
    · rw [hkc, Function.update_self] at hw'
      cases hw'
      rw [hw]
      exact ho.distinct.find_iff.mpr ⟨hj, hthread⟩
    · rw [Function.update_of_ne hkc] at hw'
      exact ho.previous k w' j hw' hj hhost hthread

/-- The running stack waits as `w`, and a stack that waited goes on. -/
theorem resume (ho : StacksOwned started f h waiting) {w w' : Waiting} {k : Handle}
    (hw : w.frame.previous = f.find w.frame.previousThread) (hi : f.Used i)
    (hk : (f.records i).host = k) (hne : k ≠ h.current) (hwaits : waiting k = some w') :
    StacksOwned started f { h with current := k }
      (Function.update (Function.update waiting h.current (some w)) k none) := by
  subst hk
  constructor
  · exact ho.distinct
  · exact ho.nodup
  · exact ho.below
  · intro k
    rw [ho.runs_or_waits]
    by_cases hkt : k = (f.records i).host
    · rw [hkt, hwaits]
      simp
    · rw [Function.update_of_ne hkt]
      by_cases hkc : k = h.current
      · rw [hkc, Function.update_self]
        simp
      · rw [Function.update_of_ne hkc]
        simp [hkc, hkt]
  · exact Function.update_self ..
  · exact ho.host_live i hi
  · exact ho.host_below
  · exact ho.host_live
  · exact ho.scheduled
  · exact ho.scheduler
  · exact ho.scheduler_live
  · exact ho.flag
  · exact ho.one
  · exact ho.argument
  · intro k v j hv hj hhost hthread
    by_cases hkt : k = (f.records i).host
    · rw [hkt, Function.update_self] at hv
      cases hv
    rw [Function.update_of_ne hkt] at hv
    by_cases hkc : k = h.current
    · rw [hkc, Function.update_self] at hv
      cases hv
      rw [hw]
      exact ho.distinct.find_iff.mpr ⟨hj, hthread⟩
    · rw [Function.update_of_ne hkc] at hv
      exact ho.previous k v j hv hj hhost hthread

end StacksOwned

/-! ## Runs -/

/-- The calls of the fiber layer that come back on the same stack. -/
inductive FiberCall where
  | initializeFromCurrentHost
  | create (guestThread entryPoint entryArg guestStackTop : Word) (seedCpu : CpuPtr)
  | registerCurrent (guestThread : Word) (cpu : CpuPtr)
  | suspend (guestThread : Word)
  | resume (guestThread : Word)

def FiberCall.code : FiberCall → OS Unit
  | .initializeFromCurrentHost => do
    let _ ← OS.initializeFromCurrentHost
  | .create guestThread entryPoint entryArg guestStackTop seedCpu => do
    let _ ← createFiber guestThread entryPoint entryArg guestStackTop seedCpu
  | .registerCurrent guestThread cpu => do
    let _ ← OS.registerCurrent guestThread cpu
  | .suspend guestThread => suspendFiber guestThread
  | .resume guestThread => resumeFiber guestThread

/-- The two words of the scheduler name the thread. -/
def Memory.Publishes (m : Memory) (t : Word) : Prop :=
  m.read32 kOSRunningContextAddr = some t ∧ m.read32 kOSCurrentContextAddr = some t

/-- The process before the first call of the fiber layer. -/
structure HostStacks.Fresh (sys : HostStacks) : Prop where
  empty : ∀ i, (sys.machine.fibers.records i).state = .empty
  scheduler : sys.machine.fibers.schedulerHost = 0
  unclaimed : sys.machine.fibers.currentGuestThread = 0#32
  current : 0 < sys.machine.hosts.current ∧ sys.machine.hosts.current < sys.machine.hosts.next
  live : sys.machine.hosts.live sys.machine.hosts.current = true
  idle : ∀ h, sys.waiting h = none

/-- The stacks that have run, once a call of `switch_to` has ended so. -/
def SwitchEnd.starts (started : List Handle) : SwitchEnd → List Handle
  | .entered host => host :: started
  | _ => started

/-- The runs of guest threads: guest code does what it likes short of the fiber table and the
host contexts, and it makes the calls of the fiber layer in any order; `switch_to` is called
for the thread that the scheduler has published. -/
inductive StackRun : List Handle → HostStacks → Prop
  | start {sys : HostStacks} : sys.Fresh → StackRun [sys.machine.hosts.current] sys
  | guest {started : List Handle} {sys : HostStacks} {m : Machine Memory} (cpu : CpuPtr) :
    StackRun started sys → m.fibers = sys.machine.fibers → m.hosts = sys.machine.hosts →
    StackRun started { sys with machine := m, cpu := cpu }
  | call {started : List Handle} {sys : HostStacks} (c : FiberCall) {m : Machine Memory} :
    StackRun started sys → c.code sys.machine = .ret () m →
    StackRun started { sys with machine := m }
  | switchTo {started : List Handle} {sys sys' : HostStacks} {t : Word} {c : CpuPtr}
    {e : SwitchEnd} : StackRun started sys → sys.machine.mem.Publishes t →
    sys.switchTo t c = some (e, sys') → StackRun (e.starts started) sys'

/-- The invariant of the runs. -/
structure HostStacks.Sound (started : List Handle) (sys : HostStacks) : Prop where
  kept : sys.Kept
  owned : StacksOwned started sys.machine.fibers sys.machine.hosts sys.waiting

theorem HostStacks.Fresh.unused {sys : HostStacks} (h : sys.Fresh) (i : Fin 64) :
    ¬ sys.machine.fibers.Used i := fun hi => hi (h.empty i)

theorem HostStacks.Fresh.sound {sys : HostStacks} (h : sys.Fresh) :
    sys.Sound [sys.machine.hosts.current] := by
  have hnone := h.unused
  constructor
  · intro k w hw
    rw [h.idle k] at hw
    cases hw
  constructor
  · exact ⟨fun i hi => absurd hi (hnone i), fun i _ hi => absurd hi (hnone i)⟩
  · exact List.nodup_singleton _
  · intro k hk
    rw [List.mem_singleton.mp hk]
    exact h.current
  · intro k
    simp [h.idle k]
  · exact h.idle _
  · exact h.live
  · exact fun i hi => absurd hi (hnone i)
  · exact fun i hi => absurd hi (hnone i)
  · exact fun i hi => absurd hi (hnone i)
  · exact fun hne => absurd h.scheduler hne
  · exact fun hne => absurd h.scheduler hne
  · exact fun i hi => absurd hi (hnone i)
  · exact fun i _ hi => absurd hi (hnone i)
  · exact fun i hi => absurd hi (hnone i)
  · exact fun _ _ i _ hi => absurd hi (hnone i)

/-- A routine whose result is dropped. -/
theorem ret_of_dropped {α : Type} {x : OS α} {s m : Machine Memory}
    (h : (do let _ ← x : OS Unit) s = .ret () m) : ∃ a, x s = .ret a m := by
  rw [bind_apply] at h
  cases hx : x s with
  | ret a s' =>
    rw [hx] at h
    cases h
    exact ⟨a, rfl⟩
  | stop e s' =>
    rw [hx] at h
    cases h
  | call i s' k =>
    rw [hx] at h
    cases h

theorem initializeFromCurrentHost_ret {s m : Machine Memory} {b : Bool}
    (h : initializeFromCurrentHost s = .ret b m) : m = s.scheduled := by
  unfold initializeFromCurrentHost at h
  rw [bind_of (gets_apply ..), bind_of (getFibers_apply s), Routine.ite_apply] at h
  unfold Machine.scheduled
  by_cases hhost : s.fibers.schedulerHost = 0
  · rw [if_neg (not_not.mpr hhost), bind_of (modify_apply ..)] at h
    cases h
    rw [if_pos hhost]
  · rw [if_pos hhost] at h
    cases h
    rw [if_neg hhost]
    rfl

/-- What the calls of the fiber layer do to the machine. -/
inductive FiberCall.Gives (s : Machine Memory) : FiberCall → Machine Memory → Prop
  | initialized : Gives s .initializeFromCurrentHost s.scheduled
  | created {t entry arg top : Word} {seed : CpuPtr} {b : Bool} {m : Machine Memory} :
    s.Creates t entry arg top seed b m → Gives s (.create t entry arg top seed) m
  | registered {t : Word} {cpu : CpuPtr} {b : Bool} {m : Machine Memory} :
    s.Registers t cpu b m → Gives s (.registerCurrent t cpu) m
  | suspended (t : Word) :
    Gives s (.suspend t) (s.withFibers (s.fibers.setState t .waiting))
  | resumed (t : Word) : Gives s (.resume t) (s.withFibers (s.fibers.setState t .ready))

theorem FiberCall.gives {s m : Machine Memory} (c : FiberCall) (hnext : s.hosts.next ≠ 0)
    (h : c.code s = .ret () m) : c.Gives s m := by
  cases c with
  | initializeFromCurrentHost =>
    obtain ⟨b, h⟩ := ret_of_dropped h
    rw [initializeFromCurrentHost_ret h]
    exact .initialized
  | create t entry arg top seed =>
    obtain ⟨b, h⟩ := ret_of_dropped h
    exact .created (createFiber_cases hnext h)
  | registerCurrent t cpu =>
    obtain ⟨b, h⟩ := ret_of_dropped h
    exact .registered (registerCurrent_cases h)
  | suspend t =>
    cases h
    exact .suspended t
  | resume t =>
    cases h
    exact .resumed t

/-- A call of the fiber layer keeps the stacks. -/
theorem FiberCall.keeps_owned {started : List Handle} {waiting : Handle → Option Waiting}
    {s m : Machine Memory} (c : FiberCall) (h : c.code s = .ret () m)
    (ho : StacksOwned started s.fibers s.hosts waiting) :
    StacksOwned started m.fibers m.hosts waiting := by
  cases c.gives ho.next_ne h with
  | initialized => exact ho.firstHost
  | created hc => exact ho.creates hc
  | registered hr => exact ho.registers hr
  | suspended t => exact ho.setState fun h => FiberState.noConfusion h
  | resumed t => exact ho.setState fun h => FiberState.noConfusion h

theorem leave_hosts (frame : SwitchFrame) (s : Machine Memory) :
    (frame.leave s).hosts = s.hosts := by
  unfold SwitchFrame.leave
  split <;> rfl

/-- A stack that goes on gives its thread back the record that it has. -/
theorem HostStacks.Sound.reclaims_used {started : List Handle} {sys : HostStacks} {t : Word}
    {c : CpuPtr} {i j : Fin 64} {w : Waiting} (hs : sys.Sound started)
    (hpublished : sys.machine.mem.Publishes t) (hi : sys.machine.Switches t c i)
    (hw : sys.waiting (sys.machine.fibers.records i).host = some w)
    (hj : w.frame.reclaims sys.machine.mem = some j) : j = i := by
  obtain ⟨_, hused, hthread⟩ := GuestFibers.find_spec hi.found
  unfold SwitchFrame.reclaims at hj
  by_cases hselected : w.frame.Selected sys.machine.mem
  · rw [if_pos hselected] at hj
    -- The published thread is the one that left this stack.
    have hprevious : t = w.frame.previousThread :=
      Option.some_inj.mp (hpublished.1.symm.trans hselected.2.1)
    have hrecord := hs.owned.previous _ w i hw hused rfl (hthread.trans hprevious)
    exact Option.some_inj.mp (hj.symm.trans hrecord)
  · rw [if_neg hselected] at hj
    cases hj

/-- A switch keeps the stacks. -/
theorem HostStacks.Sound.goes {started : List Handle} {sys sys' : HostStacks} {t : Word}
    {c : CpuPtr} {i : Fin 64} {e : SwitchEnd} (hs : sys.Sound started)
    (hpublished : sys.machine.mem.Publishes t) (hi : sys.machine.Switches t c i)
    (h : sys.Goes t c i e sys') : sys'.Sound (e.starts started) := by
  have hused := (GuestFibers.find_spec hi.found).2.1
  refine ⟨h.kept hs.kept, ?_⟩
  cases h with
  | here => exact hs.owned.loaded hused
  | enter host j r1 r2 r13 lr hhost hne hidle =>
    have hentered := hs.owned.enter (w := sys.caller c) rfl hused hhost hne hidle
    exact hentered.loaded hused
  | resume host w hhost hne hwaits =>
    have hresumed := hs.owned.resume (w := sys.caller c) rfl hused hhost hne hwaits
    have hloaded := hresumed.loaded (t := t) (c := c) hused
    subst hhost
    change StacksOwned started (w.frame.leave ((sys.machine.loaded t c i).onHost _)).fibers
      (w.frame.leave ((sys.machine.loaded t c i).onHost _)).hosts _
    rw [leave_hosts]
    refine StacksOwned.leave (s := (sys.machine.loaded t c i).onHost _) hloaded ?_
    intro j hj
    rw [hs.reclaims_used hpublished hi hwaits hj]
    exact (loaded_used hused).mpr hused

theorem StackRun.sound {started : List Handle} {sys : HostStacks} (h : StackRun started sys) :
    sys.Sound started := by
  induction h with
  | start hfresh => exact hfresh.sound
  | guest cpu _ hfibers hhosts ih =>
    refine ⟨ih.kept, ?_⟩
    rw [hfibers, hhosts]
    exact ih.owned
  | call c _ hcall ih => exact ⟨ih.kept, c.keeps_owned hcall ih.owned⟩
  | switchTo _ hpublished hswitch ih =>
    rcases HostStacks.switchTo_cases ih.kept hswitch with ⟨rfl, rfl⟩ | ⟨i, hi, hgoes⟩
    · exact ih
    · exact ih.goes hpublished hi hgoes

/-! ## The law -/

/-- A call of `switch_to` that leaves its stack. -/
theorem switchTo_call {s m : Machine Memory} {t : Word} {c : CpuPtr} {host : Handle}
    {k : Machine Memory → Coop (Machine Memory) Stop Away Bool}
    (h : OS.switchTo t c s = .call (.host host) m k) :
    ∃ i, s.Switches t c i ∧ (s.fibers.records i).host = host ∧ host ≠ s.hosts.current ∧
      m = (s.loaded t c i).onHost host := by
  rcases switches_or_not s t c with ⟨i, hi⟩ | hnot
  · rw [switchTo_apply hi] at h
    by_cases hhost : (s.fibers.records i).host = s.hosts.current
    · rw [if_pos hhost] at h
      cases h
    · rw [if_neg hhost] at h
      cases h
      exact ⟨i, hi, rfl, hhost, rfl⟩
  · rw [hnot] at h
    cases h

/-- In every run the running stack, the stacks of the records in use and the first stack are
live, and no stack is entered twice. A switch goes to a live stack that has run and waits, or to
one that has not run; its entry then finds the record of the thread that the stack was made
for. -/
theorem a_switch_goes_to_a_live_stack {started : List Handle} {sys : HostStacks}
    (hrun : StackRun started sys) :
    started.Nodup ∧ sys.machine.hosts.live sys.machine.hosts.current = true ∧
    (∀ i, sys.machine.fibers.Used i →
      sys.machine.hosts.live (sys.machine.fibers.records i).host = true) ∧
    (sys.machine.fibers.schedulerHost ≠ 0 →
      sys.machine.hosts.live sys.machine.fibers.schedulerHost = true) ∧
    ∀ t c host m k, OS.switchTo t c sys.machine = .call (.host host) m k →
      m.hosts.live sys.machine.hosts.current = true ∧ m.hosts.live host = true ∧
      (host ∈ started → (sys.waiting host).isSome) ∧
      (host ∉ started → ∃ i, m.fibers.find (m.hosts.argument host) = some i ∧
        (m.fibers.records i).guestThread = t ∧ (m.fibers.records i).host = host) := by
  have hs := hrun.sound.owned
  refine ⟨hs.nodup, hs.current_live, hs.host_live, hs.scheduler_live, ?_⟩
  intro t c host m k h
  obtain ⟨i, hi, hhost, hne, rfl⟩ := switchTo_call h
  obtain ⟨_, hused, hthread⟩ := GuestFibers.find_spec hi.found
  refine ⟨hs.current_live, hhost ▸ hs.host_live i hused, ?_, ?_⟩
  · intro hk
    rcases (hs.runs_or_waits host).mp hk with h | h
    · exact absurd h hne
    · exact h
  · intro hk
    have hidle : sys.waiting host = none := by
      rw [← Option.not_isSome_iff_eq_none]
      exact fun h => hk ((hs.runs_or_waits host).mpr (Or.inr h))
    have hloaded := hs.loaded (t := t) (c := c) hused
    have hargument := hs.argument_of_idle hused (hhost ▸ hne) (hhost ▸ hidle)
    rw [hhost, hthread] at hargument
    refine ⟨i, ?_, ?_, ?_⟩
    · change (sys.machine.loaded t c i).fibers.find (sys.machine.hosts.argument host) = some i
      rw [hargument, hloaded.distinct.find_iff, loaded_used hused, loaded_record, if_pos rfl]
      exact ⟨hused, hthread⟩
    · change ((sys.machine.loaded t c i).fibers.records i).guestThread = t
      rw [loaded_record, if_pos rfl]
      exact hthread
    · change ((sys.machine.loaded t c i).fibers.records i).host = host
      rw [loaded_record, if_pos rfl]
      exact hhost

/-- A booted Wii on a host stack of its own. -/
def firstStack (mem : Memory) : HostStacks where
  machine := { bootMachine mem with
    hosts := ⟨1, 2, fun _ => 0#32, fun h => h == 1, fun _ => true⟩
    dispatch := fun _ => some ⟨false, 0#32⟩ }
  cpu := 1
  waiting := fun _ => none

theorem firstStack_fresh (mem : Memory) : (firstStack mem).Fresh :=
  ⟨fun _ => rfl, rfl, rfl, ⟨Nat.one_pos, Nat.lt_succ_self 1⟩, rfl, fun _ => rfl⟩

/-- A native call of the fiber layer. -/
def HostStacks.fiberCall (sys : HostStacks) (c : FiberCall) : Option HostStacks :=
  (c.code sys.machine).ended.map fun r => { sys with machine := r.2 }

theorem StackRun.fiberCall {started : List Handle} {sys sys' : HostStacks} {c : FiberCall}
    (hrun : StackRun started sys) (h : sys.fiberCall c = some sys') : StackRun started sys' := by
  obtain ⟨⟨_, m⟩, hended, rfl⟩ := Option.map_eq_some_iff.mp h
  exact hrun.call c (Coop.ret_of_ended hended)

/-- The first switch to a new thread. -/
theorem the_first_switch_goes_to_a_live_stack : ∃ sys m k,
    StackRun [1] sys ∧ OS.switchTo 0x80400000#32 1 sys.machine = .call (.host 2) m k ∧
      m.hosts.live 2 = true := by
  have hrun : (wiiBoot.bind fun m => ((firstStack m).fiberCall
      (.create 0x80400000#32 0x80001000#32 0#32 0x80500000#32 1)).map fun sys =>
        (sys.machine.fibers.find 0x80400000#32, (sys.machine.fibers.records 0).host,
          sys.machine.fibersAvailable, sys.machine.hosts.current)) = some (some 0, 2, true, 1) := by
    decide +kernel
  obtain ⟨mem, _, hrun⟩ := Option.bind_eq_some_iff.mp hrun
  obtain ⟨sys, hcreate, hfacts⟩ := Option.map_eq_some_iff.mp hrun
  simp only [Prod.mk.injEq] at hfacts
  obtain ⟨hfind, hhost, havailable, hcurrent⟩ := hfacts
  have hstarted : StackRun [1] sys := (StackRun.start (firstStack_fresh mem)).fiberCall hcreate
  have hswitch := switchTo_apply (s := sys.machine) (t := 0x80400000#32) (c := 1) (i := 0)
    ⟨hfind, havailable, by rw [hhost]; decide, by decide⟩
  rw [hhost, hcurrent, if_neg (by decide)] at hswitch
  obtain ⟨_, _, _, _, hgoes⟩ := a_switch_goes_to_a_live_stack hstarted
  exact ⟨sys, _, _, hstarted, hswitch, (hgoes _ _ _ _ _ hswitch).2.1⟩

end wii_switch
