-- The loop of OSReceiveMessage on an empty queue. One iteration puts the thread to sleep. It
-- ends: with another thread as the running context, at a reported boundary, or because the
-- sleep was refused, and the reasons for that are few. With the scheduler disabled the loop
-- comes back to the state that it started from, and never ends.
import WiiSwitch.RefusedSleep

namespace wii_switch

open OS Routine Ring SelectThread SleepThread ReceiveMessage

/-! ## One iteration -/

namespace ReceiveMessage

/-- The iteration of `receiveLoop` that finds the queue empty. -/
def emptyPass (sleepFuel : Nat) (cpu : CpuPtr) (queuePtr : Word) : OS Unit := do
  setGpr cpu 3 (queuePtr + kMsgQueueRecvOffset)
  osSleepThread sleepFuel cpu

end ReceiveMessage

/-- An empty queue: the loop sleeps and goes on, or it ends. -/
theorem receiveLoop_pass {s : Machine Memory} {q : Word}
    (hused : s.mem.read32 (q + kMsgQueueUsedOffset) = some 0#32) (sleepFuel fuel : Nat)
    (cpu : CpuPtr) (out : Word) (block : Bool) :
    receiveLoop sleepFuel cpu q out block (fuel + 1) s =
      if block = true then
        (emptyPass sleepFuel cpu q >>= fun _ => receiveLoop sleepFuel cpu q out block fuel) s
      else .ret 0#32 s := by
  rw [receiveLoop, bind_of (read32_ret hused), Routine.ite_apply, if_neg (not_not.mpr rfl)]
  cases block with
  | false => rfl
  | true =>
    rw [Routine.ite_apply, if_neg (by decide), if_pos rfl]
    simp only [emptyPass, bind_apply, Coop.bind_assoc]

/-- Why a sleep is refused: the scheduler is disabled, or SelectThread comes back. -/
def RefusesSleep (v : View) (qs : Fin 32 → List Word) (r answer : Word) : Prop :=
  v.word (.global kSchedulerIdleFlagAddr) ≠ 0#32 ∨ ComesBack v qs r answer

section

variable {L : Layout} {v : View} {qs : Fin 32 → List Word} {q r : Word} {xs : List Word}
  {sleepFuel : Nat} {cpu : CpuPtr}

/-- A blocking receive does not spin unless its sleep is refused. An iteration on an empty queue
ends the loop of a receive that does not block. Of one that blocks, it ends, hands the machine
over, or stops at a reported boundary; where it ends without a switch, another thread is the
running context, or the sleep was refused. -/
theorem an_empty_receive_repeats_only_when_refused {s : Machine Memory}
    (h : AboutToSleep L v qs (q + kMsgQueueRecvOffset) xs r) (hs : Represents L s.mem v)
    (hused : s.mem.read32 (q + kMsgQueueUsedOffset) = some 0#32) (hcpu : cpu ≠ 0)
    (hqueue : xs.length < sleepFuel) (hruns : stepsLeft qs v.mask < sleepFuel) (answer out : Word)
    (fuel : Nat) :
    receiveLoop sleepFuel cpu q out false (fuel + 1) s = .ret 0#32 s ∧
    receiveLoop sleepFuel cpu q out true (fuel + 1) s =
      (emptyPass sleepFuel cpu q >>= fun _ => receiveLoop sleepFuel cpu q out true fuel) s ∧
    (emptyPass sleepFuel cpu q s).Meets
      (withoutSwitch L answer fun e => ∃ kind a, e = .boundary kind a) fun _ t =>
        ∃ w, Represents L t.mem w ∧
        (w.runningContext ≠ r ∨ RefusesSleep v qs r answer) := by
  refine ⟨receiveLoop_pass hused .., receiveLoop_pass hused .., ?_⟩
  have hL := hs.sound
  have hr3 : (s.setGpr cpu 3 (q + kMsgQueueRecvOffset)).gpr (cpuOf cpu) 3 =
      q + kMsgQueueRecvOffset := by
    rw [show cpuOf cpu = cpu from if_pos hcpu]
    simp
  unfold emptyPass
  rw [bind_of (setGpr_apply ..)]
  refine (osSleepThread_refused hL h (fun kind a => ⟨kind, a, rfl⟩) (Or.inr ⟨hqueue, hruns⟩)
    (s := s.setGpr cpu 3 (q + kMsgQueueRecvOffset)) hs hr3).mono ?_
  rintro _ t ⟨w, hw, hslept⟩
  refine ⟨w, hw, ?_⟩
  rcases hslept with (hidle | ⟨_, hback⟩) | ⟨_, hmem, _⟩
  · exact Or.inr (Or.inl hidle)
  · exact Or.inr (Or.inr hback.reason)
  · refine Or.inl fun hrun => ?_
    exact h.notQueued hL (hrun ▸ hmem)

/-! ## Iterations that change nothing -/

/-- A set flag that is cleared already is not written. -/
theorem updateFlag_cleared {s : Machine Memory} (hs : Represents L s.mem v) {x : Half}
    (hx : s.mem.read16 (v.currentContext + kContextModeFlagsOffset) = some x)
    (hclear : withInterruptBit false x = x) :
    updateCurrentContextInterruptFlag false s = .ret () s := by
  have hcell : mapped32 kOSCurrentContextAddr s = .ret true s :=
    sees_mapped (c := .global kOSCurrentContextAddr) currentContext_mem rfl s hs
  have hcurrent : read32 kOSCurrentContextAddr s = .ret v.currentContext s :=
    sees_global currentContext_mem s hs
  unfold updateCurrentContextInterruptFlag
  rw [bind_of hcell, Routine.ite_apply, if_pos rfl, bind_of hcurrent]
  by_cases h0 : v.currentContext = 0#32
  · rw [if_pos h0]
    rfl
  · have hmapped : s.mem.contains (v.currentContext + kContextModeFlagsOffset) 2#64 = true := by
      rw [hs.serves.contains16, hx]
      rfl
    rw [if_neg h0, bind_of (contains_apply ..), hmapped, Routine.ite_apply, if_pos rfl,
      bind_of (read16_ret hx), onlyIf_apply, if_neg (by simpa using hclear)]

theorem setGpr_same {s : Machine Memory} {i : Fin 32} {x : Word} (h : s.gpr cpu i = x) :
    s.setGpr cpu i x = s := by
  have hfile : (s.cpus cpu).setGpr i x = s.cpus cpu := by
    unfold CpuContext.setGpr
    rw [← h]
    simp [Machine.gpr]
  unfold Machine.setGpr Machine.onCpu
  beta_reduce
  rw [hfile, Function.update_eq_self]

/-- With the scheduler disabled, an iteration that starts with the interrupts disabled ends in the
state where it started. -/
theorem emptyPass_disabled {s : Machine Memory}
    (h : AboutToSleep L v qs (q + kMsgQueueRecvOffset) xs r) (hs : Represents L s.mem v)
    (hidle : v.word (.global kSchedulerIdleFlagAddr) ≠ 0#32) (hcpu : cpu ≠ 0) {x : Half}
    (hx : s.mem.read16 (v.currentContext + kContextModeFlagsOffset) = some x)
    (hclear : withInterruptBit false x = x) (hoff : s.interruptsEnabled = false)
    (hr3 : s.gpr cpu 3 = 0#32) : emptyPass sleepFuel cpu q s = .ret () s := by
  have hcpu' : cpuOf cpu = cpu := if_pos hcpu
  have hsame := setGpr_same hr3
  -- to disable the interrupts, from any value of r3
  have hdisable : ∀ y, osDisableInterrupts cpu (s.setGpr cpu 3 y) = .ret () s := by
    intro y
    have hy : (s.setGpr cpu 3 y).setInterrupts false = s.setGpr cpu 3 y := by
      rw [← hoff]
      rfl
    have hflag : updateCurrentContextInterruptFlag false (s.setGpr cpu 3 y) =
        .ret () (s.setGpr cpu 3 y) := updateFlag_cleared (s := s.setGpr cpu 3 y) hs hx hclear
    have hzero : (s.setGpr cpu 3 y).setGpr cpu 3 0#32 = s := by
      rw [← hsame]
      simp [Machine.setGpr, Machine.onCpu, CpuContext.setGpr]
    unfold osDisableInterrupts exchangeInterrupts
    rw [bind_of (gets_apply ..), bind_of (modify_apply ..), hy, bind_of hflag, onlyIf_apply,
      if_pos (decide_eq_true hcpu)]
    change Coop.ret () ((s.setGpr cpu 3 y).setGpr cpu 3 (stateWord s.interruptsEnabled)) = _
    rw [hoff]
    exact congrArg _ hzero
  have hsleep : sleep sleepFuel cpu (q + kMsgQueueRecvOffset) s = .ret () s :=
    sees_sleep_disabled hs.sound h hidle s hs
  unfold emptyPass
  rw [bind_of (setGpr_apply ..)]
  unfold osSleepThread
  have hr3' : (s.setGpr cpu 3 (q + kMsgQueueRecvOffset)).gpr cpu 3 = q + kMsgQueueRecvOffset := by
    simp
  rw [hcpu', bind_of (getGpr_apply ..), hr3', Routine.ite_apply,
    if_neg (hs.sound.queue_ne_zero h.isQueue), bind_of (hdisable _), bind_of (getGpr_apply ..),
    bind_of hsleep, hr3]
  unfold restoreInterrupts
  rw [if_neg hcpu, bind_of (setGpr_apply ..), hsame]
  unfold osRestoreInterrupts
  rw [bind_of (getGpr_apply ..), hr3]
  have hstill := hdisable 0#32
  rw [hsame] at hstill
  simpa [osDisableInterrupts] using hstill

/-- A state that the iteration comes back to is never left. -/
theorem receiveLoop_spins {s : Machine Memory}
    (hused : s.mem.read32 (q + kMsgQueueUsedOffset) = some 0#32)
    (hsame : emptyPass sleepFuel cpu q s = .ret () s) (out : Word) (fuel : Nat) :
    receiveLoop sleepFuel cpu q out true fuel s = .stop .diverge s := by
  induction fuel with
  | zero => rfl
  | succ fuel ih => rw [receiveLoop_pass hused, if_pos rfl, bind_of hsame, ih]

end

/-! ## A circle of waiting threads -/

/-- The ways that never end: they call nothing, and they stop for want of fuel alone. -/
def neverEnds : Coop.Contract (Machine Memory) Stop Away where
  rely _ _ _ := False
  guar _ _ := False
  stops e _ := e = .diverge

theorem stop_of_neverEnds {α : Type} {c : Coop (Machine Memory) Stop Away α}
    (h : c.Meets neverEnds fun _ _ => False) : ∃ s, c = .stop .diverge s := by
  cases c with
  | ret a s => exact h.elim
  | stop e s => exact ⟨s, congrArg (fun e => Coop.stop e s) h⟩
  | call i s k => exact h.1.elim

section

variable {L : Layout} {v : View} {q r x priority : Word} {fuel : Nat} {cpu : CpuPtr}

/-- The search for a place never gets past a thread that is its own successor. -/
theorem goes_findInsertBefore_circle (hL : L.Sound) (hx : x ∈ L.threads)
    (hnext : v.word (.thread .next x) = x)
    (hle : (v.word (.thread .priority x)).toInt ≤ priority.toInt) :
    Goes L neverEnds (findInsertBefore priority fuel x) v fun _ _ => False := by
  induction fuel with
  | zero => exact goes_stop fun _ _ => rfl
  | succ fuel ih =>
    unfold findInsertBefore
    rw [if_neg (hL.thread_ne_zero hx)]
    refine (runs_read (c := .thread .priority x) hx rfl).then ?_
    rw [if_neg (by omega)]
    have hread := runs_read (v := v) (c := .thread .next x) hx rfl
    rw [hnext] at hread
    exact hread.then ih

theorem goes_park_circle (hL : L.Sound) (hr : r ∈ L.threads) (hq : L.IsQueue q)
    (hx : x ∈ L.threads) (hhead : v.word (.head q) = x)
    (hnext : v.word (.thread .next x) = x)
    (hle : (v.word (.thread .priority x)).toInt ≤ (v.word (.thread .priority r)).toInt) :
    Goes L neverEnds (park fuel q r) v fun _ _ => False := by
  refine (runs_write_state hr _).then ?_
  refine (runs_write (c := .thread .queue r) hr rfl q).then ?_
  refine (runs_read (c := .thread .priority r) hr rfl).then ?_
  refine goes_bind (R := fun _ _ => False) ?_ fun _ _ hf => hf.elim
  unfold SleepThread.insertThreadIntoQueueByPriority
  refine (runs_write (c := .thread .queue r) hr rfl q).then ?_
  have hread := runs_read (v := ((v.putState r kThreadStateWaiting).put (.thread .queue r) q).put
    (.thread .queue r) q) (c := .head q) hq rfl
  simp only [View.put_word, reduceCtorEq, if_false, View.putState_word, hhead] at hread
  refine hread.then ?_
  refine goes_bind (goes_findInsertBefore_circle hL hx ?_ ?_) fun _ _ hf => hf.elim
  · simpa using hnext
  · simpa using hle

theorem emptyPass_circle {s : Machine Memory} (hs : Represents L s.mem v)
    (hr : r ∈ L.threads) (hrun : v.runningContext = r) (hq : L.IsQueue (q + kMsgQueueRecvOffset))
    (hidle : v.word (.global kSchedulerIdleFlagAddr) = 0#32)
    (hcontext : L.ContextClear v.currentContext) (hx : x ∈ L.threads)
    (hhead : v.word (.head (q + kMsgQueueRecvOffset)) = x) (hnext : v.word (.thread .next x) = x)
    (hle : (v.word (.thread .priority x)).toInt ≤ (v.word (.thread .priority r)).toInt)
    (hcpu : cpu ≠ 0) (sleepFuel : Nat) : ∃ t, emptyPass sleepFuel cpu q s =
      .stop .diverge t := by
  have hL := hs.sound
  have hsleep : Goes L neverEnds (sleep sleepFuel cpu (q + kMsgQueueRecvOffset)) v
      fun _ _ => False := by
    unfold sleep
    refine (sees_sleepWords hq).runs.then ?_
    rw [if_pos rfl]
    refine (sees_runningOrDefault hrun (hL.thread_ne_zero hr)).runs.then ?_
    refine (sees_mappedThread hr).runs.then ?_
    rw [if_pos rfl]
    refine (sees_global (L := L) (a := kSchedulerIdleFlagAddr) (by simp [kernelWords])).runs.then ?_
    rw [if_neg (by simpa using hidle)]
    exact goes_bind (goes_park_circle hL hr hq hx hhead hnext hle) fun _ _ hf => hf.elim
  have hrest : Goes L neverEnds (do
      osDisableInterrupts cpu
      let irqState ← getGpr cpu 3
      sleep sleepFuel cpu (q + kMsgQueueRecvOffset)
      restoreInterrupts cpu irqState) v fun _ _ => False := by
    refine goes_bind (goes_exchangeInterrupts hcontext _ false) ?_
    rintro _ v rfl
    refine goes_bind (goes_gets _) ?_
    rintro irqState v rfl
    exact goes_bind hsleep fun _ _ hf => hf.elim
  apply stop_of_neverEnds
  have hr3 : (s.setGpr cpu 3 (q + kMsgQueueRecvOffset)).gpr cpu 3 = q + kMsgQueueRecvOffset := by
    simp
  unfold emptyPass
  rw [bind_of (setGpr_apply ..)]
  unfold osSleepThread
  rw [show cpuOf cpu = cpu from if_pos hcpu, bind_of (getGpr_apply ..), hr3, Routine.ite_apply,
    if_neg (hL.queue_ne_zero hq)]
  refine (hrest (s.setGpr cpu 3 (q + kMsgQueueRecvOffset)) hs).mono ?_
  rintro _ _ ⟨_, _, hf⟩
  exact hf

end

/-! ## An empty message queue -/

/-- The law where a thread waits for the same queue. -/
theorem the_receive_sleeps : ∃ s : Machine Memory, Represents staleLayout s.mem staleView ∧
    receiveLoop 64 1 0x80500000#32 0#32 false 1 s = .ret 0#32 s ∧
    receiveLoop 64 1 0x80500000#32 0#32 true 1 s = (emptyPass 64 1 0x80500000#32 >>= fun _ =>
      receiveLoop 64 1 0x80500000#32 0#32 true 0) s ∧
    (emptyPass 64 1 0x80500000#32 s).Meets
      (withoutSwitch staleLayout 0#32 fun e => ∃ kind a, e = .boundary kind a) fun _ t =>
        ∃ w, Represents staleLayout t.mem w ∧
          (w.runningContext ≠ 0x80400000#32 ∨
            RefusesSleep staleView staleQueues 0x80400000#32 0#32) := by
  obtain ⟨m, hm⟩ := exists_stale
  have hused : m.read32 (0x80500000#32 + kMsgQueueUsedOffset) = some 0#32 :=
    (hm.words (.word 0x8050001C#32) (List.mem_singleton.mpr rfl)).trans (by decide +kernel)
  have habout : AboutToSleep staleLayout staleView staleQueues (0x80500000#32 + kMsgQueueRecvOffset)
      [0x80400400#32] 0x80400000#32 := stale_aboutToSleep
  exact ⟨bootMachine m, hm, an_empty_receive_repeats_only_when_refused habout hm hused
    Nat.one_ne_zero (by decide) (by decide +kernel) 0#32 0#32 0⟩

/-- The same state with the scheduler disabled. -/
def disabledView : View := staleView.put (.global kSchedulerIdleFlagAddr) 1#32

theorem disabled_aboutToSleep : AboutToSleep staleLayout disabledView staleQueues
    (0x80500000#32 + kMsgQueueRecvOffset) [0x80400400#32] 0x80400000#32 :=
  stale_aboutToSleep.putGlobal (by decide) (by decide) 1#32

/-- The same state with a waiting thread that is its own successor. -/
def circleView : View := staleView.put (.thread .next 0x80400400#32) 0x80400400#32

/-- Two blocking receives on an empty queue never end, and reach neither another thread nor a
boundary. With the scheduler disabled, each iteration of the first ends in the state that it
starts from. The second does not come to the end of its first iteration: the waiting threads are
linked in a circle. -/
theorem blocking_receives_spin :
    (∃ s : Machine Memory, Represents staleLayout s.mem disabledView ∧
      AboutToSleep staleLayout disabledView staleQueues (0x80500000#32 + kMsgQueueRecvOffset)
        [0x80400400#32] 0x80400000#32 ∧ s.interruptsEnabled = false ∧
      ∀ sleepFuel, emptyPass sleepFuel 1 0x80500000#32 s = .ret () s ∧
        ∀ fuel, receiveLoop sleepFuel 1 0x80500000#32 0#32 true fuel s = .stop .diverge s) ∧
    ∃ s : Machine Memory, Represents staleLayout s.mem circleView ∧
      ∀ sleepFuel, ∃ t, emptyPass sleepFuel 1 0x80500000#32 s = .stop .diverge t := by
  obtain ⟨m, hm⟩ := exists_stale
  have hthread : ∀ t ∈ [0x80400000#32, 0x80400400#32], t ∈ staleLayout.threads := by
    simp [staleLayout, wiiLayout, Layout.withWords]
  constructor
  · have hidle : staleLayout.HasCell (.global kSchedulerIdleFlagAddr) := by
      simp [Layout.HasCell, kernelWords]
    obtain ⟨m₁, -, hm₁⟩ := hm.write hidle 1#32
    obtain ⟨m₂, hwrite, hm₂⟩ := hm₁.write16_clear
      (staleLayout_sound.clear_modeFlags (hthread _ List.mem_cons_self)) 0#16
    have hflags : m₂.read16 (disabledView.currentContext + kContextModeFlagsOffset) = some 0#16 :=
      hm₁.serves.read_written (k := .w16) hwrite
    have hused : m₂.read32 (0x80500000#32 + kMsgQueueUsedOffset) = some 0#32 :=
      (hm₂.words (.word 0x8050001C#32) (List.mem_singleton.mpr rfl)).trans (by decide +kernel)
    have hsame : ∀ sleepFuel, emptyPass sleepFuel 1 0x80500000#32
        ((bootMachine m₂).setInterrupts false) = .ret ()
          ((bootMachine m₂).setInterrupts false) := by
      intro sleepFuel
      exact emptyPass_disabled disabled_aboutToSleep hm₂ (by decide +kernel)
        Nat.one_ne_zero hflags
        (by decide) rfl rfl
    exact ⟨_, hm₂, disabled_aboutToSleep, rfl, fun sleepFuel => ⟨hsame sleepFuel,
      receiveLoop_spins hused (hsame sleepFuel) 0#32⟩⟩
  · have hwaiting := hthread 0x80400400#32 (by simp)
    obtain ⟨m₁, -, hm₁⟩ :=
      hm.write (c := .thread .next 0x80400400#32) hwaiting 0x80400400#32
    refine ⟨bootMachine m₁, hm₁, emptyPass_circle (r := 0x80400000#32)
      (x := 0x80400400#32) hm₁
      (hthread _ List.mem_cons_self) ?_ stale_aboutToSleep.isQueue ?_ ?_ hwaiting ?_ ?_ ?_
      Nat.one_ne_zero⟩
    · decide +kernel
    · decide +kernel
    · exact staleLayout_sound.contextClear (hthread _ List.mem_cons_self)
    · decide +kernel
    · decide +kernel
    · decide +kernel

end wii_switch
