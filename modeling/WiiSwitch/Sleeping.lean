-- OSSleepThread on a scheduler that is in order. The running thread waits in a queue while
-- others run; it leaves the queue itself when it comes back without having been woken. The
-- scheduler is in order at the hand-over and at the end.
import WiiSwitch.HandOver

namespace wii_switch

open OS Routine Ring SleepThread

/-! ## The parking of a thread -/

section

variable {L : Layout} {C : Coop.Contract (Machine Memory) Stop Away} {live : Set Word}
  {v w : View} {W : Set Word} {ls : Word → List Word} {q r t : Word}

namespace View

/-- The running thread `r` waits in the queue `q` before `n`. -/
def park (v : View) (q r n : Word) : View :=
  ((v.putState r kThreadStateWaiting).linkBefore q r n).put (.global kSchedulerReschedCounterAddr)
    1#32

/-- The thread `t` leaves the queue `q` and runs. -/
def unpark (v : View) (q t : Word) : View := (v.remove q t).putState t kThreadStateRunning

/-- The queue field is overwritten by the link. -/
theorem linkBefore_put_queue (v : View) (q t n x : Word) :
    (v.put (.thread .queue t) x).linkBefore q t n = v.linkBefore q t n := by
  have hprev : (v.put (.thread .queue t) x).prevOf q n = v.prevOf q n := by
    simp [prevOf, (Cell.Plain.ne_prevCell (c := .thread .queue t) (by simp [Cell.Plain]) q n).symm]
  refine View.ext (funext fun c => ?_) rfl
  simp only [linkBefore, put_word, hprev]
  grind

theorem park_steady {v : View} {q r n : Word} {c : Cell} (hc : c.Steady) :
    (v.park q r n).word c = v.word c := by
  rw [park, put_word, if_neg (hc.ne_global (by decide)), linkBefore_plain hc.plain (hc.ne_queue r)]
  rfl

theorem park_global {v : View} {q r n a : Word} (ha : a ≠ kSchedulerReschedCounterAddr) :
    (v.park q r n).word (.global a) = v.word (.global a) := by
  rw [park, put_word, if_neg (by simpa using ha),
    linkBefore_plain (c := .global a) trivial (by simp)]
  rfl

theorem unpark_steady {v : View} {q t : Word} {c : Cell} (hc : c.Steady) :
    (v.unpark q t).word c = v.word c := remove_plain hc.plain (hc.ne_queue t)

end View

/-- The running thread begins to wait. -/
theorem Running.park (h : Running L live v W ls r) (hL : L.Sound) (hq : q ∈ W)
    (hoff : onRunQueueArray q = false)
    (hidle : v.word (.global kSchedulerIdleFlagAddr) = 0#32) (priority : Word) :
    ∃ ls', AtSelect L live (v.park q r (v.insertionPoint priority (ls q))) W ls' r := by
  obtain ⟨xs, ys, hsplit, hpoint⟩ := v.insertionPoint_split priority (ls q)
  have hr0 := hL.thread_ne_zero (h.scheduled.threads r h.live)
  have hclear := h.scheduled.clearField h.unlinked
  have hwait := hclear.putState (x := kThreadStateWaiting) h.unlinked fun _ => by simp
  have hlink := hwait.linkWait h.live hr0 h.unlinked (by simp) hq hoff hsplit hpoint
  have hsame : ((v.put (.thread .queue r) 0#32).putState r kThreadStateWaiting).linkBefore q r
      (v.insertionPoint priority (ls q)) =
      (v.putState r kThreadStateWaiting).linkBefore q r (v.insertionPoint priority (ls q)) :=
    View.linkBefore_put_queue (v.putState r kThreadStateWaiting) q r _ 0#32
  rw [hsame] at hlink
  refine ⟨_, hlink.putKernel (by decide) (by decide) 1#32, h.live, ?_, ?_, Or.inr ⟨?_, ?_⟩⟩
  · exact (View.park_global (by decide)).trans h.running
  · exact (View.park_global (by decide)).trans h.current
  · simp [View.park]
  · exact (View.park_global (by decide)).trans hidle

theorem goes_suspendFiber (t : Word) : Goes L C (suspendFiber t) v fun _ w => w = v :=
  goes_modify fun _ => rfl

theorem goes_resumeFiber (t : Word) : Goes L C (resumeFiber t) v fun _ w => w = v :=
  goes_modify fun _ => rfl

theorem goes_park {zs : List Word} {fuel : Nat}
    (hstop : (∀ s, C.stops .diverge s) ∨ zs.length < fuel) (hL : L.Sound) (hr : r ∈ L.threads)
    (hq : L.IsQueue q) (h : v.Queue q zs) (hzs : ∀ z ∈ zs, z ∈ L.threads) (hrz : r ∉ zs) :
    Goes L C (park fuel q r) v fun _ w =>
      w = v.park q r (v.insertionPoint (v.word (.thread .priority r)) zs) := by
  have hqueue : ((v.putState r kThreadStateWaiting).put (.thread .queue r) q).Queue q zs :=
    (h.putState r _).put (by simp [Cell.Plain]) q
  refine (runs_write_state hr _).then ?_
  refine (runs_write (c := .thread .queue r) hr rfl q).then ?_
  refine (runs_read (c := .thread .priority r) hr rfl).then ?_
  refine goes_bind (goes_insertByPriority hstop hq hr (hL.thread_ne_zero hr) hqueue hzs hrz _) ?_
  rintro _ w hw
  refine goes_bind (goes_suspendFiber r) ?_
  rintro _ w rfl
  refine (Writes.runs (writes_write_resched 1#32)).goes ?_
  have hprio : ((v.putState r kThreadStateWaiting).put (.thread .queue r) q).word
      (.thread .priority r) = v.word (.thread .priority r) := by simp
  have hpoint : ((v.putState r kThreadStateWaiting).put (.thread .queue r) q).insertionPoint
      (v.word (.thread .priority r)) zs =
      v.insertionPoint (v.word (.thread .priority r)) zs := by
    simp [View.insertionPoint]
  rw [hw, hprio, hpoint, View.linkBefore_put_queue]
  rfl

/-! ## The end of the wait -/

theorem sees_stillParked (ht : t ∈ L.threads) :
    Sees L (stillParked q t) v
      (v.state t = kThreadStateWaiting ∧ v.word (.thread .queue t) = q) := by
  refine sees_bind (sees_read_state ht) ?_
  by_cases hw : v.state t = kThreadStateWaiting
  · rw [if_neg (by simpa using hw)]
    refine sees_bind (sees_read (c := .thread .queue t) ht rfl) ?_
    rw [Bool.decide_and, decide_eq_true hw, Bool.true_and]
    exact sees_pure _
  · rw [if_pos hw]
    rw [Bool.decide_and, decide_eq_false hw, Bool.false_and]
    exact sees_pure false

/-- A thread that still waits in the queue leaves it and runs. -/
theorem goes_unpark_parked (hL : L.Sound) (ht : t ∈ L.threads) (hq : L.IsQueue q)
    (hn : L.ThreadOrNone (v.nextOf q t)) (hp : L.ThreadOrNone (v.prevOf q t))
    (hparked : v.state t = kThreadStateWaiting ∧ v.word (.thread .queue t) = q) :
    Goes L C (unpark q t) v fun _ w => w = v.unpark q t := by
  refine (sees_stillParked ht).runs.then ?_
  rw [if_pos (decide_eq_true hparked)]
  have hunlink := (writes_unlinkWaitQueueNode (v := v) hq ht (hL.thread_ne_zero ht) hn hp).runs
  have hrest : Goes L C (do
      write16 (t + kThreadStateOffset) kThreadStateRunning
      resumeFiber t) (v.remove q t) fun _ w => w = v.unpark q t :=
    (runs_write_state ht _).then (goes_resumeFiber t)
  intro s hs
  have hassoc : (do
      unlinkWaitQueueNode q t
      write32 (t + kThreadQueueOffset) 0#32
      write16 (t + kThreadStateOffset) kThreadStateRunning
      resumeFiber t : OS Unit) s = ((do
      unlinkWaitQueueNode q t
      write32 (t + kThreadQueueOffset) 0#32) >>= fun _ => do
      write16 (t + kThreadStateOffset) kThreadStateRunning
      resumeFiber t) s := by
    simp only [bind_apply, Coop.bind_assoc]
  rw [hassoc]
  exact hunlink.then hrest s hs

/-- A thread that was woken stays as it is. -/
theorem goes_unpark_woken (ht : t ∈ L.threads)
    (hwoken : ¬(v.state t = kThreadStateWaiting ∧ v.word (.thread .queue t) = q)) :
    Goes L C (unpark q t) v fun _ w => w = v := by
  refine (sees_stillParked ht).runs.then ?_
  rw [if_neg (by simpa using hwoken)]
  exact goes_pure rfl

/-- A thread of a queue between its neighbours. -/
theorem Scheduled.split (h : Scheduled L live v W ls) (hq : q ∈ W) (ht : t ∈ ls q) :
    ∃ xs ys, ls q = xs ++ t :: ys ∧ (ls q).erase t = xs ++ ys ∧
    L.ThreadOrNone (v.nextOf q t) ∧
      L.ThreadOrNone (v.prevOf q t) := by
  obtain ⟨xs, ys, hls⟩ := List.append_of_mem ht
  have hqueue : v.Queue q (xs ++ t :: ys) := hls ▸ h.lists.queue q hq
  have hnd := (List.nodup_cons.mp hqueue.2).2
  have hthreads : ∀ z ∈ xs ++ t :: ys, z ∈ L.threads := fun z hz =>
    h.threads z (h.member q hq z (hls ▸ hz))
  refine ⟨xs, ys, hls, ?_, ?_, ?_⟩
  · have hxs : t ∉ xs := fun hx => (List.nodup_append.mp hnd).2.2 t hx t List.mem_cons_self rfl
    rw [hls, List.erase_append_right _ hxs, List.erase_cons_head]
  · rw [hqueue.nextOf_mem]
    exact threadOrNone_of_mem (fun y hy => hthreads y (by simp [hy])) first_mem
  · exact threadOrNone_of_mem (fun y hy => hthreads y (by simp [hy])) (hqueue.prevOf_mem rfl)

/-- A thread that still waits leaves its queue and runs. -/
theorem Running.unpark_running (h : Running L live v W ls r) (ht : t ∈ live)
    (hw : v.state t = kThreadStateWaiting) (hq : v.word (.thread .queue t) = q) (hq0 : q ≠ 0#32) :
    ∃ ls', Running L live (v.unpark q t) W ls' r := by
  obtain ⟨hin, hoff, hmem⟩ := h.scheduled.placed t ht hw (hq ▸ hq0)
  rw [hq] at hin hoff hmem
  obtain ⟨xs, ys, hls⟩ := List.append_of_mem hmem
  obtain ⟨hremoved, hout⟩ := h.scheduled.unlinkWait hin hoff hls
  have hrun := hremoved.putState (x := kThreadStateRunning) hout fun he => absurd he (by decide)
  have hrt : r ≠ t := by
    rintro rfl
    rw [h.state] at hw
    exact absurd hw (by decide)
  refine ⟨_, hrun, h.live, ?_, ?_, ?_, ?_⟩
  · exact (View.remove_plain (c := .global _) trivial (by simp)).trans h.running
  · exact (View.remove_plain (c := .global _) trivial (by simp)).trans h.current
  · rw [View.unpark, View.putState_state, if_neg hrt]
    exact h.state
  · exact (View.unpark_steady (c := .thread .suspend r) (by simp [Cell.Steady])).trans h.suspend

theorem Running.unpark (h : Running L live v W ls r) (ht : t ∈ live)
    (hw : v.state t = kThreadStateWaiting) (hq : v.word (.thread .queue t) = q) (hq0 : q ≠ 0#32) :
    Reordered L live v (v.unpark q t) := by
  obtain ⟨ls', hrun⟩ := h.unpark_running ht hw hq hq0
  refine ⟨⟨W, ls', r, hrun⟩, fun _ => View.unpark_steady, fun q' hq'0 hq' => ?_⟩
  obtain ⟨_, _, h₂, hin, _, _⟩ := h.use hq' hq'0
  obtain ⟨_, hrun₂⟩ := h₂.unpark_running ht hw hq hq0
  exact hrun₂.scheduled.waitQueue hin hq'.off

theorem InOrder.refl (h : InOrder L live v) : Reordered L live v v :=
  ⟨h, fun _ _ => rfl, fun _ _ hq => hq⟩

theorem goes_unpark (hL : L.Sound) (h : InOrder L live v) (ht : t ∈ live) (hq0 : q ≠ 0#32) :
    Goes L C (unpark q t) v fun _ w => Reordered L live v w := by
  obtain ⟨W, ls, r, hrun⟩ := h
  have htT := hrun.scheduled.threads t ht
  by_cases hparked : v.state t = kThreadStateWaiting ∧ v.word (.thread .queue t) = q
  · obtain ⟨hw, hq⟩ := hparked
    obtain ⟨hin, _, hmem⟩ := hrun.scheduled.placed t ht hw (hq ▸ hq0)
    rw [hq] at hin hmem
    obtain ⟨xs, ys, hls, _, hn, hp⟩ := hrun.scheduled.split hin hmem
    refine (goes_unpark_parked hL htT (hrun.scheduled.isQueue q hin) hn hp ⟨hw, hq⟩).mono ?_
    rintro _ _ rfl
    exact hrun.unpark ht hw hq hq0
  · refine (goes_unpark_woken htT hparked).mono ?_
    rintro _ _ rfl
    exact InOrder.refl ⟨W, ls, r, hrun⟩

end

/-! ## OSSleepThread -/

section

variable {ω : Type} {L : Layout} {C : Coop.WorldContract ω (Machine Memory) Away} {g : ω}
  {live : Set Word} {v : View} {W : Set Word} {ls : Word → List Word} {q r : Word} {fuel : Nat}
  {cpu : CpuPtr} {Q : ω → View → Prop} {lives : ω → Set Word}

theorem InOrder.contextClear (h : InOrder L live v) (hL : L.Sound) :
    L.ContextClear v.currentContext := by
  obtain ⟨W, ls, r, hr⟩ := h
  rw [hr.current]
  exact hL.contextClear (hr.scheduled.threads r hr.live)

/-- Where a sleep ends: at once, or with a view that the machine came back with, from which at
most a wait queue has lost the thread that slept. The threads of a world are `lives`. -/
def Slept (L : Layout) (lives : ω → Set Word) (Q : ω → View → Prop) (g : ω)
    (v : View) (g' : ω) (w : View) : Prop :=
  (g' = g ∧ w = v) ∨ ∃ u, Q g' u ∧ Reordered L (lives g') u w

theorem Slept.inOrder {g' : ω} {w : View} (h : Slept L lives Q g v g' w) (hv : InOrder L live v) :
    ∃ live', InOrder L live' w := by
  rcases h with ⟨_, rfl⟩ | ⟨u, _, hw⟩
  · exact ⟨live, hv⟩
  · exact ⟨lives g', hw.inOrder⟩

theorem sees_mappedThread {t : Word} (ht : t ∈ L.threads) : Sees L (mappedThread t) v true := by
  refine sees_bind (sees_mapped_state ht) ?_
  rw [if_pos rfl]
  refine sees_allMapped fun a ha => ?_
  simp only [List.mem_cons, List.not_mem_nil, or_false] at ha
  rcases ha with rfl | rfl | rfl | rfl
  · exact ⟨.thread .priority t, ht, rfl⟩
  · exact ⟨.thread .queue t, ht, rfl⟩
  · exact ⟨.thread .next t, ht, rfl⟩
  · exact ⟨.thread .prev t, ht, rfl⟩

/-- The words that OSSleepThread needs are mapped. -/
theorem sees_sleepWords (hq : L.IsQueue q) :
    Sees L (allMapped32 [kOSRunningContextAddr, kOSCurrentContextAddr, kSchedulerIdleFlagAddr,
      kSchedulerReschedCounterAddr, q, q + 4#32]) v true := by
  apply sees_allMapped
  intro a ha
  simp only [List.mem_cons, List.not_mem_nil, or_false] at ha
  rcases ha with rfl | rfl | rfl | rfl | rfl | rfl
  · exact ⟨.global _, runningContext_mem, rfl⟩
  · exact ⟨.global _, currentContext_mem, rfl⟩
  · exact ⟨.global kSchedulerIdleFlagAddr,
      show kSchedulerIdleFlagAddr ∈ kernelWords by simp [kernelWords], rfl⟩
  · exact ⟨.global _, reschedCounter_mem, rfl⟩
  · exact ⟨.head _, hq, rfl⟩
  · exact ⟨.tail q, hq, rfl⟩

theorem sees_runningOrDefault (hr : v.runningContext = r) (hr0 : r ≠ 0#32) :
    Sees L (runningOrDefault cpu) v (some r) := by
  refine sees_bind (sees_global runningContext_mem) ?_
  rw [show v.word (.global kOSRunningContextAddr) = r from hr, if_pos hr0]
  exact sees_pure _

theorem goesIn_sleep (hL : L.Sound) (h : Running L live v W ls r)
    (hq : WaitQueue L live v q) (hleaves : LeavesView L C g v.callback)
    (hand : ∀ w, Reordered L live v w → HandsOverIn L C g w Q)
    (hback : ∀ g' w, Q g' w → r ∈ lives g' ∧ InOrder L (lives g') w) :
    GoesIn L C (sleep fuel cpu q) v (fun g' _ w => Slept L lives Q g v g' w) g := by
  have hr := h.scheduled.threads r h.live
  have hr0 := hL.thread_ne_zero hr
  have hq0 := hL.queue_ne_zero hq.isQueue
  unfold sleep
  refine (sees_sleepWords hq.isQueue).runs.thenIn ?_
  rw [if_pos rfl]
  refine (sees_runningOrDefault h.running hr0).runs.thenIn ?_
  refine (sees_mappedThread hr).runs.thenIn ?_
  rw [if_pos rfl]
  refine (sees_global (L := L) (a := kSchedulerIdleFlagAddr) (by simp [kernelWords])).runs.thenIn ?_
  by_cases hidle : v.word (.global kSchedulerIdleFlagAddr) = 0#32
  · rw [if_neg (by simpa using hidle)]
    obtain ⟨W', ls', h', hin, _, _⟩ := h.use hq hq0
    refine (goes_park (C := C.still g) (Or.inl fun _ => still_stops _ _) hL hr hq.isQueue
      (h'.scheduled.lists.queue q hin) (fun z hz => h'.scheduled.threads z
        (h'.scheduled.member q hin z hz)) (h'.unlinked q hin)).thenIn ?_
    rintro _ w rfl
    refine (goes_setGpr cpu 3 0#32).thenIn ?_
    rintro _ w rfl
    obtain ⟨ls'', hselect⟩ := h'.park hL hin hq.off hidle (v.word (.thread .priority r))
    have hcb : (v.park q r (v.insertionPoint (v.word (.thread .priority r)) (ls' q))).callback =
        v.callback := View.park_global (by decide)
    refine goesIn_bind (goesIn_selectThread hL hselect (hcb.symm ▸ hleaves) (Q := Q) ?_ ?_ cpu) ?_
    · intro w _ _ hd
      refine hand w ((hd.reordered hL hselect).trans (fun _ => View.park_steady) fun q' hq'0 hq' =>
        ?_)
      obtain ⟨_, ls₂, h₂, hin₂, hsub, hsame⟩ := h'.use hq' hq'0
      obtain ⟨_, hselect₂⟩ :=
        h₂.park hL (hsub hin) hq.off hidle (v.word (.thread .priority r))
      rw [hsame q hin] at hselect₂
      exact hselect₂.scheduled.waitQueue hin₂ hq'.off
    · intro hrun
      simp [View.park, kThreadStateRunning, kThreadStateWaiting] at hrun
    rintro g' _ w hw
    obtain ⟨hr', hinOrder⟩ := hback g' w hw
    refine (goes_unpark hL hinOrder hr' hq0).goesIn.mono ?_
    rintro _ _ u ⟨rfl, hu⟩
    exact Or.inr ⟨w, hw, hu⟩
  · rw [if_pos hidle]
    exact goesIn_pure (Or.inl ⟨rfl, rfl⟩)

/-- OSSleepThread on a well-formed wait queue. -/
theorem osSleepThread_meetsIn (hL : L.Sound) (h : Running L live v W ls r)
    (hq : WaitQueue L live v q) (hleaves : LeavesView L C g v.callback)
    (hand : ∀ w, Reordered L live v w → HandsOverIn L C g w Q)
    (hback : ∀ g' w, Q g' w → r ∈ lives g' ∧ InOrder L (lives g') w) {ctx : CpuPtr}
    {s : Machine Memory} (hs : Represents L s.mem v) (hq3 : s.gpr (cpuOf ctx) 3 = q) :
    (osSleepThread fuel ctx s).MeetsIn C
      (fun g' _ t => ∃ w, Represents L t.mem w ∧ Slept L lives Q g v g' w) g := by
  have hinOrder : InOrder L live v := ⟨W, ls, r, h⟩
  have hrest : GoesIn L C (do
      osDisableInterrupts (cpuOf ctx)
      let irqState ← getGpr (cpuOf ctx) 3
      sleep fuel (cpuOf ctx) q
      restoreInterrupts (cpuOf ctx) irqState) v (fun g' _ w => Slept L lives Q g v g' w) g := by
    refine (goes_exchangeInterrupts (hinOrder.contextClear hL) _ false).thenIn ?_
    rintro _ v rfl
    refine (goes_gets _).thenIn ?_
    rintro irqState v rfl
    refine goesIn_bind (goesIn_sleep hL h hq hleaves hand hback) ?_
    rintro g' _ w hw
    obtain ⟨live', hw'⟩ := hw.inOrder hinOrder
    refine (goes_restoreInterrupts (hw'.contextClear hL) _ irqState).goesIn.mono ?_
    rintro _ _ u ⟨rfl, rfl⟩
    exact hw
  unfold osSleepThread
  rw [bind_of (getGpr_apply ..), hq3, Routine.ite_apply, if_neg (hL.queue_ne_zero hq.isQueue)]
  exact hrest s hs

end

end wii_switch
