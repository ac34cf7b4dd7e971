-- OSSleepThread where SelectThread does not switch. The thread has been put into its wait
-- queue, and on every such way it is taken out again: each word of the wait queue and of the
-- other threads is as before. Only ended threads in the run queues, which SelectThread drops
-- before it finds that nothing can run, have lost their links.
import WiiSwitch.Sleeping
import WiiSwitch.StaleQueues

namespace wii_switch

open OS Routine Ring SelectThread SleepThread

/-! ## Ways without a switch -/

/-- The ways without a switch of the machine. The guest code that comes back, OSSaveContext and
the switch callback, leaves the view, and OSSaveContext answers with `answer`. -/
def withoutSwitch (L : Layout) (answer : Word) (stops : Stop → Prop) :
    Coop.Contract (Machine Memory) Stop Away where
  rely i s s' :=
    match i with
    | .guest a cpu => SameView L s s' ∧ (a = kOSSaveContextAddress → s'.gpr cpu 3 = answer)
    | _ => False
  guar _ _ := True
  stops e _ := stops e

/-- Every thread in a run queue that the mask names has ended. -/
def NothingRunnable (v : View) (qs : Fin 32 → List Word) : Prop :=
  ∀ p, maskBit v.mask p = true → ∀ t ∈ qs p, HasEnded (v.state t)

/-- Why SelectThread comes back: the running context `r` is not the current one, OSSaveContext
has not answered with 0, or there is no thread to run. -/
def ComesBack (v : View) (qs : Fin 32 → List Word) (r answer : Word) : Prop :=
  v.currentContext ≠ r ∨ answer ≠ 0#32 ∨ NothingRunnable v qs

/-- The ended threads of the run queues. -/
def endedIn (v : View) (qs : Fin 32 → List Word) : Set Word :=
  {t ∈ queued qs | HasEnded (v.state t)}

/-- SelectThread came back, and at most ended threads have left the run queues. -/
structure CameBack (v : View) (qs : Fin 32 → List Word) (r answer : Word) (w : View) : Prop where
  state : w.state = v.state
  confined : Confined (endedIn v qs) v w
  reason : ComesBack v qs r answer

/-- A thread of the run queues was made the running context. The other threads are as before. -/
structure Switched (v : View) (qs : Fin 32 → List Word) (w : View) : Prop where
  running : w.runningContext ∈ queued qs
  current : w.currentContext = w.runningContext
  state : ∀ t ∉ queued qs, w.state t = v.state t
  thread : ∀ t ∉ queued qs, ∀ f, w.word (.thread f t) = v.word (.thread f t)

section

variable {L : Layout} {answer : Word} {stops : Stop → Prop} {v w : View}
  {qs : Fin 32 → List Word} {r t : Word} {fuel : Nat} {cpu : CpuPtr}

/-- The machine is handed over, and on the ways without a switch it does not come back. -/
theorem handsOver_withoutSwitch (hstop : ∀ kind a, stops (.boundary kind a)) (v : View) :
    HandsOver L (withoutSwitch L answer stops) v fun w => w = v where
  stops := fun kind a _ _ => hstop kind a
  guar_jump := fun _ _ _ _ => trivial
  guar_host := fun _ _ _ => trivial
  jump := fun _ _ _ _ _ hf => hf.elim
  host := fun _ _ _ _ hf => hf.elim
  stay := rfl

theorem publish_thread (t : Word) (f : ThreadField) (u : Word) :
    (v.publish t).word (.thread f u) = v.word (.thread f u) := by
  simp [View.publish, View.setCurrent]

theorem publish_running (t : Word) : (v.publish t).runningContext = t := by
  simp [View.runningContext, View.publish, View.setCurrent, kOSRunningContextAddr,
    kOSCurrentContextAddr, kOSPhysicalContextAddr]

theorem goes_switchThread_stale (hL : L.Sound) (hcpu : cpu ≠ 0) (h : LinkedQueues L v qs)
    (hstop : ∀ kind a, stops (.boundary kind a))
    (hfuel : stops .diverge ∨ stepsLeft qs v.mask < fuel) (r : Word) :
    Goes L (withoutSwitch L answer stops) (switchThread fuel cpu r) v fun _ w =>
      CameBack v qs r answer w ∨ Switched v qs w := by
  have hT : queued qs ⊆ L.threads := fun t ⟨p, ht⟩ => h.threads p t ht
  unfold switchThread
  refine goes_bind (goes_select hL h (Set.Subset.refl _) (fun kind a _ => hstop kind a)
    (hfuel.imp_left fun hd _ => hd)) ?_
  intro pick w hchosen
  by_cases hnone : pick.nextThread = 0#32
  · rw [if_pos hnone]
    obtain ⟨hended, hall⟩ := hchosen.none hnone
    refine (goes_setGpr cpu 3 0#32).mono ?_
    rintro _ _ rfl
    exact Or.inl ⟨hchosen.state, hended, Or.inr (Or.inr hall)⟩
  rw [if_neg hnone]
  have hfits := hchosen.fits.resolve_left hnone
  have hmem : pick.nextThread ∈ queued qs := hfits.2.1
  refine (runs_takePicked hT hfits).then ?_
  have hu := confined_takePicked hfits
  have hstate : (w.takePicked pick).state =
      (w.putState pick.nextThread kThreadStateRunning).state :=
    takePicked_state
  generalize w.takePicked pick = u at hu hstate
  refine goes_bind (goes_publish hL hcpu (hT hmem) r (fun _ _ _ => trivial) ?_) ?_
  · exact fun s s' _ hs hs' => hs'.1.represents hs
  rintro _ _ rfl
  refine (goes_enterThread hL hcpu (hT hmem) (handsOver_withoutSwitch hstop _)
    (fun _ _ kind a _ _ => hstop kind a) r).mono ?_
  rintro _ _ rfl
  refine Or.inr ⟨?_, ?_, fun t ht => ?_, fun t ht f => ?_⟩
  · rwa [publish_running]
  · rw [publish_running]
    simp [View.currentContext, View.publish, View.setCurrent]
  · have hne : t ≠ pick.nextThread := fun he => ht (he ▸ hmem)
    show u.state t = v.state t
    rw [hstate, View.putState_state, if_neg hne, hchosen.state]
  · rw [publish_thread, hu.thread ht, hchosen.confined.thread ht]

/-- A thread that does not run gives way, or its context is not saved. -/
theorem goes_leaveRunning (hL : L.Sound) (hcpu : cpu ≠ 0) (hr : r ∈ L.threads)
    (hstate : v.state r ≠ kThreadStateRunning) (hstop : ∀ kind a, stops (.boundary kind a))
    (force : Word) :
    Goes L (withoutSwitch L answer stops) (leaveRunning cpu r force) v fun b w =>
      w = v ∧ (b = false → answer ≠ 0#32) := by
  unfold leaveRunning
  rw [if_neg (hL.thread_ne_zero hr)]
  refine (sees_mappedRunning hL hr).runs.then ?_
  rw [if_pos rfl]
  refine (sees_keepsOrRequeues_other hr hstate force).runs.then ?_
  rw [if_neg (by decide)]
  refine goes_saveContext hL hcpu hr ⟨rfl, fun hf => absurd hf (by decide)⟩
    (fun _ _ => hstop _ _) (fun _ _ => trivial) fun s s' hs hs' => ?_
  obtain ⟨hsame, hanswer⟩ := hs'
  refine ⟨v, hsame.represents hs, rfl, fun hf => ?_⟩
  rw [hanswer rfl] at hf
  exact of_decide_eq_false hf

/-- SelectThread on a running context that has begun to wait. -/
theorem goes_selectThread_parked (hL : L.Sound) (h : LinkedQueues L v qs) (hr : r ∈ L.threads)
    (hrun : v.runningContext = r) (hstate : v.state r ≠ kThreadStateRunning)
    (hidle : v.word (.global kSchedulerIdleFlagAddr) = 0#32)
    (hstop : ∀ kind a, stops (.boundary kind a))
    (hfuel : stops .diverge ∨ stepsLeft qs v.mask < fuel) (ctx : CpuPtr) :
    Goes L (withoutSwitch L answer stops) (selectThread fuel ctx) v fun _ w =>
      CameBack v qs r answer w ∨ Switched v qs w := by
  have hcpu := cpuOf_ne_zero ctx
  have hr0 := hL.thread_ne_zero hr
  unfold selectThread
  refine goes_bind (goes_gets _) ?_
  rintro force v rfl
  refine (runs_allMapped fun a ha => ⟨.global a, ?_, rfl⟩).then ?_
  · show a ∈ kernelWords
    revert ha
    simp only [kernelWords, List.mem_cons, List.not_mem_nil, or_false]
    tauto
  rw [if_pos rfl]
  refine (sees_global (L := L) (a := kSchedulerIdleFlagAddr) (by simp [kernelWords])).runs.then ?_
  rw [hidle, if_neg (by decide)]
  refine (sees_global (L := L) currentContext_mem).runs.then ?_
  refine (sees_global (L := L) runningContext_mem).runs.then ?_
  rw [show v.word (.global kOSRunningContextAddr) = r from hrun, if_neg fun hz => hr0 hz.2]
  have hback : ComesBack v qs r answer → Goes L (withoutSwitch L answer stops)
      (setGpr (cpuOf ctx) 3 0#32) v fun _ w => CameBack v qs r answer w ∨ Switched v qs w := by
    intro hreason
    refine (goes_setGpr _ 3 0#32).mono ?_
    rintro _ w rfl
    exact Or.inl ⟨rfl, Confined.refl, hreason⟩
  by_cases hcur : v.word (.global kOSCurrentContextAddr) = r
  · rw [if_neg (not_not.mpr hcur)]
    refine goes_bind (goes_leaveRunning hL hcpu hr hstate hstop force) ?_
    rintro b w ⟨rfl, hb⟩
    cases b with
    | false => exact hback (Or.inr (Or.inl (hb rfl)))
    | true => exact goes_switchThread_stale hL hcpu h hstop hfuel r
  · rw [if_pos hcur]
    exact hback (Or.inl hcur)

end

/-! ## The undo -/

namespace View

/-- What a removal writes to a cell depends on this cell and on the links of the thread. -/
theorem remove_word_congr {v w : View} {q t : Word} {c : Cell} (hn : w.nextOf q t = v.nextOf q t)
    (hp : w.prevOf q t = v.prevOf q t) (hc : w.word c = v.word c) :
    (w.remove q t).word c = (v.remove q t).word c := by
  simp only [remove, unlink, put_word, hn, hp, hc]

/-- To link a thread in, at any place, and to take it out again leaves every word. -/
theorem remove_linkBefore {v : View} {q t n : Word} {xs ys : List Word} (h : v.Queue q (xs ++ ys))
    (hn : n = first ys 0#32) (ht0 : t ≠ 0#32) (hqueue : v.word (.thread .queue t) = 0#32)
    (hnext : v.word (.thread .next t) = 0#32) (hprev : v.word (.thread .prev t) = 0#32) (c : Cell) :
    ((v.linkBefore q t n).remove q t).word c = v.word c := by
  have hN : (v.linkBefore q t n).nextOf q t = n := by rw [linkBefore_nextOf ht0, if_pos rfl]
  have hP : (v.linkBefore q t n).prevOf q t = v.prevOf q n := by
    rw [linkBefore_prevOf ht0, if_pos rfl]
  -- the links at the place led to each other
  have hback : v.word (prevCell q n) = v.prevOf q n := rfl
  have hon : v.word (nextCell q (v.prevOf q n)) = n := by
    rw [hn]
    exact Linked.fd_last h
  simp only [remove, unlink, put_word, hN, hP]
  simp only [linkBefore, put_word]
  clear hN hP
  grind

end View

/-- The running thread `r`, which is linked nowhere, is about to wait in the queue `q`. The
threads `xs` wait there. -/
structure AboutToSleep (L : Layout) (v : View) (qs : Fin 32 → List Word) (q : Word)
    (xs : List Word) (r : Word) : Prop where
  thread : r ∈ L.threads
  running : v.runningContext = r
  state : v.state r = kThreadStateRunning
  unlinked : v.word (.thread .queue r) = 0#32
  next : v.word (.thread .next r) = 0#32
  prev : v.word (.thread .prev r) = 0#32
  isQueue : L.IsQueue q
  off : onRunQueueArray q = false
  queue : v.Queue q xs
  members : ∀ x ∈ xs, x ∈ L.threads
  field : ∀ x ∈ xs, v.word (.thread .queue x) = q
  queues : LinkedQueues L v qs
  context : L.ContextClear v.currentContext

/-- How a sleep ends without a switch: the scheduler is disabled and nothing has happened, or
SelectThread came back. -/
inductive Refused (v : View) (qs : Fin 32 → List Word) (r answer : Word) : View → Prop
  | disabled : v.word (.global kSchedulerIdleFlagAddr) ≠ 0#32 → Refused v qs r answer v
  | cameBack {w : View} : v.word (.global kSchedulerIdleFlagAddr) = 0#32 →
      CameBack v qs r answer w → Refused v qs r answer w

section

variable {L : Layout} {answer : Word} {stops : Stop → Prop} {v w : View}
  {qs : Fin 32 → List Word} {q r n : Word} {xs ys zs : List Word} {fuel : Nat} {cpu : CpuPtr}

theorem AboutToSleep.notMem (h : AboutToSleep L v qs q xs r) (hL : L.Sound) : r ∉ xs := by
  intro hr
  have hfield := h.field r hr
  rw [h.unlinked] at hfield
  exact hL.queue_ne_zero h.isQueue hfield.symm

theorem AboutToSleep.notQueued (h : AboutToSleep L v qs q xs r) (hL : L.Sound) :
    r ∉ queued qs := by
  rintro ⟨p, hr⟩
  have hfield := h.queues.field p r hr
  rw [h.unlinked] at hfield
  exact hL.queue_ne_zero (isQueue_runQueue L p) hfield.symm

/-- No thread waits in the queue and stands in a run queue. -/
theorem AboutToSleep.apart (h : AboutToSleep L v qs q xs r) {p : Fin 32} {t : Word}
    (ht : t ∈ qs p) : t ∉ xs := by
  intro hx
  have hq : q = runQueue p := (h.field t hx).symm.trans (h.queues.field p t ht)
  have hon := runQueue_onArray p
  rw [← hq, h.off] at hon
  exact Bool.false_ne_true hon

/-- Another word of the scheduler may change. -/
theorem AboutToSleep.putGlobal (h : AboutToSleep L v qs q xs r) {a : Word}
    (hrunning : a ≠ kOSRunningContextAddr) (hcurrent : a ≠ kOSCurrentContextAddr) (x : Word) :
    AboutToSleep L (v.put (.global a) x) qs q xs r where
  thread := h.thread
  running := by simpa [View.runningContext, hrunning.symm] using h.running
  state := h.state
  unlinked := by simpa using h.unlinked
  next := by simpa using h.next
  prev := by simpa using h.prev
  isQueue := h.isQueue
  off := h.off
  queue := h.queue.put (c := .global a) trivial x
  members := h.members
  field := by simpa using h.field
  queues := h.queues.putGlobal a x
  context := by simpa [View.currentContext, hcurrent.symm] using h.context

/-- The run queues while the thread waits. -/
theorem AboutToSleep.linked_park (h : AboutToSleep L v qs q (ys ++ zs) r) (hL : L.Sound)
    (hn : n = first zs 0#32) : LinkedQueues L (v.park q r n) qs where
  threads := h.queues.threads
  queue := by
    intro p
    have hqp : runQueue p ≠ q := by
      rintro rfl
      exact Bool.false_ne_true (h.off.symm.trans (runQueue_onArray p))
    have hlink :=
      View.Queue.linkBefore_other ((h.queues.queue p).putState r kThreadStateWaiting) hqp
      (h.queue.putState r kThreadStateWaiting) hn (hL.thread_ne_zero h.thread)
      (fun hr => h.notQueued hL ⟨p, hr⟩) fun x hx hx' => h.apart hx' hx
    exact hlink.put (c := .global kSchedulerReschedCounterAddr) trivial 1#32
  field := by
    intro p t ht
    have htr : t ≠ r := fun he => h.notQueued hL ⟨p, he ▸ ht⟩
    rw [View.park, View.put_word, if_neg (by simp),
      View.linkBefore_plain (by simp [Cell.Plain]) (by simpa using htr)]
    exact h.queues.field p t ht

/-- The links of the thread while it waits. -/
theorem AboutToSleep.park_links (h : AboutToSleep L v qs q xs r) (hL : L.Sound) (n : Word) :
    (v.park q r n).word (.thread .next r) = n ∧
      (v.park q r n).word (.thread .prev r) = v.prevOf q n := by
  have hr0 := hL.thread_ne_zero h.thread
  have hnext := View.linkBefore_nextOf (v := v.putState r kThreadStateWaiting)
    (q := q) (n := n) hr0 q r
  have hprev := View.linkBefore_prevOf (v := v.putState r kThreadStateWaiting)
    (q := q) (n := n) hr0 q r
  rw [if_pos rfl, View.nextOf, nextCell_thread q hr0] at hnext
  rw [if_pos rfl, View.prevOf, prevCell_thread q hr0] at hprev
  refine ⟨?_, ?_⟩
  · rw [View.park, View.put_word, if_neg (by simp), hnext]
  · rw [View.park, View.put_word, if_neg (by simp), hprev]
    rfl

/-- A thread of a run queue has its state while the other thread waits. -/
theorem AboutToSleep.park_state (h : AboutToSleep L v qs q xs r) (hL : L.Sound) {t : Word}
    (ht : t ∈ queued qs) : (v.park q r n).state t = v.state t := by
  have htr : t ≠ r := fun he => h.notQueued hL (he ▸ ht)
  simp [View.park, htr]

/-- What SelectThread has not undone when it comes back, the thread itself undoes. -/
theorem AboutToSleep.unpark (h : AboutToSleep L v qs q (ys ++ zs) r) (hL : L.Sound)
    (hn : n = first zs 0#32) (hw : CameBack (v.park q r n) qs r answer w) :
    CameBack v qs r answer (w.unpark q r) := by
  have hr0 := hL.thread_ne_zero h.thread
  have hmask : (v.park q r n).mask = v.mask := View.park_global (by decide)
  have hcurrent : (v.park q r n).currentContext = v.currentContext := View.park_global (by decide)
  have hrunnable : NothingRunnable (v.park q r n) qs → NothingRunnable v qs :=
    fun hall p hp t ht =>
    h.park_state hL ⟨p, ht⟩ ▸ hall p (hmask.symm ▸ hp) t ht
  have hended : endedIn (v.park q r n) qs = endedIn v qs := by
    ext t
    refine and_congr_right fun ht => ?_
    rw [h.park_state hL ht]
  have hconfined := hw.confined
  rw [hended] at hconfined
  have hout : r ∉ endedIn v qs := fun hr => h.notQueued hL hr.1
  refine ⟨?_, fun c hc => ?_, ?_⟩
  · funext t
    rw [View.unpark, View.putState_state, View.remove_state, hw.state]
    by_cases htr : t = r
    · rw [if_pos htr, htr, h.state]
    · rw [if_neg htr]
      simp [View.park, htr]
  · have hlink : w.word c = ((v.putState r kThreadStateWaiting).linkBefore q r n).word c := by
      rw [hconfined c hc, View.park, View.put_word, if_neg]
      rintro rfl
      exact hc (Or.inr rfl)
    have hnextOf :
        w.nextOf q r = ((v.putState r kThreadStateWaiting).linkBefore q r n).nextOf q r := by
      rw [View.nextOf, nextCell_thread q hr0, hconfined.thread hout, (h.park_links hL n).1,
        View.linkBefore_nextOf hr0, if_pos rfl]
    have hprevOf :
        w.prevOf q r = ((v.putState r kThreadStateWaiting).linkBefore q r n).prevOf q r := by
      rw [View.prevOf, prevCell_thread q hr0, hconfined.thread hout, (h.park_links hL n).2,
        View.linkBefore_prevOf hr0, if_pos rfl]
      rfl
    refine (View.remove_word_congr hnextOf hprevOf hlink).trans ?_
    exact View.remove_linkBefore (v := v.putState r kThreadStateWaiting) h.queue hn hr0 h.unlinked
      h.next h.prev c
  · exact hw.reason.imp (fun hne => hcurrent ▸ hne) (Or.imp_right hrunnable)

/-! ## OSSleepThread -/

/-- How a sleep ends on the ways without a switch: it was refused, or a thread of the run queues
was made the running context. -/
def SleptOrMoved (v : View) (qs : Fin 32 → List Word) (r answer : Word) (w : View) : Prop :=
  Refused v qs r answer w ∨ (v.word (.global kSchedulerIdleFlagAddr) = 0#32 ∧
    w.runningContext ∈ queued qs ∧ w.currentContext = w.runningContext)

theorem CameBack.currentContext (h : CameBack v qs r answer w) :
    w.currentContext = v.currentContext := h.confined _ fun hc => by
  rcases hc with hc | hc <;> exact absurd hc (by decide)

theorem AboutToSleep.contextClear (h : AboutToSleep L v qs q xs r) (hL : L.Sound)
    (hw : SleptOrMoved v qs r answer w) : L.ContextClear w.currentContext := by
  rcases hw with hrefused | ⟨-, ⟨p, hmem⟩, hcur⟩
  · cases hrefused with
    | disabled => exact h.context
    | cameBack _ hback => exact hback.currentContext ▸ h.context
  · rw [hcur]
    exact hL.contextClear (h.queues.threads p _ hmem)

/-- The thread leaves the wait queue again, whether or not SelectThread switched. -/
theorem AboutToSleep.goes_unpark (h : AboutToSleep L v qs q (ys ++ zs) r) (hL : L.Sound)
    (hn : n = first zs 0#32) (hidle : v.word (.global kSchedulerIdleFlagAddr) = 0#32)
    (hw : CameBack (v.park q r n) qs r answer w ∨ Switched (v.park q r n) qs w) :
    Goes L (withoutSwitch L answer stops) (SleepThread.unpark q r) w fun _ u =>
      SleptOrMoved v qs r answer u := by
  have hr0 := hL.thread_ne_zero h.thread
  have hnot := h.notQueued hL
  -- the state and the links of the thread are those that it waits with
  have hkept : w.state r = (v.park q r n).state r ∧
      ∀ f, w.word (.thread f r) = (v.park q r n).word (.thread f r) := by
    rcases hw with hback | hswitched
    · exact ⟨congrFun hback.state r, hback.confined.thread fun hr => hnot hr.1⟩
    · exact ⟨hswitched.state r hnot, hswitched.thread r hnot⟩
  have hparked : w.state r = kThreadStateWaiting ∧ w.word (.thread .queue r) = q := by
    rw [hkept.1, hkept.2 .queue]
    simp [View.park]
  have hnext : w.nextOf q r = n := by
    rw [View.nextOf, nextCell_thread q hr0, hkept.2 .next]
    exact (h.park_links hL n).1
  have hprev : w.prevOf q r = v.prevOf q n := by
    rw [View.prevOf, prevCell_thread q hr0, hkept.2 .prev]
    exact (h.park_links hL n).2
  have hnT : L.ThreadOrNone (w.nextOf q r) := by
    rw [hnext, hn]
    exact threadOrNone_of_mem (fun x hx => h.members x (by simp [hx])) first_mem
  have hpT : L.ThreadOrNone (w.prevOf q r) := by
    rw [hprev]
    exact threadOrNone_of_mem (fun x hx => h.members x (by simp [hx])) (h.queue.prevOf_mem hn)
  refine (goes_unpark_parked hL h.thread h.isQueue hnT hpT hparked).mono ?_
  rintro _ _ rfl
  rcases hw with hback | hswitched
  · exact Or.inl (.cameBack hidle (h.unpark hL hn hback))
  · have hglobal : ∀ a, (w.unpark q r).word (.global a) = w.word (.global a) := fun a =>
      View.remove_plain (c := .global a) trivial (by simp)
    refine Or.inr ⟨hidle, ?_, ?_⟩
    · have hrunning : (w.unpark q r).runningContext = w.runningContext := hglobal _
      rw [hrunning]
      exact hswitched.running
    · exact (hglobal _).trans (hswitched.current.trans (hglobal _).symm)

/-- With the scheduler disabled, nothing happens. -/
theorem sees_sleep_disabled (hL : L.Sound) (h : AboutToSleep L v qs q xs r)
    (hidle : v.word (.global kSchedulerIdleFlagAddr) ≠ 0#32) :
    Sees L (sleep fuel cpu q) v () := by
  unfold sleep
  refine sees_bind (sees_sleepWords h.isQueue) ?_
  rw [if_pos rfl]
  refine sees_bind (sees_runningOrDefault h.running (hL.thread_ne_zero h.thread)) ?_
  refine sees_bind (sees_mappedThread h.thread) ?_
  rw [if_pos rfl]
  refine sees_bind (sees_global (by simp [kernelWords])) ?_
  rw [if_pos hidle]
  exact sees_pure ()

theorem goes_sleep (hL : L.Sound) (h : AboutToSleep L v qs q xs r)
    (hstop : ∀ kind a, stops (.boundary kind a))
    (hfuel : stops .diverge ∨ xs.length < fuel ∧ stepsLeft qs v.mask < fuel) :
    Goes L (withoutSwitch L answer stops) (sleep fuel cpu q) v fun _ w =>
      SleptOrMoved v qs r answer w := by
  by_cases hidle : v.word (.global kSchedulerIdleFlagAddr) = 0#32
  · unfold sleep
    refine (sees_sleepWords h.isQueue).runs.then ?_
    rw [if_pos rfl]
    refine (sees_runningOrDefault h.running (hL.thread_ne_zero h.thread)).runs.then ?_
    refine (sees_mappedThread h.thread).runs.then ?_
    rw [if_pos rfl]
    refine (sees_global (L := L) (a := kSchedulerIdleFlagAddr) (by simp [kernelWords])).runs.then ?_
    rw [if_neg (by simpa using hidle)]
    obtain ⟨ys, zs, rfl, hn⟩ := v.insertionPoint_split (v.word (.thread .priority r)) xs
    refine goes_bind (goes_park (hfuel.imp (fun hd _ => hd) fun hf => hf.1) hL h.thread h.isQueue
      h.queue h.members (h.notMem hL)) ?_
    rintro _ _ rfl
    refine goes_bind (goes_setGpr cpu 3 0#32) ?_
    rintro _ w rfl
    generalize v.insertionPoint (v.word (.thread .priority r)) (ys ++ zs) = n at hn
    have hmask : (v.park q r n).mask = v.mask := View.park_global (by decide)
    refine goes_bind (goes_selectThread_parked hL (h.linked_park hL hn) h.thread ?_ ?_ ?_ hstop
      (hfuel.imp_right fun hf => hmask.symm ▸ hf.2) cpu) fun _ w hw =>
        h.goes_unpark hL hn hidle hw
    · exact (View.park_global (by decide)).trans h.running
    · simp [View.park, kThreadStateWaiting, kThreadStateRunning]
    · exact (View.park_global (by decide)).trans hidle
  · exact (sees_sleep_disabled hL h hidle).runs.goes (Or.inl (.disabled hidle))

theorem osSleepThread_refused (hL : L.Sound) (h : AboutToSleep L v qs q xs r)
    (hstop : ∀ kind a, stops (.boundary kind a))
    (hfuel : stops .diverge ∨ xs.length < fuel ∧ stepsLeft qs v.mask < fuel) {ctx : CpuPtr}
    {s : Machine Memory} (hs : Represents L s.mem v) (hq3 : s.gpr (cpuOf ctx) 3 = q) :
    (osSleepThread fuel ctx s).Meets (withoutSwitch L answer stops) fun _ t =>
      ∃ w, Represents L t.mem w ∧ SleptOrMoved v qs r answer w := by
  have hrest : Goes L (withoutSwitch L answer stops) (do
      osDisableInterrupts (cpuOf ctx)
      let irqState ← getGpr (cpuOf ctx) 3
      sleep fuel (cpuOf ctx) q
      restoreInterrupts (cpuOf ctx) irqState) v fun _ w => SleptOrMoved v qs r answer w := by
    refine goes_bind (goes_exchangeInterrupts h.context _ false) ?_
    rintro _ v rfl
    refine goes_bind (goes_gets _) ?_
    rintro irqState v rfl
    refine goes_bind (goes_sleep hL h hstop hfuel) ?_
    rintro _ w hw
    refine (goes_restoreInterrupts (h.contextClear hL hw) _ irqState).mono ?_
    rintro _ _ rfl
    exact hw
  unfold osSleepThread
  rw [bind_of (getGpr_apply ..), hq3, Routine.ite_apply, if_neg (hL.queue_ne_zero h.isQueue)]
  exact hrest s hs

end

/-! ## The law -/

/-- A way stops at a reported boundary, or for want of fuel. -/
def Reported (enough : Prop) (e : Stop) : Prop :=
  (∃ kind a, e = .boundary kind a) ∨ (e = .diverge ∧ ¬enough)

theorem reported_boundary (enough : Prop) (kind : String) (a : Word) :
    Reported enough (.boundary kind a) := Or.inl ⟨kind, a, rfl⟩

theorem reported_diverge (enough : Prop) : Reported enough .diverge ∨ enough := by
  by_cases h : enough
  · exact Or.inr h
  · exact Or.inl (Or.inr ⟨rfl, h⟩)

/-- The thread `r` runs again and is linked nowhere, and the wait queue `q` and the threads are
as before. Of the threads in the run queues, those that have ended may have lost their links. -/
structure Undone (v : View) (qs : Fin 32 → List Word) (q r : Word) (w : View) : Prop where
  running : w.state r = kThreadStateRunning
  unlinked : w.word (.thread .queue r) = 0#32
  next : w.word (.thread .next r) = 0#32
  prev : w.word (.thread .prev r) = 0#32
  head : w.word (.head q) = v.word (.head q)
  tail : w.word (.tail q) = v.word (.tail q)
  state : ∀ t, w.state t = v.state t
  priority : ∀ t, w.word (.thread .priority t) = v.word (.thread .priority t)
  links : ∀ t, ¬(t ∈ queued qs ∧ HasEnded (v.state t)) → ∀ f ∈ [.queue, .next, .prev],
    w.word (.thread f t) = v.word (.thread f t)

section

variable {L : Layout} {v w : View} {qs : Fin 32 → List Word} {q r : Word} {xs : List Word}

theorem AboutToSleep.undone (h : AboutToSleep L v qs q xs r) (hL : L.Sound)
    (hstate : w.state = v.state) (hw : Confined (endedIn v qs) v w) : Undone v qs q r w := by
  have hlinks := fun f => hw.thread (fun hr => h.notQueued hL hr.1) f
  have hoff : ¬onRunQueueArray q = true := by simp [h.off]
  refine ⟨?_, ?_, ?_, ?_, hw (.head q) hoff, hw (.tail q) hoff, congrFun hstate, fun t => ?_,
    fun t ht f _ => hw.thread ht f⟩
  · rw [hstate, h.state]
  · rw [hlinks, h.unlinked]
  · rw [hlinks, h.next]
  · rw [hlinks, h.prev]
  · exact hw _ (by simp [Cell.OfScheduler])

/-- A refused sleep is undone. If the scheduler is disabled, nothing changes. If SelectThread
comes back and the running context is still the thread, the thread runs and is linked nowhere,
and the wait queue and the other threads are as they were, but for ended threads that stood in
the run queues. -/
theorem a_refused_sleep_is_undone (h : AboutToSleep L v qs q xs r) {s : Machine Memory}
    (hs : Represents L s.mem v) {ctx : CpuPtr} (hq3 : s.gpr (cpuOf ctx) 3 = q) (answer : Word)
    (fuel : Nat) :
    (osSleepThread fuel ctx s).Meets
      (withoutSwitch L answer (Reported (xs.length < fuel ∧ stepsLeft qs v.mask < fuel)))
        fun _ t =>
        ∃ w, Represents L t.mem w ∧
          (v.word (.global kSchedulerIdleFlagAddr) ≠ 0#32 → w = v) ∧
          (w.runningContext = r → Undone v qs q r w) := by
  have hL := hs.sound
  refine (osSleepThread_refused hL h (reported_boundary _) (reported_diverge _) hs hq3).mono ?_
  rintro _ t ⟨w, hw, hslept⟩
  refine ⟨w, hw, fun hidle => ?_, fun hrun => ?_⟩
  · rcases hslept with (_ | ⟨hzero, _⟩) | ⟨hzero, _⟩
    · rfl
    · exact absurd hzero hidle
    · exact absurd hzero hidle
  · rcases hslept with (_ | ⟨_, hback⟩) | ⟨_, hmem, _⟩
    · exact h.undone hL rfl Confined.refl
    · exact h.undone hL hback.state hback.confined
    · exact absurd (hrun ▸ hmem) (h.notQueued hL)

end

/-! ## A queue with an ended thread -/

/-- Three threads, and the message queue at `0x80500000` with its receive queue and the number of
its messages. -/
def staleLayout : Layout :=
  (wiiLayout [0x80400000#32, 0x80400400#32, 0x80400800#32] [0x80500008#32] []).withWords
    [0x8050001C#32]

/-- The first thread runs, the second one waits, and the third one has ended in the run queue of
the level 4. The mask also names the level 7, where no thread is. -/
def staleCells : List (Cell × Word) :=
  [(.global kOSRunningContextAddr, 0x80400000#32), (.global kOSCurrentContextAddr, 0x80400000#32),
    (.global kSchedulerPendingFlagAddr, 0x09000000#32), (.thread .priority 0x80400000#32, 8#32),
    (.head 0x80500008#32, 0x80400400#32), (.tail 0x80500008#32, 0x80400400#32),
    (.thread .queue 0x80400400#32, 0x80500008#32), (.head (runQueue 4), 0x80400800#32),
    (.tail (runQueue 4), 0x80400800#32), (.thread .queue 0x80400800#32, runQueue 4)]

def staleView : View :=
  View.ofList staleCells [(0x80400000#32, kThreadStateRunning),
    (0x80400400#32, kThreadStateWaiting),
    (0x80400800#32, kThreadStateMoribund)]

def staleQueues (p : Fin 32) : List Word := if p = 4 then [0x80400800#32] else []

theorem staleLayout_sound : staleLayout.Sound :=
  sound_of_fit rfl (fun _ => mem_blocksOf_withWords) (by decide +kernel)

theorem mem_staleQueues {p : Fin 32} {t : Word} (ht : t ∈ staleQueues p) :
    p = 4 ∧ t = 0x80400800#32 := by
  unfold staleQueues at ht
  split at ht
  · exact ⟨‹_›, List.mem_singleton.mp ht⟩
  · cases ht

theorem stale_linked : LinkedQueues staleLayout staleView staleQueues where
  queue := by
    intro p
    have hends : ∀ p, p ≠ 4 → staleView.word (.head (runQueue p)) = 0#32 ∧
        staleView.word (.tail (runQueue p)) = 0#32 := by decide +kernel
    by_cases hp : p = 4
    · subst hp
      refine ⟨⟨⟨?_, ?_⟩, ?_, ?_⟩, by decide⟩ <;> decide +kernel
    · rw [show staleQueues p = [] from if_neg hp]
      exact ⟨hends p hp, by simp⟩
  threads := by
    intro p t ht
    rw [(mem_staleQueues ht).2]
    simp [staleLayout, wiiLayout, Layout.withWords]
  field := by
    intro p t ht
    rw [(mem_staleQueues ht).1, (mem_staleQueues ht).2]
    decide +kernel

theorem stale_aboutToSleep : AboutToSleep staleLayout staleView staleQueues 0x80500008#32
    [0x80400400#32] 0x80400000#32 where
  thread := List.mem_cons_self
  running := by decide +kernel
  state := by decide +kernel
  unlinked := by decide +kernel
  next := by decide +kernel
  prev := by decide +kernel
  isQueue := Or.inl (Or.inr (List.mem_singleton.mpr rfl))
  off := by decide
  queue := by
    refine ⟨⟨⟨?_, ?_⟩, ?_, ?_⟩, by decide⟩ <;> decide +kernel
  members := by simp [staleLayout, wiiLayout, Layout.withWords]
  field := by
    intro x hx
    rw [List.mem_singleton.mp hx]
    decide +kernel
  queues := stale_linked
  context := staleLayout_sound.contextClear List.mem_cons_self

theorem exists_stale : ∃ m, Represents staleLayout m staleView := by
  apply exists_view staleLayout_sound rfl
  · simp [staleCells, staleLayout, wiiLayout, Layout.withWords, Layout.HasCell, Layout.IsQueue,
      Layout.HasBlock, kernelWords]
    exact Or.inl (Or.inl ⟨4, rfl⟩)
  · simp [staleLayout, wiiLayout, Layout.withWords]

/-- The law where the run queues hold an ended thread only. -/
theorem the_thread_leaves_the_queue_again : ∃ s : Machine Memory,
    Represents staleLayout s.mem staleView ∧
    (osSleepThread 64 1 s).Meets (withoutSwitch staleLayout 0#32
      (Reported (1 < 64 ∧ stepsLeft staleQueues staleView.mask < 64))) fun _ t =>
        ∃ w, Represents staleLayout t.mem w ∧
          (staleView.word (.global kSchedulerIdleFlagAddr) ≠ 0#32 → w = staleView) ∧
          (w.runningContext = 0x80400000#32 →
            Undone staleView staleQueues 0x80500008#32 0x80400000#32 w) := by
  obtain ⟨m, hm⟩ := exists_stale
  have hq3 : ((bootMachine m).setGpr 1 3 0x80500008#32).gpr (cpuOf 1) 3 = 0x80500008#32 := by
    simp [cpuOf]
  exact ⟨_, hm, a_refused_sleep_is_undone stale_aboutToSleep hm hq3 0#32 64⟩

/-- A Wii where `0x80400000` runs. The run queue of the level 4 holds the ended thread
`0x80400800`, and the mask names the levels 4 and 7. -/
def staleBoot : Option Memory :=
  wiiBoot.bind fun m => ((m.write16 (0x80400000#32 + kThreadStateOffset) kThreadStateRunning).bind
    fun m => m.write16 (0x80400800#32 + kThreadStateOffset) kThreadStateMoribund).bind fun m =>
      [(kOSRunningContextAddr, 0x80400000#32), (kOSCurrentContextAddr, 0x80400000#32),
        (kSchedulerPendingFlagAddr, 0x09000000#32), (runQueue 4, 0x80400800#32),
        (runQueue 4 + 4#32, 0x80400800#32),
        (0x80400800#32 + kThreadQueueOffset, runQueue 4)].foldlM (fun m e => m.write32 e.1 e.2) m

/-- The machine with that memory calls OSSleepThread on the queue at `0x80500008`. -/
def staleMachine (m : Memory) : Machine Memory :=
  { bootMachine m with dispatch := fun _ => some ⟨false, 0#32⟩ }.setGpr 1 3 0x80500008#32

/-- What a memory shows: the running context, the queue of `0x80400800`, the links of
`0x80400000`, and the wait queue. -/
def staleReads (m : Memory) : List (Option Word) :=
  [kOSRunningContextAddr, 0x80400800#32 + kThreadQueueOffset, 0x80400000#32 + kThreadQueueOffset,
    0x80400000#32 + kThreadNextOffset, 0x80400000#32 + kThreadPrevOffset, 0x80500008#32,
    0x80500008#32 + 4#32].map m.read32

/-- What OSSleepThread calls, the state of `0x80400000` before it, and what the memory shows before
it and after it. The context that OSSaveContext saves is the one in memory: all registers are 0. -/
def staleSleep : Option (Away × Option Half × List (Option Word) × List (Option Word)) :=
  staleBoot.bind fun m =>
    match osSleepThread 8 1 (staleMachine m) with
    | .call i s k =>
      match k (s.setGpr 1 3 0#32) with
      | .ret _ s' =>
        some (i, m.read16 (0x80400000#32 + kThreadStateOffset), staleReads m, staleReads s'.mem)
      | _ => none
    | _ => none

theorem staleSleep_eq : staleSleep = some (.guest kOSSaveContextAddress 1,
    some kThreadStateRunning,
    [some 0x80400000#32, some (runQueue 4), some 0#32, some 0#32, some 0#32, some 0#32, some 0#32],
    [some 0x80400000#32, some 0#32, some 0#32, some 0#32, some 0#32, some 0#32, some 0#32]) := by
  decide +kernel

/-- The running thread is linked nowhere and the wait queue is empty. OSSaveContext answers 0, and
OSSleepThread returns with the same running context; but another thread has lost its place in
its queue. -/
theorem an_ended_thread_loses_its_queue : ∃ (s s₁ s' : Machine Memory) (k : _),
    staleReads s.mem = [some 0x80400000#32, some (runQueue 4), some 0#32, some 0#32, some 0#32,
      some 0#32, some 0#32] ∧
    s.mem.read16 (0x80400000#32 + kThreadStateOffset) = some kThreadStateRunning ∧
    s.gpr 1 3 = 0x80500008#32 ∧
    osSleepThread 8 1 s = .call (.guest kOSSaveContextAddress 1) s₁ k ∧
    k (s₁.setGpr 1 3 0#32) = .ret () s' ∧
    s'.mem.read32 kOSRunningContextAddr = some 0x80400000#32 ∧
    s'.mem.read32 (0x80400800#32 + kThreadQueueOffset) ≠ some (runQueue 4) := by
  have heq := staleSleep_eq
  unfold staleSleep at heq
  obtain ⟨m, -, heq⟩ := Option.bind_eq_some_iff.mp heq
  split at heq
  case h_1 i s₁ k hrun =>
    split at heq
    case h_1 s' hend =>
      obtain ⟨hcall, hrest⟩ := Prod.mk.inj (Option.some_inj.mp heq)
      obtain ⟨hstate, hreads⟩ := Prod.mk.inj hrest
      obtain ⟨hbefore, hafter⟩ := Prod.mk.inj hreads
      obtain ⟨hrunning, hafter⟩ := List.cons.inj hafter
      obtain ⟨hqueue, -⟩ := List.cons.inj hafter
      refine ⟨staleMachine m, s₁, s', k, hbefore, hstate,
        by simp [staleMachine], hcall ▸ hrun, hend,
        hrunning, ?_⟩
      rw [hqueue]
      decide
    case h_2 => cases heq
  case h_2 => cases heq

end wii_switch
