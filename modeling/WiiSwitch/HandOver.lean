-- Ways of a routine on which other threads may run, seen through views. The world of a
-- contract grows while the machine is handed over. From a scheduler that is in order,
-- SelectThread lets the running thread go on, or hands the machine over with another
-- thread running.
import WiiSwitch.Lib.Pools
import WiiSwitch.SchedulerInvariant

namespace wii_switch

open OS Routine Ring SelectThread Levels

/-! ## Ways in a world -/

section

variable {ω α β : Type} {L : Layout} {C : Coop.WorldContract ω (Machine Memory) Away} {g : ω}
  {v w : View}

/-- From every machine whose memory represents `v`, each way of the routine from the world
`g` ends with a memory that represents some view, as `Q` says. -/
def GoesIn (L : Layout) (C : Coop.WorldContract ω (Machine Memory) Away) (x : OS α) (v : View)
    (Q : ω → α → View → Prop) (g : ω) : Prop :=
  ∀ s, Represents L s.mem v →
    (x s).MeetsIn C (fun g' a t => ∃ w, Represents L t.mem w ∧ Q g' a w) g

theorem Goes.goesIn {x : OS α} {R : α → View → Prop} (h : Goes L (C.still g) x v R) :
    GoesIn L C x v (fun g' a w => g' = g ∧ R a w) g := by
  intro s hs
  refine (h s hs).meetsIn.mono ?_
  rintro g' a t ⟨hg, w, hw, hR⟩
  exact ⟨w, hw, hg, hR⟩

theorem goesIn_pure {Q : ω → β → View → Prop} {b : β} (h : Q g b v) :
    GoesIn L C (pure b) v Q g := fun _ hs => ⟨v, hs, h⟩

theorem goesIn_stop {Q : ω → β → View → Prop} (e : Stop) :
    GoesIn L C (Routine.stop e : OS β) v Q g := fun _ _ => trivial

theorem goesIn_bind {Q : ω → β → View → Prop} {R : ω → α → View → Prop} {x : OS α}
    {y : α → OS β} (hx : GoesIn L C x v R g)
    (hy : ∀ g' a w, R g' a w → GoesIn L C (y a) w Q g') :
    GoesIn L C (x >>= y) v Q g := by
  intro s hs
  refine Coop.meetsIn_bind.mpr ((hx s hs).mono ?_)
  rintro g' a t ⟨w, hw, hR⟩
  exact hy g' a w hR t hw

theorem GoesIn.mono {Q R : ω → β → View → Prop} {x : OS β} (h : GoesIn L C x v R g)
    (hQ : ∀ g' b w, R g' b w → Q g' b w) : GoesIn L C x v Q g := by
  intro s hs
  refine (h s hs).mono ?_
  rintro g' b t ⟨w, hw, hR⟩
  exact ⟨w, hw, hQ g' b w hR⟩

/-- A part that keeps the world comes first. -/
theorem Goes.thenIn {Q : ω → β → View → Prop} {R : α → View → Prop} {x : OS α}
    {y : α → OS β} (hx : Goes L (C.still g) x v R)
    (hy : ∀ a w, R a w → GoesIn L C (y a) w Q g) :
    GoesIn L C (x >>= y) v Q g := by
  refine goesIn_bind hx.goesIn ?_
  rintro _ a w ⟨rfl, hR⟩
  exact hy a w hR

theorem Runs.thenIn {Q : ω → β → View → Prop} {x : OS α} {y : α → OS β} {a : α}
    (hx : Runs L x v a w) (hy : GoesIn L C (y a) w Q g) : GoesIn L C (x >>= y) v Q g := by
  intro s hs
  obtain ⟨m, hxs, hm⟩ := hx s hs
  rw [bind_of hxs]
  exact hy _ hm

theorem still_stops (e : Stop) (s : Machine Memory) :
    (C.still g : Coop.Contract (Machine Memory) Stop Away).stops e s := trivial

/-! ## The hand-over in a world -/

/-- What a contract must allow for the machine to be handed over with the view `v`; `Q`
holds of the view when the machine comes back. -/
structure HandsOverIn (L : Layout) (C : Coop.WorldContract ω (Machine Memory) Away) (g : ω)
    (v : View) (Q : ω → View → Prop) : Prop where
  guar_jump : ∀ a c s, Represents L s.mem v → C.guar g (.jump a c) s
  guar_host : ∀ h s, Represents L s.mem v → C.guar g (.host h) s
  host : ∀ h s g' s', Represents L s.mem v → C.rely g (.host h) s g' s' →
    ∃ w, Represents L s'.mem w ∧ Q g' w
  stay : Q g v

theorem HandsOverIn.mono {Q R : ω → View → Prop} (h : HandsOverIn L C g v Q)
    (hQ : ∀ g' w, Q g' w → R g' w) : HandsOverIn L C g v R where
  guar_jump := h.guar_jump
  guar_host := h.guar_host
  host := by
    intro i s g' s' hs hs'
    obtain ⟨w, hw, hq⟩ := h.host i s g' s' hs hs'
    exact ⟨w, hw, hQ g' w hq⟩
  stay := hQ g v h.stay

/-- The guest code that SelectThread calls with the callback `f` leaves the view, and
OSSaveContext returns 0. -/
structure LeavesView (L : Layout) (C : Coop.WorldContract ω (Machine Memory) Away) (g : ω)
    (f : Word) : Prop where
  guar : ∀ a c s, a = kOSSaveContextAddress ∨ a = f → C.guar g (.guest a c) s
  rely : ∀ a c s g' s', a = kOSSaveContextAddress ∨ a = f → C.rely g (.guest a c) s g' s' →
    g' = g ∧ SameView L s s' ∧ (a = kOSSaveContextAddress → s'.gpr c 3 = 0#32)

theorem LeavesView.still_guar {f a : Word} (h : LeavesView L C g f)
    (ha : a = kOSSaveContextAddress ∨ a = f) (c : CpuPtr) (s : Machine Memory) :
    (C.still g : Coop.Contract (Machine Memory) Stop Away).guar (.guest a c) s :=
  ⟨h.guar a c s ha, fun g' s' hs' => (h.rely a c s g' s' ha hs').1⟩

variable {t : Word} {cpu : CpuPtr} {Q : ω → View → Prop}

theorem goesIn_switchTo (h : HandsOverIn L C g v Q) :
    GoesIn L C (switchTo t cpu) v (fun g' _ w => Q g' w) g := by
  have hstop : ∀ e s, (C.still g : Coop.Contract (Machine Memory) Stop Away).stops e s :=
    still_stops
  unfold switchTo
  refine (goes_gets _).thenIn ?_
  rintro f v rfl
  split
  · exact goesIn_pure h.stay
  refine (goes_gets _).thenIn ?_
  rintro available v rfl
  split
  · split
    · exact goesIn_pure h.stay
    refine (goes_gets _).thenIn ?_
    rintro callerContext v rfl
    have hsave : ∀ frame, Goes L (C.still g) (saveCaller frame) v fun _ w =>
      w = v := fun frame => by
      unfold saveCaller
      split
      · exact goes_pure rfl
      · exact goes_modify fun _ => rfl
    refine (hsave _).thenIn ?_
    rintro _ v rfl
    have hload : ∀ i, Goes L (C.still g) (loadTarget t i cpu) v fun _ w => w = v := fun i =>
      goes_modify fun _ => rfl
    refine (hload _).thenIn ?_
    rintro _ v rfl
    refine (goes_gets _).thenIn ?_
    rintro current v rfl
    split
    · exact goesIn_pure h.stay
    have hswitch : ∀ target, GoesIn L C (hostSwitch target) v (fun g' _ w => Q g' w) g := by
      intro target s hs
      unfold hostSwitch
      rw [bind_of (gets_apply ..), Routine.ite_apply]
      split
      · exact ⟨v, hs, h.stay⟩
      · refine ⟨h.guar_host _ _ hs, fun g' s' hs' => ?_⟩
        exact h.host target (s.onHost target) g' s' hs hs'
    refine goesIn_bind (hswitch _) ?_
    rintro g' _ w hw
    refine (goes_switchToLeave _).thenIn ?_
    rintro _ w rfl
    exact goesIn_pure hw
  · exact goesIn_pure h.stay

/-- The fallback never comes back. -/
theorem goesIn_osLoadContext (hL : L.Sound) (hcpu : cpu ≠ 0) (ht : t ∈ L.threads)
    (h : HandsOverIn L C g v Q) {R : ω → Unit → View → Prop} :
    GoesIn L C (do
      setGpr cpu 3 t
      osLoadContext cpu) v R g := by
  have hcpu' : cpuOf cpu = cpu := if_pos hcpu
  have hjump : ∀ srr0 s, Represents L s.mem v → ((do
      invokeIndirectJump srr0 cpu
      boundary "OSLOADCONTEXT_TARGET_RETURNED" srr0 : OS Unit) s).MeetsIn C
        (fun g' a t => ∃ w, Represents L t.mem w ∧ R g' a w) g := by
    intro srr0 s hs
    unfold invokeIndirectJump tryDispatchIndirect
    rw [if_neg hcpu]
    cases hd : s.dispatch srr0 with
    | none => simp [hd, boundary, Coop.MeetsIn]
    | some record =>
      simp only [bind_apply, gets_apply, Coop.bind_ret, hd, call_apply, Coop.bind_call, onCpu_apply,
        pure_apply, if_true, Coop.meetsIn_call]
      exact ⟨h.guar_jump _ _ s hs, fun _ _ _ => trivial⟩
  have hrest : GoesIn L C (do
      let srr0 ← read32 (t + kContextSrr0Offset)
      if srr0 = 0#32 then
        return ← boundary "OSLOADCONTEXT_NULL_SRR0" kOSLoadContextAddress
      loadContextRegisters cpu t srr0
      invokeIndirectJump srr0 cpu
      boundary "OSLOADCONTEXT_TARGET_RETURNED" srr0) v R g := by
    refine (goes_read_thread hL ht (i := 0x198) (by decide)).thenIn ?_
    rintro srr0 v rfl
    split
    · exact goesIn_stop _
    refine (goes_loadContextRegisters hL ht srr0).thenIn ?_
    rintro _ v rfl
    exact hjump srr0
  intro s hs
  rw [bind_of (setGpr_apply ..)]
  unfold osLoadContext
  rw [hcpu', bind_of (getGpr_apply ..)]
  have hr3 : (s.setGpr cpu 3 t).gpr cpu 3 = t := by simp
  rw [hr3, if_neg (hL.thread_ne_zero ht)]
  exact hrest _ hs

/-- The machine is handed over. -/
theorem goesIn_enterThread (hL : L.Sound) (hcpu : cpu ≠ 0) (ht : t ∈ L.threads)
    (h : HandsOverIn L C g v Q) (old : Word) :
    GoesIn L C (enterThread cpu old t) v (fun g' _ w => Q g' w) g := by
  have hfiber : Goes L (C.still g) (hasFiber t) v fun _ w => w = v := by
    refine goes_bind (goes_gets _) ?_
    rintro available v rfl
    split
    · refine goes_bind (goes_gets _) ?_
      rintro f v rfl
      exact goes_pure rfl
    · exact goes_pure rfl
  refine hfiber.thenIn ?_
  rintro b v rfl
  cases b with
  | false => exact goesIn_osLoadContext hL hcpu ht h
  | true =>
    rw [if_pos rfl]
    refine (goes_registerMain old).thenIn ?_
    rintro b v rfl
    cases b with
    | false => exact goesIn_stop _
    | true =>
      rw [if_pos rfl]
      refine goesIn_bind (goesIn_switchTo h) ?_
      rintro g' b w hw
      cases b with
      | false => exact goesIn_stop _
      | true =>
        rw [if_pos rfl]
        refine (goes_setGpr cpu 3 0#32).goesIn.mono ?_
        rintro _ _ w ⟨rfl, rfl⟩
        exact hw

/-- From the loop on: a thread that is served first is taken and published, and the machine
is handed over to it. With nothing to serve, the process stops. -/
theorem goesIn_switchThread {qs : Fin 32 → List Word} {fuel : Nat} (hL : L.Sound)
    (hcpu : cpu ≠ 0) (h : ReadyQueues L v qs) (hleaves : LeavesView L C g v.callback)
    (hand : ∀ p t, Served qs p t → HandsOverIn L C g (v.selected p t) Q) (old : Word) :
    GoesIn L C (switchThread fuel cpu old) v (fun g' _ w => Q g' w) g := by
  by_cases hsome : ∃ p, qs p ≠ []
  · obtain ⟨p, t, ht⟩ := exists_served hsome
    obtain ⟨xs, hxs⟩ := ht.split
    have hmem := h.threads p t ht.mem
    have hq : v.Queue (runQueue p) (t :: xs) := hxs ▸ h.queue p
    obtain ⟨hmask, hcntlzw⟩ := h.cntlzw ht
    have hlive : v.state t ≠ 0#16 ∧ v.state t ≠ kThreadStateMoribund := by
      rw [h.ready p t ht.mem]
      decide
    rcases Nat.eq_zero_or_pos fuel with rfl | hfuel
    · refine goesIn_bind (R := fun _ _ _ => False) ?_ fun _ _ _ hf => hf.elim
      refine runs_read_mask.thenIn ?_
      rw [if_neg hmask]
      exact (Writes.runs (writes_write_resched 0#32)).thenIn (goesIn_stop _)
    have hput := h.put (a := kSchedulerReschedCounterAddr) (by decide) 0#32
    refine (runs_select hcntlzw hmask hq hmem hlive hfuel).thenIn ?_
    rw [if_neg (hL.thread_ne_zero hmem)]
    have hkeep : (v.put (.global kSchedulerReschedCounterAddr) 0#32).mask = v.mask := by
      rw [View.mask, View.put_word, if_neg (by decide)]
      rfl
    rw [← hkeep]
    refine (runs_takeThread (hxs ▸ hput.queue p) (hxs ▸ h.threads p)).thenIn ?_
    have hcb : ((v.put (.global kSchedulerReschedCounterAddr) 0#32).take p t).callback =
        v.callback := by
      rw [View.callback, View.take_global (by decide), View.put_word, if_neg (by decide)]
      rfl
    refine (goes_publish hL hcpu hmem old (fun s _ _ => ?_) fun s s' _ hs hs' => ?_).thenIn ?_
    · exact hleaves.still_guar (Or.inr hcb) cpu s
    · exact (hleaves.rely _ cpu s g s' (Or.inr hcb) hs').2.1.represents hs
    rintro _ w rfl
    exact goesIn_enterThread hL hcpu hmem (hand p t ht) old
  · refine goesIn_bind (R := fun _ _ _ => False) ?_ fun _ _ _ hf => hf.elim
    refine runs_read_mask.thenIn ?_
    rw [if_pos (h.mask_zero.mpr fun p => not_not.mp fun hp => hsome ⟨p, hp⟩)]
    exact goesIn_stop _

end

/-! ## A scheduler in order -/

/-- The queues are in order, and the thread `r` runs and is the running context. -/
structure Running (L : Layout) (live : Set Word) (v : View) (W : Set Word) (ls : Word → List Word)
    (r : Word) : Prop where
  scheduled : Scheduled L live v W ls
  live : r ∈ live
  running : v.runningContext = r
  current : v.currentContext = r
  state : v.state r = kThreadStateRunning
  suspend : v.word (.thread .suspend r) = 0#32

/-- The scheduler is in order: its queues are, and the running context runs. -/
def InOrder (L : Layout) (live : Set Word) (v : View) : Prop := ∃ W ls r, Running L live v W ls r

/-- The queues with `t` at the end of the run queue of `p`. -/
def enqueue (ls : Word → List Word) (p : Fin 32) (t : Word) : Word → List Word :=
  Function.update ls (runQueue p) (ls (runQueue p) ++ [t])

/-- The queues without the head of the run queue of `p`. -/
def dequeue (ls : Word → List Word) (p : Fin 32) : Word → List Word :=
  Function.update ls (runQueue p) (ls (runQueue p)).tail

/-- A cell that the scheduler does not write: no link, no queue field, and of the kernel words
only the callback. -/
def Cell.Steady : Cell → Prop
  | .global a => a = kSwitchThreadCallbackPtrAddr
  | .thread f _ => f ≠ .next ∧ f ≠ .prev ∧ f ≠ .queue
  | .mutex _ _ => True
  | .word _ => True
  | _ => False

/-- The scheduler is in order again, the other cells are as before, and a wait queue is still
well-formed. -/
structure Reordered (L : Layout) (live : Set Word) (v w : View) : Prop where
  inOrder : InOrder L live w
  steady : ∀ c : Cell, c.Steady → w.word c = v.word c
  waits : ∀ q, q ≠ 0#32 → WaitQueue L live v q → WaitQueue L live w q

section

variable {L : Layout} {live : Set Word} {v w : View} {W : Set Word} {ls : Word → List Word}
  {r t : Word} {p : Fin 32}

theorem mem_enqueue {q u : Word} (h : u ∈ ls q) : u ∈ enqueue ls p t q := by
  by_cases hq : q = runQueue p
  · subst hq
    rw [enqueue, Function.update_self]
    exact List.mem_append_left _ h
  · rwa [enqueue, Function.update_of_ne hq]

theorem of_mem_enqueue {q u : Word} (h : u ∈ enqueue ls p t q) : u ∈ ls q ∨ u = t := by
  by_cases hq : q = runQueue p
  · subst hq
    rw [enqueue, Function.update_self] at h
    exact (List.mem_append.mp h).imp_right List.mem_singleton.mp
  · rw [enqueue, Function.update_of_ne hq] at h
    exact Or.inl h

theorem mem_dequeue {q u : Word} (ht : Served (fun p => ls (runQueue p)) p t) (h : u ∈ ls q)
    (hu : u ≠ t) : u ∈ dequeue ls p q := by
  by_cases hq : q = runQueue p
  · subst hq
    obtain ⟨xs, hxs⟩ := ht.split
    rw [dequeue, Function.update_self, hxs]
    rw [hxs] at h
    exact (List.mem_cons.mp h).resolve_left hu
  · rwa [dequeue, Function.update_of_ne hq]

theorem of_mem_dequeue {q u : Word} (h : u ∈ dequeue ls p q) : u ∈ ls q := by
  by_cases hq : q = runQueue p
  · subst hq
    rw [dequeue, Function.update_self] at h
    exact List.mem_of_mem_tail h
  · rwa [dequeue, Function.update_of_ne hq] at h

theorem enqueue_off {q : Word} (hq : onRunQueueArray q = false) : enqueue ls p t q = ls q :=
  Function.update_of_ne (runQueue_off hq p).symm ..

theorem dequeue_off {q : Word} (hq : onRunQueueArray q = false) : dequeue ls p q = ls q :=
  Function.update_of_ne (runQueue_off hq p).symm ..

theorem Running.unlinked (h : Running L live v W ls r) : Unlinked W ls r := by
  apply h.scheduled.unlinked_of_state
  · rw [h.state]
    decide
  · rw [h.state]
    decide

theorem Cell.Steady.plain {c : Cell} (h : c.Steady) : c.Plain := by
  cases c with
  | thread f t => exact ⟨h.1, h.2.1⟩
  | global a => trivial
  | mutex f m => trivial
  | word a => trivial
  | _ => exact h.elim

theorem Cell.Steady.ne_queue {c : Cell} (h : c.Steady) (t : Word) : c ≠ .thread .queue t := by
  rintro rfl
  exact h.2.2 rfl

theorem Cell.Steady.ne_global {c : Cell} (h : c.Steady) {a : Word}
    (ha : a ≠ kSwitchThreadCallbackPtrAddr) : c ≠ .global a := by
  rintro rfl
  exact ha h

theorem Reordered.callback (h : Reordered L live v w) : w.callback = v.callback :=
  h.steady (.global kSwitchThreadCallbackPtrAddr) rfl

/-- A global word other than the mask and the end of the list of all threads. -/
theorem Scheduled.putKernel (h : Scheduled L live v W ls) {a : Word}
    (ha : a ≠ kSchedulerPendingFlagAddr) (ha' : a ≠ kThreadListTailAddr) (x : Word) :
    Scheduled L live (v.put (.global a) x) W ls := h.putGlobal ha fun he => absurd he ha'

/-- The running thread at the end of its run queue. -/
theorem Running.requeue (h : Running L live v W ls r) (hr0 : r ≠ 0#32)
    (hp : v.word (.thread .priority r) = level p) :
    Scheduled L live (v.requeue r p) W (enqueue ls p r) := by
  have hready := h.scheduled.putState (x := kThreadStateReady) h.unlinked fun he =>
    absurd he (by decide)
  have hend : ls (runQueue p) = ls (runQueue p) ++ [] := (List.append_nil _).symm
  have hlinked := hready.linkReady h.live hr0 h.unlinked (by simp) h.suspend hp hend rfl
  exact hlinked.putKernel (by decide) (by decide) 1#32

theorem requeue_steady {c : Cell} (hc : c.Steady) : (v.requeue r p).word c = v.word c :=
  View.requeue_plain hc.plain (hc.ne_queue r) (hc.ne_global (by decide)) (hc.ne_global (by decide))

theorem selected_steady {c : Cell} (hc : c.Steady) : (v.selected p t).word c = v.word c := by
  rw [View.selected, View.publish, View.setCurrent, View.put_word,
    if_neg (hc.ne_global (by decide)), View.put_word, if_neg (hc.ne_global (by decide)),
    View.put_word, if_neg (hc.ne_global (by decide)),
    View.take_plain hc.plain (hc.ne_queue t) (hc.ne_global (by decide)), View.put_word,
    if_neg (hc.ne_global (by decide))]

/-- The thread that is served runs, and is the running context. -/
theorem Scheduled.select_running (h : Scheduled L live v W ls)
    (ht : Served (fun p => ls (runQueue p)) p t) :
    Running L live (v.selected p t) W (dequeue ls p) t := by
  obtain ⟨xs, hxs⟩ := ht.split
  have hmem : t ∈ ls (runQueue p) := ht.mem
  have hrest : dequeue ls p = Function.update ls (runQueue p) xs := by
    rw [dequeue, hxs, List.tail_cons]
  rw [hrest]
  have hput := h.putKernel (a := kSchedulerReschedCounterAddr) (by decide) (by decide) 0#32
  have htake := (hput.take hxs).1
  have hrun := htake.putKernel (a := kOSRunningContextAddr) (by decide) (by decide) t
  have hphys := hrun.putKernel (a := kOSPhysicalContextAddr) (by decide) (by decide)
    (t &&& 0x3FFFFFFF#32)
  have hcur := hphys.putKernel (a := kOSCurrentContextAddr) (by decide) (by decide) t
  refine ⟨hcur, h.member _ (h.runs p) t hmem, ?_, ?_, ?_, ?_⟩
  · simp [View.runningContext, View.selected, View.publish, View.setCurrent,
      kOSRunningContextAddr, kOSCurrentContextAddr, kOSPhysicalContextAddr]
  · simp [View.currentContext, View.selected, View.publish, View.setCurrent]
  · simp [View.selected, View.publish, View.setCurrent, View.take]
  · exact (selected_steady (c := .thread .suspend t) (by simp [Cell.Steady])).trans
      (h.ready p t hmem).2.1

theorem Scheduled.selected (h : Scheduled L live v W ls)
    (ht : Served (fun p => ls (runQueue p)) p t) : Reordered L live v (v.selected p t) := by
  refine ⟨⟨W, _, t, h.select_running ht⟩, fun _ => selected_steady, fun q hq0 hq => ?_⟩
  obtain ⟨W₂, ls₂, h₂, hin, _, hsame⟩ := h.use hq hq0
  have hqs : (fun p => ls₂ (runQueue p)) = fun p => ls (runQueue p) :=
    funext fun p => hsame _ (h.runs p)
  exact (h₂.select_running (hqs ▸ ht)).scheduled.waitQueue hin hq.off

/-- One more queue in use. -/
theorem Running.use {q : Word} (h : Running L live v W ls r) (hq : WaitQueue L live v q)
    (hq0 : q ≠ 0#32) : ∃ W' ls', Running L live v W' ls' r ∧ q ∈ W' ∧ W ⊆ W' ∧
      ∀ q' ∈ W, ls' q' = ls q' := by
  obtain ⟨W', ls', hs, hin, hsub, hsame⟩ := h.scheduled.use hq hq0
  exact ⟨W', ls', ⟨hs, h.live, h.running, h.current, h.state, h.suspend⟩, hin, hsub, hsame⟩

/-- Another change before it, that leaves the same cells and the wait queues. -/
theorem Reordered.trans (h : ∀ c : Cell, c.Steady → w.word c = v.word c)
    (hq : ∀ q, q ≠ 0#32 → WaitQueue L live v q → WaitQueue L live w q) {u : View}
    (hw : Reordered L live w u) : Reordered L live v u :=
  ⟨hw.inOrder, fun c hc => (hw.steady c hc).trans (h c hc),
    fun q hq0 hv => hw.waits q hq0 (hq q hq0 hv)⟩

end

/-! ## SelectThread -/

/-- The running context `r` runs, or it has begun to wait and the scheduler is not idle. -/
structure AtSelect (L : Layout) (live : Set Word) (v : View) (W : Set Word)
    (ls : Word → List Word) (r : Word) : Prop where
  scheduled : Scheduled L live v W ls
  live : r ∈ live
  running : v.runningContext = r
  current : v.currentContext = r
  state : (v.state r = kThreadStateRunning ∧ v.word (.thread .suspend r) = 0#32) ∨
    (v.state r = kThreadStateWaiting ∧ v.word (.global kSchedulerIdleFlagAddr) = 0#32)

/-- SelectThread has switched from `r` to the thread that is served first: the view, the queues,
and that thread. A thread that ran is at the end of its run queue first. -/
inductive Dispatched (v : View) (ls : Word → List Word) (r : Word) :
    View → (Word → List Word) → Word → Prop
  | ran (p₀ p : Fin 32) (t : Word) : v.state r = kThreadStateRunning →
    v.word (.thread .priority r) = level p₀ →
    Served (fun p => enqueue ls p₀ r (runQueue p)) p t →
    Dispatched v ls r ((v.requeue r p₀).selected p t) (dequeue (enqueue ls p₀ r) p) t
  | waited (p : Fin 32) (t : Word) : v.state r ≠ kThreadStateRunning →
    Served (fun p => ls (runQueue p)) p t → Dispatched v ls r (v.selected p t) (dequeue ls p) t

section

variable {ω : Type} {L : Layout} {C : Coop.WorldContract ω (Machine Memory) Away} {g : ω}
  {live : Set Word} {v u : View} {W : Set Word} {ls ls' : Word → List Word}
    {r t : Word} {fuel : Nat}
  {Q : ω → View → Prop}

theorem Running.atSelect (h : Running L live v W ls r) : AtSelect L live v W ls r :=
  ⟨h.scheduled, h.live, h.running, h.current, Or.inl ⟨h.state, h.suspend⟩⟩

theorem AtSelect.toRunning (h : AtSelect L live v W ls r) (hrun : v.state r = kThreadStateRunning) :
    Running L live v W ls r := by
  refine ⟨h.scheduled, h.live, h.running, h.current, hrun, ?_⟩
  rcases h.state with ⟨_, hs⟩ | ⟨hw, _⟩
  · exact hs
  · rw [hrun] at hw
    exact absurd hw (by decide)

/-- The thread runs, and is the running context. -/
theorem Dispatched.running (hd : Dispatched v ls r u ls' t) (hL : L.Sound)
    (h : AtSelect L live v W ls r) : Running L live u W ls' t := by
  cases hd with
  | ran p₀ p _ hrun hp ht =>
    have hr0 := hL.thread_ne_zero (h.scheduled.threads r h.live)
    exact ((h.toRunning hrun).requeue hr0 hp).select_running ht
  | waited p _ _ ht => exact h.scheduled.select_running ht

theorem Dispatched.steady (hd : Dispatched v ls r u ls' t) {c : Cell} (hc : c.Steady) :
    u.word c = v.word c := by
  cases hd with
  | ran p₀ p _ _ _ _ => exact (selected_steady hc).trans (requeue_steady hc)
  | waited p _ _ _ => exact selected_steady hc

/-- A thread of a queue stays there, unless it was served. -/
theorem Dispatched.mem (hd : Dispatched v ls r u ls' t) {q x : Word} (hx : x ∈ ls q)
    (hne : x ≠ t) : x ∈ ls' q := by
  cases hd with
  | ran p₀ p _ _ _ ht => exact mem_dequeue ht (mem_enqueue hx) hne
  | waited p _ _ ht => exact mem_dequeue ht hx hne

/-- No thread comes into a queue but the one that ran. -/
theorem Dispatched.of_mem (hd : Dispatched v ls r u ls' t) {q x : Word} (hx : x ∈ ls' q) :
    x ∈ ls q ∨ x = r := by
  cases hd with
  | ran p₀ p _ _ _ _ => exact of_mem_enqueue (of_mem_dequeue hx)
  | waited p _ _ _ => exact Or.inl (of_mem_dequeue hx)

/-- The thread that is served stood in a run queue, or ran. -/
theorem Dispatched.served (hd : Dispatched v ls r u ls' t) :
    (∃ p, t ∈ ls (runQueue p)) ∨ t = r := by
  cases hd with
  | ran p₀ p _ _ _ ht => exact (of_mem_enqueue ht.mem).imp_left fun h => ⟨p, h⟩
  | waited p _ _ ht => exact Or.inl ⟨p, ht.mem⟩

/-- The wait queues stay. -/
theorem Dispatched.off (hd : Dispatched v ls r u ls' t) {q : Word}
    (hq : onRunQueueArray q = false) : ls' q = ls q := by
  cases hd with
  | ran p₀ p _ _ _ _ => rw [dequeue_off hq, enqueue_off hq]
  | waited p _ _ _ => exact dequeue_off hq

theorem Dispatched.reordered (hd : Dispatched v ls r u ls' t) (hL : L.Sound)
    (h : AtSelect L live v W ls r) : Reordered L live v u := by
  cases hd with
  | ran p₀ p _ hrun hp ht =>
    have hr0 := hL.thread_ne_zero (h.scheduled.threads r h.live)
    have hselected := ((h.toRunning hrun).requeue hr0 hp).selected ht
    refine hselected.trans (fun _ => requeue_steady) fun q hq0 hq => ?_
    obtain ⟨_, _, h₂, hin, _, _⟩ := (h.toRunning hrun).use hq hq0
    exact (h₂.requeue hr0 hp).waitQueue hin hq.off
  | waited p _ _ ht => exact h.scheduled.selected ht

/-- The save of the context, and the switch. -/
theorem goesIn_saveAndSwitch {cpu : CpuPtr} (hL : L.Sound) (hcpu : cpu ≠ 0) (hr : r ∈ L.threads)
    (h : Scheduled L live v W ls) (hleaves : LeavesView L C g v.callback)
    (hand : ∀ p t, Served (fun p => ls (runQueue p)) p t →
      HandsOverIn L C g (v.selected p t) Q) :
    GoesIn L C (do
      unless ← saveContext cpu r do return ← setGpr cpu 3 0#32
      switchThread fuel cpu r) v (fun g' _ w => Q g' w) g := by
  have hsave : Goes L (C.still g) (saveContext cpu r) v fun b w => b = true ∧ w = v := by
    refine goes_saveContext hL hcpu hr ⟨rfl, rfl⟩ (fun _ _ => still_stops _ _)
      (fun s _ => hleaves.still_guar (Or.inl rfl) _ s) fun s s' hs hs' => ?_
    obtain ⟨_, hsame, hzero⟩ := hleaves.rely _ _ _ _ _ (Or.inl rfl) hs'
    exact ⟨v, hsame.represents hs, decide_eq_true (hzero rfl), rfl⟩
  refine hsave.thenIn ?_
  rintro _ v ⟨rfl, rfl⟩
  rw [if_pos rfl]
  exact goesIn_switchThread hL hcpu h.readyQueues hleaves hand r

/-- The running context gives way, or goes on. -/
theorem goesIn_giveWay {cpu : CpuPtr} (hL : L.Sound) (hcpu : cpu ≠ 0)
    (h : AtSelect L live v W ls r) (hleaves : LeavesView L C g v.callback)
    (hand : ∀ u ls' t, Dispatched v ls r u ls' t → HandsOverIn L C g u Q)
    (hstay : v.state r = kThreadStateRunning → Q g v) (force : Word) :
    GoesIn L C (do
      if ← keepsOrRequeues r force then return ← setGpr cpu 3 0#32
      unless ← saveContext cpu r do return ← setGpr cpu 3 0#32
      switchThread fuel cpu r) v (fun g' _ w => Q g' w) g := by
  have hr := h.scheduled.threads r h.live
  have hr0 := hL.thread_ne_zero hr
  by_cases hrun : v.state r = kThreadStateRunning
  · cases hkeep : v.keeps r force with
    | true =>
      refine (sees_keepsOrRequeues hr hrun hkeep).runs.thenIn ?_
      rw [if_pos rfl]
      refine (goes_setGpr cpu 3 0#32).goesIn.mono ?_
      rintro _ _ w ⟨rfl, rfl⟩
      exact hstay hrun
    | false =>
      cases hvalid : validPriority (v.word (.thread .priority r)) with
      | false =>
        -- the priority of the running thread has no run queue
        have hstop : Goes L (C.still g) (keepsOrRequeues r force) v fun _ _ => False := by
          refine (runs_read_state hr).then ?_
          rw [hrun, if_neg (by simp)]
          refine (sees_keepsRunning hr force).runs.then ?_
          rw [hkeep, if_neg (by decide)]
          exact goes_bind (goes_requeueRunning_stop hr hvalid (fun _ _ _ _ => still_stops _ _))
            fun _ _ hf => hf
        exact hstop.thenIn fun _ _ hf => hf.elim
      | true =>
        obtain ⟨p, hp⟩ := (validPriority_iff _).mp hvalid
        have hready := h.scheduled.readyQueues
        have htail := threadOrNone_of_mem (hready.threads p) (hready.queue p).tail_mem
        refine (writes_keepsOrRequeues hr hrun hkeep hp htail).runs.thenIn ?_
        rw [if_neg (by decide)]
        have hcb : (v.requeue r p).callback = v.callback :=
          requeue_steady (c := .global kSwitchThreadCallbackPtrAddr) rfl
        exact goesIn_saveAndSwitch hL hcpu hr ((h.toRunning hrun).requeue hr0 hp)
          (hcb.symm ▸ hleaves) fun p' t ht => hand _ _ t (.ran p p' t hrun hp ht)
  · refine (sees_keepsOrRequeues_other hr hrun force).runs.thenIn ?_
    rw [if_neg (by decide)]
    exact goesIn_saveAndSwitch hL hcpu hr h.scheduled hleaves fun p t ht =>
      hand _ _ t (.waited p t hrun ht)

/-- SelectThread leaves the scheduler as it is, or hands the machine over in order. -/
theorem goesIn_selectThread (hL : L.Sound) (h : AtSelect L live v W ls r)
    (hleaves : LeavesView L C g v.callback)
    (hand : ∀ u ls' t, Dispatched v ls r u ls' t → HandsOverIn L C g u Q)
    (hstay : v.state r = kThreadStateRunning → Q g v) (ctx : CpuPtr) :
    GoesIn L C (selectThread fuel ctx) v (fun g' _ w => Q g' w) g := by
  have hcpu := cpuOf_ne_zero ctx
  by_cases hidle : v.word (.global kSchedulerIdleFlagAddr) = 0#32
  · intro s hs
    rw [selectThread_leave hL hs hidle h.running h.current (h.scheduled.threads r h.live)]
    exact goesIn_giveWay hL hcpu h hleaves hand hstay _ s hs
  · have hrun : v.state r = kThreadStateRunning :=
      h.state.elim (fun hr => hr.1) fun hw => absurd hw.2 hidle
    unfold selectThread
    refine (goes_gets _).thenIn ?_
    rintro force v rfl
    refine (runs_allMapped fun a ha => ⟨.global a, ?_, rfl⟩).thenIn ?_
    · show a ∈ kernelWords
      revert ha
      simp only [kernelWords, List.mem_cons, List.not_mem_nil, or_false]
      tauto
    rw [if_pos rfl]
    refine (sees_global (L := L) (by simp [kernelWords])).runs.thenIn ?_
    rw [if_pos (by
      rw [ge_iff_le, BitVec.le_def]
      have := BitVec.toNat_ne.mp hidle
      simp only [BitVec.toNat_ofNat] at this ⊢
      omega)]
    refine (goes_setGpr _ 3 0#32).goesIn.mono ?_
    rintro _ _ w ⟨rfl, rfl⟩
    exact hstay hrun

end

/-! ## Threads that share the machine -/

/-- The calls at which other threads may run: a switch of the host stack, a jump that never
comes back, and the guest functions of `A`. -/
def GivesAway (A : Word → Prop) : Away → Prop
  | .guest a _ => A a
  | _ => True

/-- Guest code that is called leaves the view, and OSSaveContext returns 0. -/
def AnswersCall (L : Layout) : Away → Machine Memory → Machine Memory → Prop
  | .guest a c, s, s' => SameView L s s' ∧ (a = kOSSaveContextAddress → s'.gpr c 3 = 0#32)
  | _, _, _ => False

/-- The machine shows a view of which `F` holds in the world. -/
def Shows {ω : Type} (L : Layout) (F : ω → View → Prop) (g : ω)
    (s : Machine Memory) : Prop :=
  ∃ v, Represents L s.mem v ∧ F g v

section

variable {ω : Type} [Preorder ω] {L : Layout} {A : Word → Prop} {F : ω → View → Prop}
  {note : ω → Away → Machine Memory → ω} {g : ω} {v : View}

/-- The threads agree on `F` wherever one of them hands the machine over. -/
theorem handsOverIn_sharing (hjump : ∀ g a c s, note g (.jump a c) s = g)
    (hhost : ∀ g h s, note g (.host h) s = g) (h : F g v) :
    HandsOverIn L (Coop.sharing (GivesAway A) (AnswersCall L) (Shows L F) note) g v
      fun g' w => g ≤ g' ∧ F g' w where
  guar_jump := by
    intro a c s hs _
    rw [hjump]
    exact ⟨v, hs, h⟩
  guar_host := by
    intro i s hs _
    rw [hhost]
    exact ⟨v, hs, h⟩
  host := by
    rintro i s g' s' hs (⟨_, hg, w, hw, hF⟩ | ⟨hi, _⟩)
    · rw [hhost] at hg
      exact ⟨w, hw, hg, hF⟩
    · exact absurd trivial hi
  stay := ⟨le_rfl, h⟩

theorem leavesView_sharing {f : Word} (hsave : ¬A kOSSaveContextAddress) (hf : ¬A f) :
    LeavesView L (Coop.sharing (GivesAway A) (AnswersCall L) (Shows L F) note) g f where
  guar := by
    rintro a c s (rfl | rfl) hA
    · exact absurd hA hsave
    · exact absurd hA hf
  rely := by
    rintro a c s g' s' ha (⟨hA, _⟩ | ⟨_, hg, hs⟩)
    · rcases ha with rfl | rfl
      · exact absurd hA hsave
      · exact absurd hA hf
    · exact ⟨hg, hs⟩

end

end wii_switch
