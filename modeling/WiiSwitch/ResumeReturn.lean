-- What OSResumeThread gives back. The suspend count, the queues and the priorities follow
-- the guest OS. The result register does not: the restore of the interrupt state comes
-- last, and it leaves the state before it in r3, over the count that was put there.
import WiiSwitch.FlagPassing
import WiiSwitch.Resuming

namespace wii_switch

open OS Routine Ring ResumeThread

/-! ## The interrupt flag of the call -/

theorem keepsFlag_abortResume {α : Type} (kind : String) (cpu : CpuPtr) (t irqState : Word) :
    KeepsFlag (abortResumeBoundary kind cpu t irqState : OS α) := by
  intro s
  refine Coop.meets_bind.mpr (Coop.meets_any _ fun _ u => ?_)
  exact Coop.meets_bind.mpr (Coop.meets_any _ fun _ _ => trivial)

theorem keepsMachine_setQueueNext (queue thread value : Word) :
    KeepsMachine (setQueueNext queue thread value) :=
  keeps_ite (keepsMachine_write32 _ _) (keepsMachine_write32 _ _)

theorem keepsMachine_setQueuePrev (queue thread value : Word) :
    KeepsMachine (setQueuePrev queue thread value) :=
  keeps_ite (keepsMachine_write32 _ _) (keepsMachine_write32 _ _)

theorem keepsMachine_removeThreadFromQueue (t : Word) :
    KeepsMachine (ResumeThread.removeThreadFromQueue t) := by
  refine keeps_bind (keepsMachine_read32 _) fun queue => keeps_ite (keeps_pure _) ?_
  refine keeps_bind (keepsMachine_read32 _) fun _ => keeps_bind (keepsMachine_read32 _) fun _ => ?_
  refine keeps_bind (keepsMachine_setQueuePrev _ _ _) fun _ => ?_
  refine keeps_bind (keepsMachine_setQueueNext _ _ _) fun _ => ?_
  refine keeps_bind (keepsMachine_write32 _ _) fun _ => ?_
  refine keeps_bind (keepsMachine_write32 _ _) fun _ => ?_
  refine keeps_bind (keepsMachine_write32 _ _) fun _ => keeps_ite (keeps_pure _) ?_
  refine keeps_bind (keepsMachine_read32 _) fun _ => keeps_ite (keeps_pure _) ?_
  exact keeps_bind (keepsMachine_read32 _) fun _ => keepsMachine_write32 _ _

theorem keepsMachine_lowestWaiterPriority (fuel : Nat) (m x : Word) :
    KeepsMachine (lowestWaiterPriority fuel m x) := by
  intro s
  rcases lowestWaiterPriority_cases fuel m x s with ⟨y, hy⟩ | ⟨e, he⟩
  · rw [hy]
    rfl
  · rw [he]
    trivial

theorem keepsMachine_findInsertBefore (priority : Word) (fuel : Nat) (t : Word) :
    KeepsMachine (findInsertBefore priority fuel t) := by
  induction fuel generalizing t with
  | zero => exact keeps_stop _
  | succ fuel ih =>
    refine keeps_ite (keeps_pure _) (keeps_bind (keepsMachine_read32 _) fun _ => ?_)
    exact keeps_ite (keeps_pure _) (keeps_bind (keepsMachine_read32 _) fun _ => ih _)

theorem keepsMachine_insertThread (fuel : Nat) (q t priority : Word) :
    KeepsMachine (ResumeThread.insertThreadIntoQueueByPriority fuel q t priority) := by
  refine keeps_bind ?_ fun _ => keeps_ite (keeps_pure _) ?_
  · refine keeps_bind (keepsMachine_write32 _ _) fun _ => ?_
    refine keeps_bind (keepsMachine_read32 _) fun _ => ?_
    refine keeps_bind (keepsMachine_findInsertBefore _ _ _) fun insertBefore => keeps_ite ?_ ?_
    · refine keeps_bind (keepsMachine_read32 _) fun _ => ?_
      refine keeps_bind (keepsMachine_setQueueNext _ _ _) fun _ => ?_
      refine keeps_bind (keepsMachine_write32 _ _) fun _ => ?_
      exact keeps_bind (keepsMachine_write32 _ _) fun _ => keepsMachine_write32 _ _
    · refine keeps_bind (keepsMachine_write32 _ _) fun _ => ?_
      refine keeps_bind (keepsMachine_read32 _) fun _ => ?_
      refine keeps_bind (keepsMachine_write32 _ _) fun _ => ?_
      exact keeps_bind (keepsMachine_write32 _ _) fun _ => keepsMachine_setQueueNext _ _ _
  · exact keeps_bind (keepsMachine_read32 _) fun _ => keepsMachine_write32 _ _

theorem keepsFlag_checkedPriority (fuel : Nat) (cpu : CpuPtr) (t irqState : Word) :
    KeepsFlag (checkedPriority fuel cpu t irqState) := by
  refine keeps_bind ?_ fun _ => keeps_ite (keepsFlag_abortResume _ _ _ _) (keeps_pure _)
  refine keeps_bind (keepsMachine_read32 _).keepsFlag fun _ => ?_
  refine keeps_bind (keepsMachine_read32 _).keepsFlag fun _ => ?_
  exact (keepsMachine_lowestWaiterPriority _ _ _).keepsFlag

theorem keepsFlag_resumeByState (fuel : Nat) (cpu : CpuPtr) (t irqState : Word) :
    KeepsFlag (resumeByState fuel cpu t irqState) := by
  refine keeps_bind (keepsMachine_read16 _).keepsFlag fun _ => keeps_ite ?_ (keeps_ite ?_ ?_)
  · refine keeps_bind (keepsMachine_read32 _).keepsFlag fun _ => ?_
    refine keeps_ite (keepsFlag_abortResume _ _ _ _) ?_
    refine keeps_bind (keepsMachine_read32 _).keepsFlag fun _ => ?_
    refine keeps_bind (keepsMachine_removeThreadFromQueue t).keepsFlag fun _ => ?_
    refine keeps_bind (keepsFlag_checkedPriority _ _ _ _) fun _ => ?_
    refine keeps_bind (keepsMachine_write32 _ _).keepsFlag fun _ => keeps_onlyIf _ ?_
    exact (keepsMachine_insertThread _ _ _ _).keepsFlag
  · refine keeps_bind (keepsFlag_checkedPriority _ _ _ _) fun _ => ?_
    refine keeps_bind (keepsMachine_write32 _ _).keepsFlag fun _ => ?_
    refine keeps_bind (keepsMachine_insertThread _ _ _ _).keepsFlag fun _ => ?_
    refine keeps_bind (keepsMachine_write32 _ _).keepsFlag fun _ => ?_
    exact keeps_modify fun _ => rfl
  · exact keeps_ite (keepsFlag_abortResume _ _ _ _) (keeps_pure _)

theorem keepsFlag_lowerOnly (fuel : Nat) (cpu : CpuPtr) (t irqState n : Word) :
    KeepsFlag (lowerOnly fuel cpu t irqState n) := by
  refine keeps_ite ?_ (keeps_bind (keepsMachine_write32 _ _).keepsFlag fun _ => ?_)
  · exact keeps_bind (keepsMachine_write32 _ _).keepsFlag fun _ => keeps_pure _
  refine keeps_ite (keeps_pure _) (keeps_bind (keepsFlag_resumeByState _ _ _ _) fun _ => ?_)
  exact keeps_bind (keepsMachine_read32 _).keepsFlag fun _ => keeps_pure _

/-- The flag is off when the call goes into SelectThread. -/
theorem untilSelect_flag (fuel : Nat) (cpu : CpuPtr) (t : Word) (s : Machine Memory) :
    (untilSelect fuel cpu t s).Meets .any (Flag false) := by
  refine Coop.meets_bind.mpr ((exchangeInterrupts_leaves cpu false s).mono ?_)
  rintro _ u ⟨hu, _⟩
  have hrest : KeepsFlag (do
      let irqState ← getGpr cpu 3
      unless ← mapped32 (t + kThreadSuspendOffset) do
        return ← abortResumeBoundary "OSRESUMETHREAD_BAD_GUEST_STATE" cpu t irqState
      unless ← contains (t + kThreadStateOffset) 2#64 do
        return ← abortResumeBoundary "OSRESUMETHREAD_BAD_GUEST_STATE" cpu t irqState
      let suspendCount ← read32 (t + kThreadSuspendOffset)
      let again ← lowerOnly fuel cpu t irqState suspendCount
      return (irqState, suspendCount, again)) := by
    refine keeps_bind (keeps_gets _) fun _ => ?_
    refine keeps_bind (keepsMachine_mapped32 _).keepsFlag fun _ => ?_
    refine keeps_ite (keeps_bind (keeps_gets _) fun _ => ?_) (keepsFlag_abortResume _ _ _ _)
    refine keeps_ite ?_ (keepsFlag_abortResume _ _ _ _)
    refine keeps_bind (keepsMachine_read32 _).keepsFlag fun _ => ?_
    exact keeps_bind (keepsFlag_lowerOnly _ _ _ _ _) fun _ => keeps_pure _
  exact (hrest u).mono fun _ _ ht => ht.trans hu

theorem quiet_restoreInterrupts (cpu : CpuPtr) (state : Word) :
    Quiet (restoreInterrupts cpu state) := by
  refine alone_ite (alone_pure _) (alone_bind (alone_modify fun _ => rfl) fun _ => ?_)
  exact alone_bind (alone_gets _) fun _ => quiet_exchangeInterrupts cpu _

/-- The restore leaves the state before it in r3. -/
theorem restoreInterrupts_gpr {cpu : CpuPtr} (hcpu : cpu ≠ 0) (state : Word)
    (s : Machine Memory) : (restoreInterrupts cpu state s).Meets .any fun _ t =>
      t.gpr cpu 3 = stateWord s.interruptsEnabled := by
  unfold restoreInterrupts
  rw [Routine.ite_apply, if_neg hcpu, bind_of (setGpr_apply ..)]
  exact (exchangeInterrupts_leaves cpu _ _).mono fun _ t ht => ht.2 hcpu

/-- The result is the flag as the machine came back from SelectThread. -/
theorem finish_gpr {cpu : CpuPtr} (hcpu : cpu ≠ 0) (fuel : Nat) (e : Word × Word × Bool)
    (s : Machine Memory) :
    (finish fuel cpu e s).MeetsIn (Coop.lastLeft fun s : Machine Memory => s.interruptsEnabled)
      (fun back _ t => t.gpr cpu 3 = stateWord back ∧
        (e.2.2 = false → back = s.interruptsEnabled)) s.interruptsEnabled := by
  obtain ⟨irqState, n, again⟩ := e
  have hagain : (reschedule fuel cpu again s).MeetsIn
      (Coop.lastLeft fun s : Machine Memory => s.interruptsEnabled)
      (fun back _ t => t.interruptsEnabled = back ∧
        (again = false → back = s.interruptsEnabled))
      s.interruptsEnabled := by
    cases again with
    | false => exact ⟨rfl, fun _ => rfl⟩
    | true =>
      have hpass : PassesFlag (reschedule fuel cpu true) :=
        passes_bind (passesFlag_setGpr _ _ _) fun _ => passesFlag_selectThread fuel cpu
      exact (hpass s).mono fun _ _ _ ht => ⟨ht, fun hf => absurd hf (by decide)⟩
  refine Coop.meetsIn_bind.mpr (hagain.mono ?_)
  rintro back _ t ⟨ht, hback⟩
  show (restoreInterrupts cpu irqState (t.setGpr cpu 3 n)).MeetsIn _ _ _
  refine ((restoreInterrupts_gpr hcpu irqState _).meetsIn_of_alone
    ((quiet_restoreInterrupts cpu irqState _).mono fun _ _ _ => trivial)).mono ?_
  rintro _ _ u ⟨rfl, hu⟩
  rw [Machine.setGpr_interruptsEnabled, ht] at hu
  exact ⟨hu, hback⟩

/-! ## What a call does -/

section

variable {L : Layout} {live : Set Word} {v w : View} {W : Set Word} {ls ls' : Word → List Word}
  {q r t : Word} {fuel : Nat}

/-- What is said of a call on the thread `t` from the view `v` with the queues `ls`, of the view
`w` where no switch comes into it. No other cell has changed than those of `Resumed`. -/
structure DoneAsSaid (L : Layout) (v : View) (ls : Word → List Word) (t : Word) (w : View) :
    Prop where
  resumed : ∃ ls', Resumed L v ls t w ls'
  suspend : (w.suspendOf t).toInt = max ((v.suspendOf t).toInt - 1) 0
  inserted : v.suspendOf t = 1#32 → v.state t = kThreadStateReady → ∃ p,
    IsEffective L v t (level p) ∧ w.word (.thread .priority t) = level p ∧
      w.word (.thread .queue t) = runQueue p ∧ w.Queue (runQueue p) (ls (runQueue p) ++ [t]) ∧
        maskBit w.mask p = true
  notInserted : ¬(v.suspendOf t = 1#32 ∧ v.state t = kThreadStateReady) →
    ∀ p, w.Queue (runQueue p) (ls (runQueue p))
  moved : v.suspendOf t = 1#32 → v.state t = kThreadStateWaiting →
    ∀ q, v.word (.thread .queue t) = q → q ≠ 0#32 → w.word (.thread .queue t) = q ∧ ∃ p,
      IsEffective L (v.remove q t) t (level p) ∧ w.word (.thread .priority t) = level p ∧
        w.Queue q (v.insertByPriority (level p) t ((ls q).erase t))
  left : v.suspendOf t ≠ 1#32 →
    w.state = v.state ∧ ∀ c, c ≠ .thread .suspend t → w.word c = v.word c

/-- The same where SelectThread has switched from `r`, for the view `u`. A thread that was put
into its run queue is there, or it is the one that was switched to. -/
structure HandedOverAsSaid (L : Layout) (v : View) (ls : Word → List Word)
    (r t : Word) (u : View) :
    Prop where
  dispatched : ∃ w ls' ls'' x, Resumed L v ls t w ls' ∧ DoneAsSaid L v ls t w ∧
    Dispatched w ls' r u ls'' x
  count : v.suspendOf t = 1#32
  suspend : u.suspendOf t = 0#32
  inserted : v.state t = kThreadStateReady → ∃ p, IsEffective L v t (level p) ∧
    u.word (.thread .priority t) = level p ∧ (u.runningContext = t ∨
      u.word (.thread .queue t) = runQueue p ∧ maskBit u.mask p = true ∧
        ∃ xs, u.Queue (runQueue p) xs ∧ t ∈ xs)
  notInserted : v.state t ≠ kThreadStateReady → u.runningContext ≠ t ∧
    ∀ p, ∃ xs, u.Queue (runQueue p) xs ∧ t ∉ xs
  moved : v.state t = kThreadStateWaiting →
    ∀ q, v.word (.thread .queue t) = q → q ≠ 0#32 → u.word (.thread .queue t) = q ∧ ∃ p,
      IsEffective L (v.remove q t) t (level p) ∧ u.word (.thread .priority t) = level p ∧
        u.Queue q (v.insertByPriority (level p) t ((ls q).erase t))

/-- What is said of the view `u` where a call returns. `others` is the view that other threads
left, if they ran meanwhile: the call does no more behind them. -/
def LeavesAsSaid (L : Layout) (v : View) (ls : Word → List Word) (r t : Word)
    (others : Option View) (u : View) : Prop :=
  match others with
  | none => DoneAsSaid L v ls t u ∨ HandedOverAsSaid L v ls r t u
  | some w => u = w

/-- All that is said of a call that returns, with `r3` as the result. -/
structure ResumesAsSaid (L : Layout) (v : View) (ls : Word → List Word) (r t : Word)
    (others : Option View) (u : View) (r3 : Word) : Prop where
  left : LeavesAsSaid L v ls r t others u
  returned : r3 = v.suspendOf t

theorem remove_put_suspend (v : View) (q t u x : Word) :
    (v.put (.thread .suspend u) x).remove q t = (v.remove q t).put (.thread .suspend u) x := by
  have hn : (v.put (.thread .suspend u) x).nextOf q t = v.nextOf q t := by
    simp [View.nextOf,
      (Cell.Plain.ne_nextCell (c := .thread .suspend u) (by simp [Cell.Plain]) q t).symm]
  have hp : (v.put (.thread .suspend u) x).prevOf q t = v.prevOf q t := by
    simp [View.prevOf,
      (Cell.Plain.ne_prevCell (c := .thread .suspend u) (by simp [Cell.Plain]) q t).symm]
  refine View.ext (funext fun c => ?_) rfl
  by_cases hc : c = .thread .suspend u
  · subst hc
    rw [View.remove_plain (by simp [Cell.Plain]) (by simp)]
    simp
  · simp only [View.remove, View.unlink, View.put_word, hn, hp, if_neg hc]

theorem Resumed.suspendOf (h : Resumed L v ls t w ls') :
    w.suspendOf t = lowered (v.suspendOf t) := by
  have hlow : (v.lower t).suspendOf t = lowered (v.suspendOf t) := by
    simp [View.suspendOf, View.lower]
  cases h with
  | counted _ => exact hlow
  | ended _ _ _ _ => exact hlow
  | ready p _ _ _ =>
    refine Eq.trans ?_ hlow
    exact View.placeReady_plain (by simp [Cell.Plain]) (by simp) (by simp) (by simp) (by simp)
  | nowhere p _ _ _ _ =>
    refine Eq.trans ?_ hlow
    simp [View.suspendOf]
  | waiting q p _ _ _ _ _ =>
    refine Eq.trans ?_ hlow
    exact View.placeWaiting_plain (by simp [Cell.Plain]) (by simp) (by simp)

theorem lower_insertByPriority (v : View) (t x u : Word) (zs : List Word) :
    (v.lower t).insertByPriority x u zs = v.insertByPriority x u zs := by
  simp [View.insertByPriority, View.lower]

theorem placeReady_fields (v : View) (t : Word) (p : Fin 32) :
    (v.placeReady t p).word (.thread .priority t) = level p ∧
      (v.placeReady t p).word (.thread .queue t) = runQueue p := by
  constructor
  · rw [View.placeReady, View.put_word, if_neg (by simp), View.setMask_word (by simp),
      View.linkBefore_plain (by simp [Cell.Plain]) (by simp)]
    simp
  · rw [View.placeReady, View.put_word, if_neg (by simp), View.setMask_word (by simp),
      View.linkBefore_queue]

theorem placeWaiting_fields (v : View) (q t : Word) (p : Fin 32) (zs : List Word) :
    (v.placeWaiting q t p zs).word (.thread .priority t) = level p ∧
      (v.placeWaiting q t p zs).word (.thread .queue t) = q := by
  constructor
  · rw [View.placeWaiting, View.linkBefore_plain (by simp [Cell.Plain]) (by simp)]
    simp
  · exact View.linkBefore_queue ..

theorem Resumed.state (h : Resumed L v ls t w ls') : w.state = v.state := by
  cases h with
  | counted _ => rfl
  | ended _ _ _ _ => rfl
  | ready p _ _ _ => rfl
  | nowhere p _ _ _ _ => rfl
  | waiting q p _ _ _ _ _ => rfl

theorem Resumed.done (h : Resumed L v ls t w ls') (hL : L.Sound) (hrun : Running L live v W ls r)
    (ht : t ∈ live) (hn : 0 ≤ (v.suspendOf t).toInt) : DoneAsSaid L v ls t w := by
  have hafter := h.running hL hrun ht
  have hqueues : ∀ p, w.Queue (runQueue p) (ls' (runQueue p)) := fun p =>
    hafter.scheduled.lists.queue _ (hafter.scheduled.runs p)
  have hne : ∀ {x y : Half}, v.state t = x → v.state t = y → x = y :=
    fun hx hy => hx.symm.trans hy
  have hsuspend : (w.suspendOf t).toInt = max ((v.suspendOf t).toInt - 1) 0 := by
    rw [h.suspendOf, lowered_toInt hn]
  have hresumed : ∃ ls', Resumed L v ls t w ls' := ⟨ls', h⟩
  cases h with
  | counted hcount =>
    refine ⟨hresumed, hsuspend, fun h1 => absurd h1 hcount, fun _ => hqueues,
      fun h1 => absurd h1 hcount,
      fun _ => ⟨rfl, fun c hc => ?_⟩⟩
    rw [View.lower, View.put_word, if_neg hc]
  | ended hone hready hwait _ =>
    exact ⟨hresumed, hsuspend, fun _ h1 => absurd h1 hready, fun _ => hqueues,
      fun _ h1 => absurd h1 hwait,
      fun h1 => absurd hone h1⟩
  | ready p hone hready hp =>
    obtain ⟨hprio, hqueue⟩ := placeReady_fields (v.lower t) t p
    refine ⟨hresumed, hsuspend, fun _ _ => ⟨p, hp.of_put_suspend, hprio, hqueue, ?_, ?_⟩,
      fun h1 => absurd ⟨hone, hready⟩ h1, fun _ h1 => ?_, fun h1 => absurd hone h1⟩
    · have := hqueues p
      rwa [Function.update_self] at this
    · rw [hafter.scheduled.mask p, Function.update_self]
      simp
    · exact absurd (hne hready h1) (by decide)
  | nowhere p hone hwait hq0 hp =>
    refine ⟨hresumed, hsuspend, fun _ h1 => absurd (hne hwait h1) (by decide), fun _ => hqueues,
      fun _ _ q hq hq' => absurd (hq.symm.trans hq0) hq', fun h1 => absurd hone h1⟩
  | waiting q p hone hwait hq hq0 hp =>
    obtain ⟨hprio, hqueue⟩ := placeWaiting_fields (v.lower t) q t p ((ls q).erase t)
    obtain ⟨hin, hoff, _⟩ := hrun.scheduled.placed t ht hwait (hq ▸ hq0)
    rw [hq] at hin hoff
    refine ⟨hresumed, hsuspend, fun _ h1 => absurd (hne hwait h1) (by decide), fun _ p' => ?_, ?_,
      fun h1 => absurd hone h1⟩
    · have := hqueues p'
      rwa [Function.update_of_ne (runQueue_off hoff p')] at this
    · rintro _ _ q' hq' _
      obtain rfl : q' = q := hq'.symm.trans hq
      refine ⟨hqueue, p, ?_, hprio, ?_⟩
      · rw [View.lower, remove_put_suspend] at hp
        exact hp.of_put_suspend
      · have := hafter.scheduled.lists.queue q' hin
        rwa [Function.update_self, lower_insertByPriority] at this

/-- A thread that was not ready is in no run queue after the first part of the call. -/
theorem Resumed.notReady (h : Resumed L v ls t w ls') (hL : L.Sound)
    (hrun : Running L live v W ls r) (ht : t ∈ live) (hready : v.state t ≠ kThreadStateReady)
    (p : Fin 32) : t ∉ ls' (runQueue p) := by
  intro hmem
  have := ((h.running hL hrun ht).scheduled.ready p t hmem).1
  rw [h.state] at this
  exact hready this

/-- SelectThread keeps what the first part has done. -/
theorem Resumed.handedOver {u : View} {ls'' : Word → List Word} {x : Word}
    (h : Resumed L v ls t w ls') (hd : Dispatched w ls' r u ls'' x) (hL : L.Sound)
    (hrun : Running L live v W ls r) (ht : t ∈ live) (hone : v.suspendOf t = 1#32) :
    HandedOverAsSaid L v ls r t u := by
  have hafter := h.running hL hrun ht
  have hswitched := hd.running hL hafter.atSelect
  have hqueue : ∀ p, u.Queue (runQueue p) (ls'' (runQueue p)) := fun p =>
    hswitched.scheduled.lists.queue _ (hswitched.scheduled.runs p)
  have hdone := h.done hL hrun ht (by rw [hone]; decide)
  have hprio : u.word (.thread .priority t) = w.word (.thread .priority t) :=
    hd.steady (by simp [Cell.Steady])
  have hsuspend : u.suspendOf t = w.suspendOf t := hd.steady (by simp [Cell.Steady])
  -- the running thread is not suspended
  have htr : t ≠ r := by
    rintro rfl
    have h0 : v.suspendOf t = 0#32 := hrun.suspend
    rw [hone] at h0
    exact absurd h0 (by decide)
  refine ⟨⟨w, ls', ls'', x, h, hdone, hd⟩, hone, ?_, ?_, ?_, ?_⟩
  · rw [hsuspend, h.suspendOf, hone, lowered_one]
  · intro hready
    obtain ⟨p, hp, hlevel, -⟩ := hdone.inserted hone hready
    have hmem : t ∈ ls' (runQueue p) := by
      cases h with
      | counted hcount => exact absurd hone hcount
      | ended _ hnot _ _ => exact absurd hready hnot
      | nowhere _ _ hwait _ _ => exact absurd (hready.symm.trans hwait) (by decide)
      | waiting _ _ _ hwait _ _ _ => exact absurd (hready.symm.trans hwait) (by decide)
      | ready p' _ _ _ =>
        have hlevel' := (placeReady_fields (v.lower t) t p').1
        obtain rfl : p' = p := level_inj.mp (hlevel'.symm.trans hlevel)
        rw [Function.update_self]
        exact List.mem_append_right _ List.mem_cons_self
    refine ⟨p, hp, hprio.trans hlevel, ?_⟩
    by_cases hx : t = x
    · exact Or.inl (hswitched.running.trans hx.symm)
    · have hstays := hd.mem hmem hx
      have hfield := hswitched.scheduled.lists.field _ (hswitched.scheduled.runs p) t hstays
      have hmask := (hswitched.scheduled.mask p).mpr (List.ne_nil_of_mem hstays)
      exact Or.inr ⟨hfield, hmask, _, hqueue p, hstays⟩
  · intro hready
    have hout := h.notReady hL hrun ht hready
    refine ⟨fun hx => ?_, fun p => ⟨_, hqueue p, fun hmem => ?_⟩⟩
    · obtain rfl : x = t := hswitched.running.symm.trans hx
      rcases hd.served with ⟨p, hp⟩ | hr
      · exact hout p hp
      · exact htr hr
    · exact (hd.of_mem hmem).elim (hout p) htr
  · intro hwait q hq hq0
    obtain ⟨hfield, p, hp, hlevel, -⟩ := hdone.moved hone hwait q hq hq0
    obtain ⟨hin, hoff, hmem⟩ :=
      hafter.scheduled.placed t ht (by rw [h.state, hwait]) (hfield ▸ hq0)
    rw [hfield] at hin hoff hmem
    have hlist : ls' q = v.insertByPriority (level p) t ((ls q).erase t) := by
      cases h with
      | counted hcount => exact absurd hone hcount
      | ended _ _ hnot _ => exact absurd hwait hnot
      | ready _ _ hready _ => exact absurd (hready.symm.trans hwait) (by decide)
      | nowhere _ _ _ hq' _ => exact absurd (hq.symm.trans hq') hq0
      | waiting q' p' _ _ hq' _ _ =>
        obtain rfl : q' = q := hq'.symm.trans hq
        have hlevel' := (placeWaiting_fields (v.lower t) q' t p' ((ls q').erase t)).1
        obtain rfl : p' = p := level_inj.mp (hlevel'.symm.trans hlevel)
        rw [Function.update_self, lower_insertByPriority]
    rw [← hd.off hoff] at hmem hlist
    have hwaits := hswitched.scheduled.lists
    exact ⟨hwaits.field q hin t hmem, p, hp, hprio.trans hlevel, hlist ▸ hwaits.queue q hin⟩

/-- The other threads while a call is switched out: the scheduler is in order when they give the
machine back, and the world is the view that they leave. Guest code that is called leaves
the view, and OSSaveContext returns 0. The machine is handed over as is said. -/
def besideResume (L : Layout) (v : View) (ls : Word → List Word) (r t : Word) :
    Coop.WorldContract (Option View) (Machine Memory) Away where
  rely g i s g' s' :=
    match i with
    | .guest a cpu =>
      g' = g ∧ SameView L s s' ∧ (a = kOSSaveContextAddress → s'.gpr cpu 3 = 0#32)
    | .jump _ _ => True
    | .host _ => g' = some (viewOf s'.mem) ∧ Serves L.config s'.mem ∧
      ∃ live, InOrder L live (viewOf s'.mem)
  guar _ i s :=
    match i with
    | .guest _ _ => True
    | _ => ∃ u, Represents L s.mem u ∧ HandedOverAsSaid L v ls r t u

theorem leavesView_besideResume {g : Option View} (f : Word) :
    LeavesView L (besideResume L v ls r t) g f where
  guar := fun _ _ _ _ => trivial
  rely := fun _ _ _ _ _ _ h => h

/-- The call leaves what is said, at each of its returns and wherever it hands the machine over. -/
theorem osResumeThread_leaves (hL : L.Sound) (h : Running L live v W ls r) (ht : t ∈ live)
    (hn : 0 ≤ (v.suspendOf t).toInt) {ctx : CpuPtr} {s : Machine Memory}
    (hs : Represents L s.mem v) (ht3 : s.gpr (cpuOf ctx) 3 = t) :
    (osResumeThread fuel ctx s).MeetsIn (besideResume L v ls r t) (fun g _ t' =>
      ∃ u, Represents L t'.mem u ∧ LeavesAsSaid L v ls r t g u) none := by
  refine (osResumeThread_meetsIn (Q := fun g w => (∃ live', InOrder L live' w) ∧
    LeavesAsSaid L v ls r t g w) hL h ht (leavesView_besideResume _) ?_ ?_
    (fun _ _ hw => hw.1) hs ht3).mono ?_
  · intro ls' w u ls'' x hone hres hd
    have hafter := hres.running hL h ht
    have hhanded := hres.handedOver hd hL h ht hone
    refine ⟨fun _ _ s hs => ⟨u, hs, hhanded⟩, fun _ s hs => ⟨u, hs, hhanded⟩, ?_,
      ⟨live, W, ls'', x, hd.running hL hafter.atSelect⟩, Or.inr hhanded⟩
    rintro _ s₁ g' s₂ hs₁ ⟨rfl, hserves, horder⟩
    exact ⟨viewOf s₂.mem, represents_viewOf hL hserves, horder, rfl⟩
  · exact fun ls' w hres =>
      ⟨⟨live, W, ls', r, hres.running hL h ht⟩, Or.inl (hres.done hL h ht hn)⟩
  · rintro _ _ t' ⟨w, hw, _, hleaves⟩
    exact ⟨w, hw, hleaves⟩

/-- The restored state is the count exactly when both are 0, or when both are 1. -/
theorem stateWord_eq_count {n : Word} {back again : Bool} (hagain : again = true → n = 1#32)
    (hback : again = false → back = false) :
    stateWord back = n ↔ n = 0#32 ∨ (n = 1#32 ∧ back = true) := by
  cases back with
  | true =>
    have hone : n = 1#32 := hagain (by cases again <;> simp_all)
    simp [stateWord, hone]
  | false =>
    exact ⟨fun h0 => Or.inl h0.symm, fun h0 => (h0.resolve_right fun h1 => by simp at h1).symm⟩

/-- The result is the count just when the count is 0, or when it is 1 and the code that
SelectThread gave way to has left the interrupts enabled. -/
theorem osResumeThread_result (hL : L.Sound) (h : Running L live v W ls r) (ht : t ∈ live)
    {ctx : CpuPtr} {s : Machine Memory} (hs : Represents L s.mem v)
    (ht3 : s.gpr (cpuOf ctx) 3 = t) :
    (osResumeThread fuel ctx s).MeetsIn (Coop.lastLeft fun s : Machine Memory =>
      s.interruptsEnabled)
      (fun back _ t' => t'.gpr (cpuOf ctx) 3 = v.suspendOf t ↔
        v.suspendOf t = 0#32 ∨ (v.suspendOf t = 1#32 ∧ back = true)) false := by
  rw [osResumeThread_eq ht3 (hL.thread_ne_zero (h.scheduled.threads t ht))]
  have hgoes : Goes L .alone (untilSelect fuel (cpuOf ctx) t) v _ :=
    goes_untilSelect (fun _ _ => trivial) hL h ht (cpuOf ctx)
  have hboth := (hgoes s hs).alone_and (untilSelect_flag fuel _ t s)
  refine Coop.meetsIn_bind.mpr ((hboth.any.meetsIn_of_alone
    (hboth.mono fun _ _ _ => trivial)).mono ?_)
  rintro _ ⟨irqState, n, again⟩ s₁ ⟨rfl, ⟨_, _, rfl, _, hagain⟩, hflag⟩
  have hresult := finish_gpr (cpuOf_ne_zero ctx) fuel (irqState, v.suspendOf t, again) s₁
  rw [show s₁.interruptsEnabled = false from hflag] at hresult
  refine hresult.mono ?_
  rintro back _ t' ⟨hr3, hback⟩
  rw [hr3]
  exact stateWord_eq_count hagain hback

/-- A call leaves the suspend count, the queues and the priorities as is said, at each of its
returns and wherever it hands the machine over; and all that is said holds of a return just when
the count is 0, or when it is 1 and the code that SelectThread gave way to has left the interrupts
enabled. -/
theorem the_result_is_the_count_only_by_chance (hL : L.Sound) (h : Running L live v W ls r)
    (ht : t ∈ live) (hn : 0 ≤ (v.suspendOf t).toInt) {ctx : CpuPtr} {s : Machine Memory}
    (hs : Represents L s.mem v) (ht3 : s.gpr (cpuOf ctx) 3 = t) :
    (osResumeThread fuel ctx s).MeetsIn ((besideResume L v ls r t).both
        (Coop.lastLeft fun s : Machine Memory => s.interruptsEnabled))
      (fun g _ t' => ∃ u, Represents L t'.mem u ∧ LeavesAsSaid L v ls r t g.1 u ∧
        (ResumesAsSaid L v ls r t g.1 u (t'.gpr (cpuOf ctx) 3) ↔
          v.suspendOf t = 0#32 ∨ (v.suspendOf t = 1#32 ∧ g.2 = true))) (none, false) := by
  refine ((osResumeThread_leaves hL h ht hn hs ht3).both
    (osResumeThread_result hL h ht hs ht3)).mono ?_
  rintro ⟨others, back⟩ _ t' ⟨⟨u, hu, hleaves⟩, hresult⟩
  exact ⟨u, hu, hleaves, fun hsaid => hresult.mp hsaid.returned, fun hcond =>
    ⟨hleaves, hresult.mpr hcond⟩⟩

/-- With any other count than 1 the call returns 0 and only the count changes, whichever cell it
is in. -/
theorem osResumeThread_lowers (fuel : Nat) {c : Cell} (hcell : L.HasCell c)
    (ha : t + kThreadSuspendOffset = c.address) (ht0 : t ≠ 0#32) (hone : v.word c ≠ 1#32)
    (hstate : ∀ m, Represents L m v → m.contains (t + kThreadStateOffset) 2#64 = true)
    (hc : L.ContextClear v.currentContext)
    (hc' : L.ContextClear (v.put c (lowered (v.word c))).currentContext) {ctx : CpuPtr}
    {s : Machine Memory} (hs : Represents L s.mem v) (ht3 : s.gpr (cpuOf ctx) 3 = t) :
    ∃ t', osResumeThread fuel ctx s = .ret () t' ∧ t'.gpr (cpuOf ctx) 3 = 0#32 ∧
      Represents L t'.mem (v.put c (lowered (v.word c))) := by
  have huntil : Goes L .total (untilSelect fuel (cpuOf ctx) t) v fun e w =>
      e.2.2 = false ∧ w = v.put c (lowered (v.word c)) := by
    refine goes_bind (goes_exchangeInterrupts hc _ false) ?_
    rintro _ v rfl
    refine goes_bind (goes_gets _) ?_
    rintro irqState v rfl
    refine (runs_mapped hcell ha).then ?_
    rw [if_pos rfl]
    have hcontains : Runs L (contains (t + kThreadStateOffset) 2#64) v true v := fun s hs =>
      ⟨s.mem, by rw [contains_apply, hstate _ hs]; rfl, hs⟩
    refine hcontains.then ?_
    rw [if_pos rfl]
    refine (runs_read hcell ha).then ?_
    exact (runs_lowerOnly_cell hcell ha hone _ irqState).then (goes_pure ⟨rfl, rfl⟩)
  obtain ⟨⟨irqState, n, again⟩, s₁, hs₁, w, hw, rfl, rfl⟩ :=
    Coop.meets_total.mp (huntil s hs)
  have hflag := untilSelect_flag fuel (cpuOf ctx) t s
  rw [hs₁] at hflag
  have hfinish : Goes L .total (finish fuel (cpuOf ctx) (irqState, n, false))
      (v.put c (lowered (v.word c))) fun _ w => w = v.put c (lowered (v.word c)) := by
    refine goes_bind (goes_pure (Q := fun _ w => w = v.put c (lowered (v.word c))) rfl) ?_
    rintro _ _ rfl
    refine goes_bind (goes_setGpr _ 3 n) ?_
    rintro _ _ rfl
    exact goes_restoreInterrupts hc' _ irqState
  obtain ⟨_, t', ht', w, hw', rfl⟩ := Coop.meets_total.mp (hfinish s₁ hw)
  have hresult := finish_gpr (cpuOf_ne_zero ctx) fuel (irqState, n, false) s₁
  rw [ht', show s₁.interruptsEnabled = false from hflag] at hresult
  obtain ⟨hr3, hback⟩ := hresult
  refine ⟨t', ?_, hr3, hw'⟩
  rw [osResumeThread_eq ht3 ht0, bind_of hs₁, ht']

/-- With any other count than 1 the call of a live thread returns, and the result is 0. -/
theorem osResumeThread_counted (hL : L.Sound) (h : Running L live v W ls r) (ht : t ∈ live)
    (hone : v.suspendOf t ≠ 1#32) {ctx : CpuPtr} {s : Machine Memory} (hs : Represents L s.mem v)
    (ht3 : s.gpr (cpuOf ctx) 3 = t) :
    ∃ t', osResumeThread fuel ctx s = .ret () t' ∧ t'.gpr (cpuOf ctx) 3 = 0#32 := by
  have hT := h.scheduled.threads t ht
  have hc : L.ContextClear v.currentContext := InOrder.contextClear ⟨W, ls, r, h⟩ hL
  have hc' : L.ContextClear (v.lower t).currentContext :=
    InOrder.contextClear ⟨W, ls, r, h.lower t⟩ hL
  obtain ⟨t', ht', hr3, _⟩ := osResumeThread_lowers fuel (c := .thread .suspend t) hT rfl
    (hL.thread_ne_zero hT) hone (fun m hm => hm.mapped_state hT) hc hc' hs ht3
  exact ⟨t', ht', hr3⟩

end

/-! ## A thread with a count of 2 -/

/-- The thread `0x80400000` runs, and `0x80400400` is ready with a count of 2. -/
def suspendedCells : List (Cell × Word) :=
  [(.global kOSRunningContextAddr, 0x80400000#32), (.global kOSCurrentContextAddr, 0x80400000#32),
    (.thread .suspend 0x80400400#32, 2#32)]

def suspendedView : View := View.ofList suspendedCells switchStates

theorem suspended_running : Running (wiiLayout [0x80400000#32, 0x80400400#32] [] [])
    {t | t ∈ [0x80400000#32, 0x80400400#32]} suspendedView {q | ∃ p, q = runQueue p}
    (fun _ => [])
    0x80400000#32 := by
  have hrunning : suspendedView.state 0x80400000#32 ≠ kThreadStateWaiting := by decide +kernel
  have hready : suspendedView.state 0x80400400#32 ≠ kThreadStateWaiting := by decide +kernel
  have hends : ∀ p, suspendedView.word (.head (runQueue p)) = 0#32 ∧
      suspendedView.word (.tail (runQueue p)) = 0#32 := by decide +kernel
  refine ⟨⟨⟨?_, ?_⟩, fun t ht => ht, ?_, ?_, fun p => ⟨p, rfl⟩, ?_, ?_, ?_, ?_, ?_⟩,
    ?_, ?_, ?_, ?_, ?_⟩
  · rintro q ⟨p, rfl⟩
    exact ⟨hends p, by simp⟩
  · exact fun _ _ _ ht => absurd ht List.not_mem_nil
  · exact fun _ _ _ ht => absurd ht List.not_mem_nil
  · rintro q ⟨p, rfl⟩
    exact isQueue_runQueue _ p
  · exact fun _ _ ht => absurd ht List.not_mem_nil
  · exact fun _ _ _ _ ht => absurd ht List.not_mem_nil
  · intro t ht hwait
    rcases List.mem_pair.mp ht with rfl | rfl
    · exact absurd hwait hrunning
    · exact absurd hwait hready
  · decide +kernel
  · exact Or.inl (by decide +kernel)
  · exact List.mem_cons_self
  · decide +kernel
  · decide +kernel
  · decide +kernel
  · decide +kernel

theorem suspended_mem : (0x80400400#32 : Word) ∈ {t | t ∈ [0x80400000#32, 0x80400400#32]} :=
  List.mem_cons_of_mem _ List.mem_cons_self

/-- A Wii with that view, and a call on the suspended thread. -/
theorem exists_suspended : ∃ s : Machine Memory,
    Represents (wiiLayout [0x80400000#32, 0x80400400#32] [] []) s.mem suspendedView ∧
      s.gpr (cpuOf 0) 3 = 0x80400400#32 := by
  obtain ⟨m, hm⟩ := exists_wii switch_fits suspendedCells switchStates
    (by simp [suspendedCells, Layout.HasCell, wiiLayout, kernelWords]) (by simp [switchStates])
  exact ⟨(bootMachine m).setGpr (cpuOf 0) 3 0x80400400#32, hm, by simp⟩

/-- The law at that state. -/
theorem the_count_of_two_goes_down : ∃ s : Machine Memory,
    (osResumeThread 0 0 s).MeetsIn
      ((besideResume (wiiLayout [0x80400000#32, 0x80400400#32] [] []) suspendedView (fun _ => [])
        0x80400000#32 0x80400400#32).both
        (Coop.lastLeft fun s : Machine Memory => s.interruptsEnabled))
      (fun g _ t' => ∃ u, Represents (wiiLayout [0x80400000#32, 0x80400400#32] [] []) t'.mem u ∧
        LeavesAsSaid (wiiLayout [0x80400000#32, 0x80400400#32] [] []) suspendedView (fun _ => [])
          0x80400000#32 0x80400400#32 g.1 u ∧
        (ResumesAsSaid (wiiLayout [0x80400000#32, 0x80400400#32] [] []) suspendedView (fun _ => [])
            0x80400000#32 0x80400400#32 g.1 u (t'.gpr (cpuOf 0) 3) ↔
          suspendedView.suspendOf 0x80400400#32 = 0#32 ∨
            (suspendedView.suspendOf 0x80400400#32 = 1#32 ∧ g.2 = true))) (none, false) := by
  obtain ⟨s, hs, ht3⟩ := exists_suspended
  exact ⟨s, the_result_is_the_count_only_by_chance (wiiLayout_sound switch_fits)
    suspended_running suspended_mem (by decide +kernel) hs ht3⟩

/-- The call on it returns 0. -/
theorem resuming_a_count_of_two_returns_zero : ∃ s t' : Machine Memory,
    Represents (wiiLayout [0x80400000#32, 0x80400400#32] [] []) s.mem suspendedView ∧
    Running (wiiLayout [0x80400000#32, 0x80400400#32] [] [])
      {t | t ∈ [0x80400000#32, 0x80400400#32]} suspendedView {q | ∃ p, q = runQueue p}
      (fun _ => [])
      0x80400000#32 ∧
    s.gpr (cpuOf 0) 3 = 0x80400400#32 ∧ suspendedView.suspendOf 0x80400400#32 = 2#32 ∧
    osResumeThread 0 0 s = .ret () t' ∧ t'.gpr (cpuOf 0) 3 ≠ 2#32 := by
  obtain ⟨s, hs, ht3⟩ := exists_suspended
  have htwo : suspendedView.suspendOf 0x80400400#32 = 2#32 := by decide +kernel
  obtain ⟨t', ht', hr3⟩ : ∃ t', osResumeThread 0 0 s = .ret () t' ∧
      t'.gpr (cpuOf 0) 3 = 0#32 :=
    osResumeThread_counted (wiiLayout_sound switch_fits) suspended_running suspended_mem
      (by rw [htwo]; decide) hs ht3
  refine ⟨s, t', hs, suspended_running, ht3, htwo, ht', ?_⟩
  rw [hr3]
  decide

end wii_switch
