-- SelectThread and the interrupt flag. The scheduler itself leaves the flag: when
-- SelectThread comes back, the flag is as the thread that ran last left it, or as it was
-- at the call when no other thread ran.
import WiiSwitch.InterruptReturn
import WiiSwitch.Lib.Pools

namespace wii_switch

open OS Routine SelectThread

/-- The routine leaves the interrupt flag to the outside. -/
abbrev PassesFlag {α : Type} (x : OS α) : Prop :=
    Passes (fun s : Machine Memory => s.interruptsEnabled) x

/-! ## Guest memory and registers -/

section

variable {α : Type}

theorem passesFlag_read32 (a : Word) : PassesFlag (read32 a) := by
  intro s
  unfold read32
  split <;> trivial

theorem passesFlag_read16 (a : Word) : PassesFlag (read16 a) := by
  intro s
  unfold read16
  split <;> trivial

theorem passesFlag_write32 (a x : Word) : PassesFlag (write32 a x) := by
  intro s
  unfold write32
  split <;> trivial

theorem passesFlag_write16 (a : Word) (x : Half) : PassesFlag (write16 a x) := by
  intro s
  unfold write16
  split <;> trivial

theorem passesFlag_mapped32 (a : Word) : PassesFlag (mapped32 a) :=
  passes_bind (passes_gets _) fun _ => passes_ite (passes_gets _) (passes_pure _)

theorem passesFlag_mapped16 (a : Word) : PassesFlag (mapped16 a) :=
  passes_bind (passes_gets _) fun _ => passes_ite (passes_gets _) (passes_pure _)

theorem passesFlag_allMapped32 (as : List Word) : PassesFlag (allMapped32 as) := by
  induction as with
  | nil => exact passes_pure _
  | cons a as ih => exact passes_bind (passesFlag_mapped32 a) fun _ => passes_ite ih (passes_pure _)

theorem passesFlag_setGpr (cpu : CpuPtr) (i : Fin 32) (x : Word) : PassesFlag (setGpr cpu i x) :=
  passes_modify fun _ => rfl

theorem passesFlag_onlyIf (c : Bool) {x : OS Unit} (hx : PassesFlag x) : PassesFlag (onlyIf c x) :=
  passes_ite hx (passes_pure ())

theorem passesFlag_tryDispatchIndirect (away : Word → CpuPtr → Away) (target : Word)
    (cpu : CpuPtr) : PassesFlag (tryDispatchIndirect away target cpu) := by
  refine passes_ite (passes_pure _) (passes_bind (passes_gets _) fun record => ?_)
  cases record with
  | none => exact passes_pure _
  | some record =>
    refine passes_bind (passes_gets _) fun _ => passes_bind (passes_call _) fun _ => ?_
    exact passes_bind (passes_modify fun _ => rfl) fun _ => passes_pure _

/-! ## The queues -/

theorem passesFlag_setQueueNext (queue thread value : Word) :
    PassesFlag (setQueueNext queue thread value) :=
  passes_ite (passesFlag_write32 _ _) (passesFlag_write32 _ _)

theorem passesFlag_setQueuePrev (queue thread value : Word) :
    PassesFlag (setQueuePrev queue thread value) :=
  passes_ite (passesFlag_write32 _ _) (passesFlag_write32 _ _)

theorem passesFlag_requeueRunning (runningContext : Word) :
    PassesFlag (requeueRunning runningContext) := by
  refine passes_bind (passesFlag_read32 _) fun priority => passes_ite (passes_stop _) ?_
  refine passes_bind (passesFlag_write16 _ _) fun _ => passes_bind ?_ fun _ => ?_
  · refine passes_ite (passes_stop _) (passes_bind (passesFlag_read32 _) fun _ => ?_)
    refine passes_bind (passesFlag_setQueueNext _ _ _) fun _ => ?_
    refine passes_bind (passesFlag_write32 _ _) fun _ => ?_
    refine passes_bind (passesFlag_write32 _ _) fun _ => ?_
    exact passes_bind (passesFlag_write32 _ _) fun _ => passesFlag_write32 _ _
  · refine passes_bind (passesFlag_read32 _) fun _ => ?_
    exact passes_bind (passesFlag_write32 _ _) fun _ => passesFlag_write32 _ _

theorem passesFlag_keepsOrRequeues (runningContext force : Word) :
    PassesFlag (keepsOrRequeues runningContext force) := by
  refine passes_bind (passesFlag_read16 _) fun _ => passes_ite (passes_pure _) ?_
  refine passes_bind ?_ fun _ => passes_ite (passes_pure _) ?_
  · refine passes_bind (passesFlag_read32 _) fun _ => passes_ite (passes_pure _) ?_
    exact passes_bind (passesFlag_read32 _) fun _ => passes_pure _
  · exact passes_bind (passesFlag_requeueRunning _) fun _ => passes_pure _

theorem passesFlag_removeThreadFromQueue (thread : Word) :
    PassesFlag (SelectThread.removeThreadFromQueue thread) := by
  refine passes_bind (passesFlag_read32 _) fun queue => passes_ite (passes_pure _) ?_
  refine passes_bind (passesFlag_read32 _) fun _ => passes_bind (passesFlag_read32 _) fun _ => ?_
  refine passes_bind (passesFlag_setQueuePrev _ _ _) fun _ => ?_
  refine passes_bind (passesFlag_setQueueNext _ _ _) fun _ => ?_
  refine passes_bind (passesFlag_write32 _ _) fun _ => ?_
  refine passes_bind (passesFlag_write32 _ _) fun _ => ?_
  refine passes_bind (passesFlag_write32 _ _) fun _ => passes_ite (passes_pure _) ?_
  refine passes_bind (passesFlag_read32 _) fun _ => passes_ite (passes_pure _) ?_
  exact passes_bind (passesFlag_read32 _) fun _ => passesFlag_write32 _ _

theorem passesFlag_selectionLoop (fuel : Nat) (pick : Pick) :
    PassesFlag (selectionLoop fuel pick) := by
  induction fuel generalizing pick with
  | zero => exact passes_stop _
  | succ fuel ih =>
    refine passes_ite (passes_pure _) (passes_ite (passes_stop _) ?_)
    refine passes_bind (passesFlag_read32 _) fun head => passes_ite ?_ ?_
    · exact passes_bind (passesFlag_write32 _ _) fun _ => ih _
    · refine passes_bind (passesFlag_read16 _) fun _ => passes_ite ?_ (passes_pure _)
      refine passes_bind (passesFlag_removeThreadFromQueue _) fun _ => ?_
      exact passes_bind (passesFlag_read32 _) fun _ => ih _

theorem passesFlag_select (fuel : Nat) : PassesFlag (select fuel) := by
  refine passes_bind (passesFlag_read32 _) fun _ => passes_ite (passes_stop _) ?_
  exact passes_bind (passesFlag_write32 _ _) fun _ => passesFlag_selectionLoop fuel _

theorem passesFlag_takeThread (pick : Pick) : PassesFlag (takeThread pick) := by
  refine passes_bind ?_ fun _ => ?_
  · refine passes_bind (passesFlag_read32 _) fun _ => ?_
    refine passes_bind (passesFlag_setQueuePrev _ _ _) fun _ => ?_
    exact passes_bind (passesFlag_write32 _ _) fun _ => passes_pure _
  · refine passes_bind (passesFlag_onlyIf _ (passesFlag_write32 _ _)) fun _ => ?_
    exact passes_bind (passesFlag_write32 _ _) fun _ => passesFlag_write16 _ _

/-! ## The contexts -/

theorem quiet_write32 (a x : Word) : Quiet (write32 a x) := by
  intro s
  unfold write32
  split <;> trivial

theorem quiet_read32 (a : Word) : Quiet (read32 a) := by
  intro s
  unfold read32
  split <;> trivial

theorem quiet_read16 (a : Word) : Quiet (read16 a) := by
  intro s
  unfold read16
  split <;> trivial

theorem quiet_write16 (a : Word) (x : Half) : Quiet (write16 a x) := by
  intro s
  unfold write16
  split <;> trivial

theorem quiet_exchangeInterrupts (cpu : CpuPtr) (enabled : Bool) :
    Quiet (exchangeInterrupts cpu enabled) := by
  refine alone_bind (alone_gets _) fun _ => alone_bind (alone_modify fun _ => rfl) fun _ => ?_
  refine alone_bind ?_ fun _ => alone_ite (alone_modify fun _ => rfl) (alone_pure _)
  refine alone_bind (alone_bind (alone_gets _) fun _ => alone_ite (alone_gets _) (alone_pure _))
    fun _ => alone_ite ?_ (alone_pure _)
  refine alone_bind (quiet_read32 _) fun _ => alone_ite (alone_pure _) ?_
  refine alone_bind (alone_gets _) fun _ => alone_ite ?_ (alone_pure _)
  exact alone_bind (quiet_read16 _) fun _ => alone_ite (quiet_write16 _ _) (alone_pure _)

theorem quiet_queryInterruptsEnabled (cpu : CpuPtr) : Quiet (queryInterruptsEnabled cpu) := by
  refine alone_ite (alone_pure _) (alone_bind (alone_gets _) fun _ => ?_)
  refine alone_bind (quiet_exchangeInterrupts cpu false) fun _ => ?_
  refine alone_bind (alone_gets _) fun _ => alone_bind (alone_modify fun _ => rfl) fun _ => ?_
  refine alone_bind (alone_bind (alone_gets _) fun _ => quiet_exchangeInterrupts cpu _) fun _ => ?_
  exact alone_bind (alone_modify fun _ => rfl) fun _ => alone_pure _

theorem quiet_osSetCurrentContext (cpu : CpuPtr) : Quiet (osSetCurrentContext cpu) := by
  refine alone_ite (alone_pure _) (alone_bind (alone_gets _) fun _ => alone_ite ?_ (alone_pure _))
  refine alone_bind (alone_gets _) fun contextAddr => ?_
  refine alone_bind (alone_gets _) fun _ => alone_ite ?_ (alone_pure _)
  refine alone_bind (alone_gets _) fun _ => alone_ite (alone_ite ?_ ?_) (alone_pure _)
  · exact alone_bind (quiet_write32 _ _) fun _ =>
      alone_bind (quiet_write32 _ _) fun _ => alone_pure _
  refine alone_bind (quiet_write32 _ _) fun _ => alone_bind (quiet_write32 _ _) fun _ => ?_
  refine alone_bind (alone_gets _) fun _ => alone_ite ?_ (alone_pure _)
  refine alone_bind (alone_gets _) fun _ => alone_ite ?_ (alone_pure _)
  refine alone_bind (alone_gets _) fun _ => alone_ite ?_ (alone_pure _)
  refine alone_bind (quiet_read32 _) fun _ => alone_bind (quiet_read32 _) fun _ => ?_
  refine alone_bind (quiet_write32 _ _) fun _ => alone_bind (quiet_read16 _) fun _ => ?_
  exact alone_bind (quiet_queryInterruptsEnabled cpu) fun _ => quiet_write16 _ _

theorem passesFlag_osSetCurrentContext (cpu : CpuPtr) : PassesFlag (osSetCurrentContext cpu) :=
  ((keepsFlag_osSetCurrentContext cpu).alone (quiet_osSetCurrentContext cpu)).passes

theorem passesFlag_publish (cpu : CpuPtr) (runningContext nextThread : Word) :
    PassesFlag (publish cpu runningContext nextThread) := by
  refine passes_bind ?_ fun _ => passes_bind (passesFlag_write32 _ _) fun _ =>
    passes_bind (passesFlag_setGpr _ _ _) fun _ => passesFlag_osSetCurrentContext cpu
  refine passes_ite (passes_pure _) (passes_bind (passesFlag_mapped32 _) fun _ => ?_)
  refine passes_ite (passes_bind (passesFlag_read32 _) fun callback => ?_) (passes_pure _)
  refine passes_ite (passes_pure _) ?_
  refine passes_bind (passesFlag_setGpr _ _ _) fun _ => ?_
  refine passes_bind (passesFlag_setGpr _ _ _) fun _ => ?_
  exact passes_bind (passesFlag_tryDispatchIndirect _ _ _) fun _ => passes_pure _

/-! ## The hand-over -/

theorem passesFlag_registerCurrent (thread : Word) (cpu : CpuPtr) :
    PassesFlag (registerCurrent thread cpu) := by
  refine passes_bind (passes_gets _) fun _ => passes_ite ?_ (passes_pure _)
  refine passes_bind (passes_gets _) fun _ => passes_bind (passes_gets _) fun _ => ?_
  refine passes_ite (passes_pure _) (passes_bind (passes_gets _) fun f => ?_)
  cases f.allocate thread with
  | none => exact passes_pure _
  | some slot =>
    refine passes_bind (passes_modify fun _ => rfl) fun _ => passes_ite (passes_pure _) ?_
    refine passes_bind (passes_gets _) fun _ => ?_
    exact passes_bind (passes_modify fun _ => rfl) fun _ => passes_pure _

theorem passesFlag_hostSwitch (target : Handle) : PassesFlag (hostSwitch target) := by
  refine passes_bind (passes_gets _) fun _ => passes_ite (passes_pure _) ?_
  refine passes_bind (passes_modify fun _ => rfl) fun _ => ?_
  exact passes_bind (passes_call _) fun _ => passes_modify fun _ => rfl

theorem passesFlag_switchToLeave (frame : SwitchFrame) : PassesFlag (switchToLeave frame) := by
  refine passes_bind (passesFlag_read32 _) fun _ => passes_bind (passesFlag_read32 _) fun _ => ?_
  split
  · exact passes_modify fun _ => rfl
  · exact passes_ite (passes_modify fun _ => rfl) (passes_modify fun _ => rfl)

theorem passesFlag_switchTo (thread : Word) (cpu : CpuPtr) : PassesFlag (switchTo thread cpu) := by
  refine passes_bind (passes_gets _) fun f => ?_
  cases f.find thread with
  | none => exact passes_pure _
  | some i =>
    refine passes_bind (passes_gets _) fun _ => passes_ite ?_ (passes_pure _)
    refine passes_ite (passes_pure _) (passes_bind (passes_gets _) fun _ => ?_)
    refine passes_bind ?_ fun _ => passes_bind (passes_modify fun _ => rfl) fun _ => ?_
    · unfold saveCaller
      split
      · exact passes_pure _
      · exact passes_modify fun _ => rfl
    refine passes_bind (passes_gets _) fun _ => passes_ite (passes_pure _) ?_
    refine passes_bind (passesFlag_hostSwitch _) fun _ => ?_
    exact passes_bind (passesFlag_switchToLeave _) fun _ => passes_pure _

theorem passesFlag_loadGprs (cpu : CpuPtr) (context : Word) (is : List (Fin 32)) :
    PassesFlag (loadGprs cpu context is) := by
  induction is with
  | nil => exact passes_pure _
  | cons i is ih =>
    exact passes_bind (passesFlag_read32 _) fun _ => passes_bind (passesFlag_setGpr _ _ _) fun _ =>
      ih

theorem passesFlag_loadGqrs (cpu : CpuPtr) (context : Word) (is : List (Fin 8)) :
    PassesFlag (loadGqrs cpu context is) := by
  induction is with
  | nil => exact passes_pure _
  | cons i is ih =>
    exact passes_bind (passesFlag_read32 _) fun _ =>
      passes_bind (passes_modify fun _ => rfl) fun _ => ih

theorem passesFlag_osLoadContext (ctx : CpuPtr) : PassesFlag (osLoadContext ctx) := by
  refine passes_bind (passes_gets _) fun context => passes_ite (passes_stop _) ?_
  refine passes_bind (passesFlag_read32 _) fun srr0 => passes_ite (passes_stop _) ?_
  refine passes_bind ?_ fun _ => passes_bind ?_ fun _ => passes_stop _
  · refine passes_bind (passesFlag_loadGprs _ _ _) fun _ => ?_
    refine passes_bind (passesFlag_read32 _) fun _ => passes_bind (passesFlag_read32 _) fun _ => ?_
    refine passes_bind (passesFlag_read32 _) fun _ => passes_bind (passesFlag_read32 _) fun _ => ?_
    refine passes_bind (passes_modify fun _ => rfl) fun _ => ?_
    refine passes_bind (passes_modify fun _ => rfl) fun _ => ?_
    refine passes_bind (passesFlag_loadGqrs _ _ _) fun _ => passes_bind ?_ fun _ => ?_
    · exact passes_bind (passesFlag_read16 _) fun _ => passesFlag_onlyIf _ (passesFlag_write16 _ _)
    · exact passes_bind (passesFlag_read32 _) fun _ => passes_modify fun _ => rfl
  · refine passes_bind (passesFlag_tryDispatchIndirect _ _ _) fun _ => ?_
    exact passes_ite (passes_pure _) (passes_stop _)

theorem passesFlag_enterThread (cpu : CpuPtr) (runningContext nextThread : Word) :
    PassesFlag (enterThread cpu runningContext nextThread) := by
  refine passes_bind ?_ fun _ => passes_ite ?_ ?_
  · refine passes_bind (passes_gets _) fun _ => passes_ite ?_ (passes_pure _)
    exact passes_bind (passes_gets _) fun _ => passes_pure _
  · refine passes_bind ?_ fun _ => passes_ite ?_ (passes_stop _)
    · refine passes_bind (passes_gets _) fun _ => passes_ite (passes_pure _) ?_
      exact passesFlag_registerCurrent _ _
    · refine passes_bind (passesFlag_switchTo _ _) fun _ => passes_ite ?_ (passes_stop _)
      exact passesFlag_setGpr _ _ _
  · exact passes_bind (passesFlag_setGpr _ _ _) fun _ => passesFlag_osLoadContext cpu

theorem passesFlag_switchThread (fuel : Nat) (cpu : CpuPtr) (runningContext : Word) :
    PassesFlag (switchThread fuel cpu runningContext) := by
  refine passes_bind (passesFlag_select fuel) fun pick => passes_ite (passesFlag_setGpr _ _ _) ?_
  refine passes_bind (passesFlag_takeThread pick) fun _ => ?_
  exact passes_bind (passesFlag_publish _ _ _) fun _ => passesFlag_enterThread _ _ _

/-! ## SelectThread -/

theorem passesFlag_leaveRunning (cpu : CpuPtr) (runningContext force : Word) :
    PassesFlag (leaveRunning cpu runningContext force) := by
  refine passes_ite (passes_pure _) (passes_bind ?_ fun _ => passes_ite ?_ (passes_stop _))
  · refine passes_bind (passesFlag_mapped16 _) fun _ => passes_ite ?_ (passes_pure _)
    refine passes_bind (passesFlag_mapped32 _) fun _ => passes_ite ?_ (passes_pure _)
    exact passesFlag_mapped16 _
  refine passes_bind (passesFlag_keepsOrRequeues _ _) fun _ => passes_ite (passes_pure _) ?_
  refine passes_bind (passesFlag_read16 _) fun _ => passes_ite (passes_pure _) ?_
  refine passes_bind (passesFlag_setGpr _ _ _) fun _ => passes_bind ?_ fun _ =>
    passes_bind (passes_gets _) fun _ => passes_pure _
  refine passes_bind (passesFlag_tryDispatchIndirect _ _ _) fun _ => ?_
  exact passes_ite (passes_pure _) (passes_stop _)

theorem passesFlag_selectThread (fuel : Nat) (ctx : CpuPtr) :
    PassesFlag (selectThread fuel ctx) := by
  have hgpr := passesFlag_setGpr (cpuOf ctx) 3 0#32
  refine passes_bind (passes_gets _) fun force => ?_
  refine passes_bind (passesFlag_allMapped32 _) fun _ => passes_ite ?_ (passes_stop _)
  refine passes_bind (passesFlag_read32 _) fun _ => passes_ite hgpr ?_
  refine passes_bind (passesFlag_read32 _) fun _ => passes_bind (passesFlag_read32 _) fun _ => ?_
  refine passes_ite hgpr (passes_ite hgpr ?_)
  refine passes_bind (passesFlag_leaveRunning _ _ _) fun _ => passes_ite ?_ hgpr
  exact passesFlag_switchThread _ _ _

end

end wii_switch
