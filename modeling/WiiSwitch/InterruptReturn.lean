-- Every OS bridge returns with the interrupt state of its caller. The bridges
-- hold the old state in a local of their host stack, so nothing that other threads
-- do to the machine while the caller is switched out can reach it. The law takes
-- the memory, the registers and the other threads as they come.
import WiiSwitch.ThreadBridges
import WiiSwitch.CreateThread
import WiiSwitch.Mutex

namespace wii_switch

open OS Routine

/-- The interrupt flag is `enabled` at the end. -/
def Flag {α : Type} (enabled : Bool) : α → Machine Memory → Prop :=
  fun _ s => s.interruptsEnabled = enabled

/-- The routine ends with the interrupt flag that it started with. -/
abbrev KeepsFlag {α : Type} (x : OS α) : Prop :=
  Keeps (fun s => s.interruptsEnabled) x

/-- The routine changes nothing of the machine but the memory. -/
abbrev KeepsMachine {α : Type} (x : OS α) : Prop := Keeps (fun s => s.withMem ()) x

/-! ## Memory only -/

theorem keepsMachine_read32 (a : Word) : KeepsMachine (read32 a) := by
  intro s
  unfold read32
  split <;> trivial

theorem keepsMachine_read16 (a : Word) : KeepsMachine (read16 a) := by
  intro s
  unfold read16
  split <;> trivial

theorem keepsMachine_write32 (a x : Word) : KeepsMachine (write32 a x) := by
  intro s
  unfold write32
  split <;> trivial

theorem keepsMachine_write16 (a : Word) (x : Half) : KeepsMachine (write16 a x) := by
  intro s
  unfold write16
  split <;> trivial

theorem keepsMachine_storeAll (stores : List GuestStore) : KeepsMachine (storeAll stores) := by
  induction stores with
  | nil => exact keeps_pure ()
  | cons first rest ih =>
    refine keeps_bind ?_ fun _ => ih
    cases first with
    | half a x => exact keepsMachine_write16 a x
    | word a x => exact keepsMachine_write32 a x

theorem keeps_onlyIf {β : Type} {f : Machine Memory → β} {x : OS Unit} (c : Bool)
    (hx : Keeps f x) : Keeps f (onlyIf c x) := keeps_ite hx (keeps_pure ())

theorem keepsMachine_mapped32 (a : Word) : KeepsMachine (mapped32 a) :=
  keeps_bind (keeps_gets _) fun _ => keeps_ite (keeps_gets _) (keeps_pure _)

theorem keepsMachine_updateFlag (enabled : Bool) :
    KeepsMachine (updateCurrentContextInterruptFlag enabled) := by
  unfold updateCurrentContextInterruptFlag
  refine keeps_bind (keepsMachine_mapped32 _) fun _ => keeps_ite ?_ (keeps_pure _)
  refine keeps_bind (keepsMachine_read32 _) fun _ => keeps_ite (keeps_pure _) ?_
  refine keeps_bind (keeps_gets _) fun _ => keeps_ite ?_ (keeps_pure _)
  exact keeps_bind (keepsMachine_read16 _) fun _ => keeps_onlyIf _ (keepsMachine_write16 _ _)

/-- The memory aside, the flag is a part of the machine. -/
theorem KeepsMachine.keepsFlag {α : Type} {x : OS α} (h : KeepsMachine x) : KeepsFlag x :=
  fun s => (h s).mono fun _ _ ht => congrArg (fun u : Machine Unit => u.interruptsEnabled) ht

/-! ## The two changes of the interrupt state -/

/-- An exchange leaves the new state in the flag and the old one in r3. -/
theorem exchangeInterrupts_leaves (cpu : CpuPtr) (enabled : Bool) (s : Machine Memory) :
    (exchangeInterrupts cpu enabled s).Meets .any fun _ t =>
      t.interruptsEnabled = enabled ∧
      (cpu ≠ 0 → t.gpr cpu 3 = stateWord s.interruptsEnabled) := by
  refine Coop.meets_bind.mpr (Coop.meets_bind.mpr (Coop.meets_bind.mpr ?_))
  refine (keepsMachine_updateFlag enabled (s.setInterrupts enabled)).mono fun _ t ht => ?_
  have hflag : t.interruptsEnabled = enabled :=
    congrArg (fun u : Machine Unit => u.interruptsEnabled) ht
  show (onlyIf _ _ t).Meets _ _
  rw [onlyIf_apply]
  split
  · exact ⟨hflag, fun _ => by simp⟩
  · rename_i h
    exact ⟨hflag, fun hcpu => absurd (decide_eq_true hcpu) h⟩

theorem osRestoreInterrupts_leaves {cpu : CpuPtr} (hcpu : cpu ≠ 0) (enabled : Bool)
    {s : Machine Memory} (hs : s.gpr cpu 3 = stateWord enabled) :
    (osRestoreInterrupts cpu s).Meets .any (Flag enabled) := by
  rw [osRestoreInterrupts, bind_of (getGpr_apply ..), hs]
  refine (exchangeInterrupts_leaves cpu _ s).mono fun _ t ht => ?_
  rw [Flag, ht.1]
  cases enabled <;> simp [hcpu, stateWord]

theorem restoreInterrupts_leaves {cpu : CpuPtr} (hcpu : cpu ≠ 0) (enabled : Bool)
    (s : Machine Memory) :
    (restoreInterrupts cpu (stateWord enabled) s).Meets .any (Flag enabled) := by
  unfold restoreInterrupts
  rw [Routine.ite_apply, if_neg hcpu, bind_of (setGpr_apply ..)]
  exact osRestoreInterrupts_leaves hcpu enabled (by simp)

/-- After a disable, the old state is in r3. A rest that ends with the state that it
is given keeps the flag. -/
theorem keepsFlag_disable {α : Type} {cpu : CpuPtr} (hcpu : cpu ≠ 0) {rest : Word → OS α}
    (hrest : ∀ b t, (rest (stateWord b) t).Meets .any (Flag b)) :
    KeepsFlag (do
      osDisableInterrupts cpu
      let irqState ← getGpr cpu 3
      rest irqState) := by
  intro s
  refine Coop.meets_bind.mpr ((exchangeInterrupts_leaves cpu false s).mono fun _ t ht => ?_)
  show (rest (t.gpr cpu 3) t).Meets _ _
  rw [ht.2 hcpu]
  exact hrest _ t

/-- Whatever comes between them, a disable and the matching restore leave the flag
as it was. -/
theorem bracket {cpu : CpuPtr} (hcpu : cpu ≠ 0) (body : Word → OS Unit) :
    KeepsFlag (do
      osDisableInterrupts cpu
      let irqState ← getGpr cpu 3
      body irqState
      restoreInterrupts cpu irqState) :=
  keepsFlag_disable hcpu fun b _ => Coop.meets_bind.mpr
    (Coop.meets_any _ fun _ u => restoreInterrupts_leaves hcpu b u)

/-- The same for a bridge that computes a result, and sets a register after the
restore. -/
theorem bracket_result {cpu : CpuPtr} (hcpu : cpu ≠ 0) (body : Word → OS Word)
    (state : Word → Word) (hstate : ∀ b, state (stateWord b) = stateWord b)
    (result : Word → Word) :
    KeepsFlag (do
      osDisableInterrupts cpu
      let irqState ← getGpr cpu 3
      let a ← body irqState
      restoreInterrupts cpu (state irqState)
      setGpr cpu 3 (result a)) := by
  refine keepsFlag_disable hcpu fun b t => ?_
  rw [hstate]
  refine Coop.meets_bind.mpr (Coop.meets_any _ fun _ u => ?_)
  exact Coop.meets_bind.mpr (restoreInterrupts_leaves hcpu b u)

/-! ## The bridges -/

/-- The bridges of the law. -/
inductive Bridge where
  | lockMutex
  | unlockMutex
  | createThread
  | resumeThread
  | sleepThread
  | receiveMessage
  | setPowerCallback
  | setCurrentContext

def Bridge.run (fuel : Nat) (cpu : CpuPtr) : Bridge → OS Unit
  | .lockMutex => osLockMutex cpu
  | .unlockMutex => osUnlockMutex cpu
  | .createThread => osCreateThread cpu
  | .resumeThread => osResumeThread fuel cpu
  | .sleepThread => osSleepThread fuel cpu
  | .receiveMessage => osReceiveMessage fuel cpu
  | .setPowerCallback => osSetPowerCallback cpu
  | .setCurrentContext => osSetCurrentContext cpu

theorem keepsFlag_setGpr (cpu : CpuPtr) (i : Fin 32) (x : Word) : KeepsFlag (setGpr cpu i x) :=
  keeps_modify fun _ => rfl

theorem keepsFlag_onMutex (cpu : CpuPtr) (body : Word → Word → OS Unit) :
    KeepsFlag (onMutex cpu body) := by
  unfold onMutex
  by_cases hcpu : cpu = 0
  · rw [if_pos hcpu]
    exact keeps_pure ()
  · rw [if_neg hcpu]
    refine keeps_bind (keeps_gets _) fun _ => keeps_ite ?_ (keeps_pure _)
    refine keeps_bind (keeps_gets _) fun mutex => keeps_ite (keeps_pure _) fun s => ?_
    have h := bracket hcpu (body mutex) s
    simp only [Mutex.disableInterrupts, hcpu, if_false, bind_apply, Coop.bind_assoc] at h ⊢
    exact h

theorem keepsFlag_osSleepThread (fuel : Nat) (ctx : CpuPtr) :
    KeepsFlag (osSleepThread fuel ctx) :=
  keeps_bind (keeps_gets _) fun _ => keeps_ite (keeps_pure _) (bracket (cpuOf_ne_zero ctx) _)

theorem keepsFlag_osResumeThread (fuel : Nat) (ctx : CpuPtr) :
    KeepsFlag (osResumeThread fuel ctx) :=
  keeps_bind (keeps_gets _) fun _ =>
    keeps_ite (keeps_bind (keepsFlag_setGpr _ _ _) fun _ => keeps_pure _)
      (bracket (cpuOf_ne_zero ctx) _)

theorem keepsFlag_osReceiveMessage (fuel : Nat) (cpu : CpuPtr) :
    KeepsFlag (osReceiveMessage fuel cpu) := by
  unfold osReceiveMessage
  by_cases hcpu : cpu = 0
  · rw [if_pos hcpu]
    exact keeps_pure ()
  · rw [if_neg hcpu]
    refine keeps_bind (keeps_gets _) fun _ => keeps_bind (keeps_gets _) fun _ =>
      keeps_bind (keeps_gets _) fun _ => keeps_ite ?_ ?_
    · exact keeps_bind (keepsFlag_setGpr _ _ _) fun _ => keeps_pure _
    · exact bracket_result hcpu _ (fun irqState => stateWord (irqState ≠ 0#32)) (by decide) id

theorem keepsFlag_osSetPowerCallback (cpu : CpuPtr) : KeepsFlag (osSetPowerCallback cpu) := by
  unfold osSetPowerCallback
  by_cases hcpu : cpu = 0
  · rw [if_pos hcpu]
    exact keeps_pure ()
  · rw [if_neg hcpu]
    refine keeps_bind (keeps_gets _) fun _ => keeps_bind (keeps_gets _) fun _ => ?_
    exact bracket_result hcpu _ id (fun _ => rfl) _

theorem keepsFlag_queryInterruptsEnabled (cpu : CpuPtr) :
    KeepsFlag (queryInterruptsEnabled cpu) := by
  unfold queryInterruptsEnabled
  by_cases hcpu : cpu = 0
  · rw [if_pos hcpu]
    exact keeps_pure _
  · rw [if_neg hcpu]
    refine keeps_bind (keeps_gets _) fun _ => keepsFlag_disable hcpu fun b t => ?_
    rw [bind_of (setGpr_apply ..)]
    refine Coop.meets_bind.mpr ((osRestoreInterrupts_leaves hcpu b ?_).mono ?_)
    · cases b <;> simp [stateWord]
    · exact fun _ _ hu => hu

theorem keepsFlag_mirrorContext (cpu : CpuPtr) (contextAddr : Word) :
    KeepsFlag (mirrorContext cpu contextAddr) := by
  unfold mirrorContext
  refine keeps_bind (keeps_gets _) fun _ => keeps_ite ?_ (keeps_pure _)
  refine keeps_bind (keeps_gets _) fun _ => keeps_ite ?_ (keeps_pure _)
  refine keeps_bind (keeps_gets _) fun _ => keeps_ite ?_ (keeps_pure _)
  refine keeps_bind (keepsMachine_read32 _).keepsFlag fun _ => ?_
  refine keeps_bind (keepsMachine_read32 _).keepsFlag fun _ => ?_
  refine keeps_bind (keepsMachine_write32 _ _).keepsFlag fun _ => ?_
  refine keeps_bind (keepsMachine_read16 _).keepsFlag fun _ => ?_
  refine keeps_bind (keepsFlag_queryInterruptsEnabled cpu) fun _ => ?_
  exact (keepsMachine_write16 _ _).keepsFlag

theorem keepsFlag_osSetCurrentContext (cpu : CpuPtr) :
    KeepsFlag (osSetCurrentContext cpu) := by
  have hwrite : ∀ a x, KeepsFlag (write32 a x) := fun a x => (keepsMachine_write32 a x).keepsFlag
  unfold osSetCurrentContext
  refine keeps_ite (keeps_pure _) (keeps_bind (keeps_gets _) fun _ => keeps_ite ?_ (keeps_pure _))
  refine keeps_bind (keeps_gets _) fun _ => ?_
  refine keeps_bind (keeps_gets _) fun _ => keeps_ite ?_ (keeps_pure _)
  refine keeps_bind (keeps_gets _) fun _ => keeps_ite ?_ (keeps_pure _)
  refine keeps_ite ?_ ?_
  · exact keeps_bind (hwrite _ _) fun _ => keeps_bind (hwrite _ _) fun _ => keeps_pure _
  · exact keeps_bind (hwrite _ _) fun _ => keeps_bind (hwrite _ _) fun _ =>
      keepsFlag_mirrorContext cpu _

/-! ### OSCreateThread -/

theorem keepsMachine_dropFpuContext (thread : Word) :
    KeepsMachine (CreateThread.dropFpuContext thread) := by
  refine keeps_bind (keeps_gets _) fun _ => keeps_ite ?_ (keeps_pure _)
  refine keeps_bind (keepsMachine_read32 _) fun _ => keeps_ite (keeps_pure _) ?_
  exact keepsMachine_write32 _ _

theorem keepsMachine_initializeFpContext (thread : Word) :
    KeepsMachine (CreateThread.initializeFpContext thread) := by
  refine keeps_bind (keeps_gets _) fun _ => keeps_ite ?_ (keeps_pure _)
  refine keeps_bind (keepsMachine_read32 _) fun _ => keeps_ite (keeps_pure _) ?_
  refine keeps_bind (keepsMachine_read32 _) fun _ => keeps_bind (keepsMachine_write32 _ _) fun _ =>
    ?_
  refine keeps_bind (keepsMachine_read16 _) fun _ => keeps_bind (keepsMachine_write16 _ _) fun _ =>
    ?_
  refine keeps_bind (keeps_gets _) fun _ => keeps_bind (keeps_onlyIf _ ?_) fun _ => ?_
  · exact keeps_bind (keepsMachine_read32 _) fun _ => keepsMachine_write32 _ _
  · exact keepsMachine_storeAll _

theorem keepsMachine_initializeBlock (cpu : CpuPtr) (a : CreateThread.Arguments) :
    KeepsMachine (CreateThread.initializeBlock cpu a) := by
  refine keeps_bind (keepsMachine_storeAll _) fun _ => ?_
  refine keeps_bind (keeps_gets _) fun _ => keeps_bind (keeps_gets _) fun _ => ?_
  refine keeps_bind (keepsMachine_storeAll _) fun _ => ?_
  refine keeps_bind (keepsMachine_dropFpuContext _) fun _ => ?_
  refine keeps_bind (keepsMachine_storeAll _) fun _ => ?_
  refine keeps_bind (keepsMachine_storeAll _) fun _ => ?_
  exact keepsMachine_initializeFpContext _

/-- The machine without the fiber table and the host contexts. -/
def Machine.guestPart (s : Machine Memory) : Machine Memory :=
  (s.withFibers ⟨fun _ => .none, 0, 0#32, 0⟩).withHosts
    ⟨0, 0, fun _ => 0#32, fun _ => false, fun _ => false⟩

/-- The routine changes only the fiber table and the host contexts. -/
abbrev KeepsGuest {α : Type} (x : OS α) : Prop := Keeps Machine.guestPart x

theorem KeepsGuest.keepsFlag {α : Type} {x : OS α} (h : KeepsGuest x) : KeepsFlag x :=
  fun s => (h s).mono fun _ t ht =>
    show t.guestPart.interruptsEnabled = s.guestPart.interruptsEnabled by rw [ht]

theorem keepsGuest_ensureSchedulerHost : KeepsGuest ensureSchedulerHost := by
  refine keeps_bind (keeps_gets _) fun _ => keeps_ite (keeps_pure _) ?_
  refine keeps_bind (keeps_gets _) fun _ => keeps_bind (keeps_gets _) fun _ => ?_
  refine keeps_ite (keeps_pure _) (keeps_bind (keeps_modify fun _ => rfl) fun _ => keeps_pure _)

theorem keepsGuest_hostDestroy (context : Handle) : KeepsGuest (hostDestroy context) :=
  keeps_bind (keeps_gets _) fun _ => keeps_ite (keeps_pure _) (keeps_modify fun _ => rfl)

theorem keepsGuest_hostCreate (argument : Word) : KeepsGuest (hostCreate argument) := by
  refine keeps_bind (keeps_gets _) fun _ => keeps_ite (keeps_pure _) ?_
  refine keeps_bind (keeps_modify fun _ => rfl) fun _ => keeps_ite ?_ (keeps_pure _)
  exact keeps_bind (keeps_modify fun _ => rfl) fun _ => keeps_pure _

theorem keepsGuest_setFibers (f : GuestFibers) : KeepsGuest (setFibers f) :=
  keeps_modify fun _ => rfl

theorem keepsGuest_setFiberRecord (i : Fin 64) (r : GuestFiberRecord) :
    KeepsGuest (setFiberRecord i r) := keeps_modify fun _ => rfl

theorem keepsGuest_createFiber (thread entry arg stackTop : Word) (cpu : CpuPtr) :
    KeepsGuest (createFiber thread entry arg stackTop cpu) := by
  unfold createFiber
  refine keeps_bind keepsGuest_ensureSchedulerHost fun _ => keeps_ite ?_ (keeps_pure _)
  refine keeps_bind (keeps_gets _) fun _ => keeps_ite ?_ (keeps_pure _)
  refine keeps_ite (keeps_pure _) (keeps_bind (keeps_gets _) fun f => ?_)
  cases f.allocate thread with
  | none => exact keeps_pure _
  | some slot =>
    refine keeps_bind (keepsGuest_setFibers _) fun _ => ?_
    refine keeps_bind (keeps_onlyIf _ (keepsGuest_hostDestroy _)) fun _ => ?_
    refine keeps_bind (keepsGuest_hostCreate _) fun host => keeps_ite ?_ ?_
    · exact keeps_bind (keepsGuest_setFiberRecord _ _) fun _ => keeps_pure _
    · exact keeps_bind (keeps_gets _) fun _ =>
        keeps_bind (keepsGuest_setFiberRecord _ _) fun _ => keeps_pure _

theorem keepsGuest_registerCurrent (thread : Word) (cpu : CpuPtr) :
    KeepsGuest (registerCurrent thread cpu) := by
  unfold registerCurrent
  refine keeps_bind (keeps_gets _) fun _ => keeps_ite ?_ (keeps_pure _)
  refine keeps_bind (keeps_gets _) fun _ => keeps_bind (keeps_gets _) fun _ => ?_
  refine keeps_ite (keeps_pure _) (keeps_bind (keeps_gets _) fun f => ?_)
  cases f.allocate thread with
  | none => exact keeps_pure _
  | some slot =>
    refine keeps_bind (keepsGuest_setFibers _) fun _ => keeps_ite (keeps_pure _) ?_
    exact keeps_bind (keeps_gets _) fun _ => keeps_bind (keepsGuest_setFibers _) fun _ =>
      keeps_pure _

theorem keepsFlag_containsThreadAndStack (thread aligned stackTop size : Word) :
    KeepsFlag (CreateThread.containsThreadAndStack thread aligned stackTop size) :=
  keeps_bind (keeps_gets _) fun _ => keeps_ite (keeps_ite (keeps_pure _) (keeps_gets _))
    (keeps_pure _)

theorem keepsFlag_osCreateThread (ctx : CpuPtr) : KeepsFlag (osCreateThread ctx) := by
  have hcpu := cpuOf_ne_zero ctx
  unfold osCreateThread
  refine keeps_bind (keeps_gets _) fun a => keeps_ite ?_ ?_
  · exact keeps_bind (keepsFlag_setGpr _ _ _) fun _ => keeps_pure _
  refine keeps_bind (keepsFlag_containsThreadAndStack _ _ _ _) fun _ => keeps_ite ?_ ?_
  · refine keeps_bind (keepsMachine_initializeBlock _ _).keepsFlag fun _ => ?_
    refine keepsFlag_disable hcpu fun b t => ?_
    refine Coop.meets_bind.mpr (Coop.meets_any _ fun _ u => ?_)
    refine Coop.meets_bind.mpr ((restoreInterrupts_leaves hcpu b u).mono fun _ v hv => ?_)
    have hrest : KeepsFlag (do
        let _ ← createFiber a.threadPtr a.entryFunc a.entryArg (a.alignedStack - 8#32) (cpuOf ctx)
        setGpr (cpuOf ctx) 3 1#32) :=
      keeps_bind (keepsGuest_createFiber _ _ _ _ _).keepsFlag fun _ => keepsFlag_setGpr _ _ _
    exact (hrest v).mono fun _ _ hw => hw.trans hv
  · exact keeps_bind (keepsFlag_setGpr _ _ _) fun _ => keeps_pure _

/-! ## The law -/

/-- Every call of a bridge, on every machine and with every outside that runs while
the caller is switched out or has called guest code, returns with the interrupt flag
that it was called with. -/
theorem the_bridges_restore_the_interrupt_state (bridge : Bridge) (fuel : Nat) (cpu : CpuPtr)
    (s : Machine Memory) :
    (bridge.run fuel cpu s).Meets .any fun _ t => t.interruptsEnabled = s.interruptsEnabled := by
  cases bridge with
  | lockMutex => exact keepsFlag_onMutex cpu _ s
  | unlockMutex => exact keepsFlag_onMutex cpu _ s
  | createThread => exact keepsFlag_osCreateThread cpu s
  | resumeThread => exact keepsFlag_osResumeThread fuel cpu s
  | sleepThread => exact keepsFlag_osSleepThread fuel cpu s
  | receiveMessage => exact keepsFlag_osReceiveMessage fuel cpu s
  | setPowerCallback => exact keepsFlag_osSetPowerCallback cpu s
  | setCurrentContext => exact keepsFlag_osSetCurrentContext cpu s

end wii_switch
