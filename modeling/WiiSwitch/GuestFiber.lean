-- The guest fibers (source/switch_guest_fiber.cpp) over the host contexts
-- (source/host_context_switch.cpp). A thread that has a fiber keeps its own host
-- stack; `switchTo` saves the register file of the thread that leaves, loads the
-- one of its target, and comes back when the leaving thread is selected again.
import WiiSwitch.OSThread

namespace wii_switch

def kFirstHid2 : Word := 0x10000000#32

/-! ## The record table -/

namespace GuestFibers

/-- `Find`: the slot of a thread. -/
def find (f : GuestFibers) (guestThread : Word) : Option (Fin 64) :=
  if guestThread = 0#32 then none
  else (List.finRange 64).find? fun i =>
    (f.records i).state ≠ .empty ∧ (f.records i).guestThread = guestThread

def setRecord (f : GuestFibers) (i : Fin 64) (r : GuestFiberRecord) : GuestFibers :=
  { f with records := Function.update f.records i r }

/-- `Allocate`: the slot of the thread, or the first empty slot, cleared for it. -/
def allocate (f : GuestFibers) (guestThread : Word) : Option (Fin 64 × GuestFibers) :=
  match f.find guestThread with
  | some i => some (i, f)
  | none =>
    ((List.finRange 64).find? fun i => (f.records i).state = .empty).map fun i =>
      (i, f.setRecord i { GuestFiberRecord.none with guestThread := guestThread })

/-- `has`. -/
def has (f : GuestFibers) (guestThread : Word) : Bool :=
  match f.find guestThread with
  | none => false
  | some i => (f.records i).host ≠ 0

/-- `suspend` and `resume`: the state of the record of a thread, if it has one. -/
def setState (f : GuestFibers) (guestThread : Word) (state : FiberState) : GuestFibers :=
  match f.find guestThread with
  | none => f
  | some i => f.setRecord i { f.records i with state := state }

end GuestFibers

namespace Machine

variable {M : Type}

def withFibers (s : Machine M) (f : GuestFibers) : Machine M := { s with fibers := f }

def withHosts (s : Machine M) (h : HostContexts) : Machine M := { s with hosts := h }

/-- `HostContext::Current` as `current`. -/
def onHost (s : Machine M) (current : Handle) : Machine M :=
  s.withHosts { s.hosts with current := current }

/-- `available`. -/
def fibersAvailable (s : Machine M) : Bool :=
  s.fibers.schedulerHost ≠ 0 ∧ s.hosts.current ≠ 0

end Machine

namespace OS

/-! ## Host contexts -/

/-- `HostContext::Create`. The handle is spent even when the host has no room. -/
def hostCreate (argument : Word) : OS Handle := do
  let h ← Routine.gets fun s => s.hosts
  if h.current = 0 then return 0
  Routine.modify fun s => s.withHosts { s.hosts with next := h.next + 1 }
  unless h.grants h.next do return 0
  Routine.modify fun s => s.withHosts
    { s.hosts with
      argument := Function.update s.hosts.argument h.next argument
      live := Function.update s.hosts.live h.next true }
  return h.next

/-- `HostContext::Destroy`. -/
def hostDestroy (context : Handle) : OS Unit := do
  let current ← Routine.gets fun s => s.hosts.current
  if context = 0 ∨ context = current then return ()
  Routine.modify fun s => s.withHosts
    { s.hosts with live := Function.update s.hosts.live context false }

/-- `HostContext::Switch`. -/
def hostSwitch (target : Handle) : OS Unit := do
  let source ← Routine.gets fun s => s.hosts.current
  if target = 0 ∨ source = 0 ∨ target = source then return ()
  Routine.modify fun s => s.onHost target
  Routine.call (.host target)
  Routine.modify fun s => s.onHost source

/-! ## Fibers -/

def getFibers : OS GuestFibers := Routine.gets fun s => s.fibers

def setFibers (f : GuestFibers) : OS Unit := Routine.modify fun s => s.withFibers f

def setFiberRecord (i : Fin 64) (r : GuestFiberRecord) : OS Unit :=
  Routine.modify fun s => s.withFibers (s.fibers.setRecord i r)

/-- `initialize_from_current_host`. -/
def initializeFromCurrentHost : OS Bool := do
  let current ← Routine.gets fun s => s.hosts.current
  if (← getFibers).schedulerHost ≠ 0 then return current ≠ 0
  Routine.modify fun s => s.withFibers { s.fibers with schedulerHost := current }
  return current ≠ 0

/-- `g_scheduler_host || initialize_from_current_host()`. -/
def ensureSchedulerHost : OS Bool := do
  if (← getFibers).schedulerHost ≠ 0 then return true
  initializeFromCurrentHost

/-- The register file of a new fiber: zeros but for what the entry needs. -/
def seededCpu (entryPoint entryArg guestStackTop hid2 : Word) : CpuContext :=
  { (CpuContext.zero.setGpr 1 guestStackTop).setGpr 3 entryArg with
    pc := entryPoint
    srr0 := entryPoint
    hid2 := hid2 }

/-- `seed_cpu && seed_cpu->hid2 != 0u ? seed_cpu->hid2 : 0x10000000u`. -/
def seedHid2 (seedCpu : CpuPtr) : OS Word := Routine.gets fun s =>
  if seedCpu ≠ 0 ∧ (s.cpus seedCpu).hid2 ≠ 0#32 then (s.cpus seedCpu).hid2 else kFirstHid2

/-- `create`. -/
def createFiber (guestThread entryPoint entryArg guestStackTop : Word) (seedCpu : CpuPtr) :
    OS Bool := do
  unless ← ensureSchedulerHost do return false
  unless ← Routine.gets Machine.fibersAvailable do return false
  if guestThread = 0#32 ∨ entryPoint = 0#32 then return false
  match (← getFibers).allocate guestThread with
  | none => return false
  | some (i, f) =>
    setFibers f
    onlyIf ((f.records i).host ≠ 0 ∧ (f.records i).schedulerHost = false) do
      hostDestroy (f.records i).host
    let host ← hostCreate guestThread
    if host = 0 then
      setFiberRecord i .none
      return false
    let hid2 ← seedHid2 seedCpu
    setFiberRecord i
      ⟨guestThread, host, entryPoint, entryArg,
        seededCpu entryPoint entryArg guestStackTop hid2, .waiting, false⟩
    return true

/-- `register_current`. -/
def registerCurrent (guestThread : Word) (cpu : CpuPtr) : OS Bool := do
  unless ← Routine.gets Machine.fibersAvailable do return false
  let current ← Routine.gets fun s => s.hosts.current
  let schedulerHost := (← getFibers).schedulerHost
  if guestThread = 0#32 ∨ current ≠ schedulerHost then return false
  match (← getFibers).allocate guestThread with
  | none => return false
  | some (i, f) =>
    setFibers f
    if (f.records i).host ≠ 0 ∧ (f.records i).host ≠ schedulerHost then return false
    let registers ← Routine.gets fun s => if cpu ≠ 0 then s.cpus cpu else .zero
    setFibers
      { f.setRecord i
          { f.records i with
            guestThread := guestThread
            host := schedulerHost
            savedCpu := registers
            state := .running
            schedulerHost := true } with
        currentGuestThread := guestThread
        activeCpu := cpu }
    return true

def suspendFiber (guestThread : Word) : OS Unit :=
  Routine.modify fun s => s.withFibers (s.fibers.setState guestThread .waiting)

def resumeFiber (guestThread : Word) : OS Unit :=
  Routine.modify fun s => s.withFibers (s.fibers.setState guestThread .ready)

/-! ## The switch -/

/-- What a call of `switch_to` keeps on its host stack across the switch. -/
structure SwitchFrame where
  previousThread : Word
  previous : Option (Fin 64)
  callerContext : CpuContext
  cpu : CpuPtr

/-- `previous->saved_cpu = *cpu`, when there is a previous record. -/
def saveCaller (frame : SwitchFrame) : OS Unit :=
  match frame.previous with
  | none => pure ()
  | some i => Routine.modify fun s => s.withFibers
      (s.fibers.setRecord i { s.fibers.records i with savedCpu := frame.callerContext })

/-- The target `i` becomes the current thread, and its registers go into `*cpu`. -/
def loadTarget (guestThread : Word) (i : Fin 64) (cpu : CpuPtr) : OS Unit :=
  Routine.modify fun s =>
    (s.onCpu cpu fun _ => (s.fibers.records i).savedCpu).withFibers
      { s.fibers.setRecord i { s.fibers.records i with state := .running } with
        currentGuestThread := guestThread
        activeCpu := cpu }

/-- The caller is not the selected thread: it gets its snapshot back, and no
thread owns the registers. -/
def leaveUnclaimed (frame : SwitchFrame) : OS Unit :=
  Routine.modify fun s =>
    (s.onCpu frame.cpu fun _ => frame.callerContext).withFibers
      { s.fibers with currentGuestThread := 0#32, activeCpu := frame.cpu }

/-- The caller is selected again: it gets its saved registers back. -/
def reclaim (frame : SwitchFrame) (i : Fin 64) : OS Unit :=
  Routine.modify fun s =>
    (s.onCpu frame.cpu fun _ => (s.fibers.records i).savedCpu).withFibers
      { s.fibers.setRecord i { s.fibers.records i with state := .running } with
        currentGuestThread := frame.previousThread
        activeCpu := frame.cpu }

/-- The part of `switch_to` after the switch. -/
def switchToLeave (frame : SwitchFrame) : OS Unit := do
  let running ← read32 kOSRunningContextAddr
  let current ← read32 kOSCurrentContextAddr
  match frame.previous with
  | none => leaveUnclaimed frame
  | some i =>
    if frame.previousThread ≠ 0#32 ∧ running = frame.previousThread ∧
        current = frame.previousThread then
      reclaim frame i
    else
      leaveUnclaimed frame

/-- `switch_to`. -/
def switchTo (guestThread : Word) (cpu : CpuPtr) : OS Bool := do
  let f ← getFibers
  match f.find guestThread with
  | none => return false
  | some i =>
    let host := (f.records i).host
    unless ← Routine.gets Machine.fibersAvailable do return false
    if host = 0 ∨ cpu = 0 then return false
    let callerContext ← Routine.gets fun s => s.cpus cpu
    let frame : SwitchFrame :=
      ⟨f.currentGuestThread, f.find f.currentGuestThread, callerContext, cpu⟩
    saveCaller frame
    loadTarget guestThread i cpu
    if host = (← Routine.gets fun s => s.hosts.current) then return true
    hostSwitch host
    switchToLeave frame
    return true

/-- `GuestFiberEntry`. -/
def guestFiberEntry (guestThread : Word) : OS Unit := do
  let f ← getFibers
  let cpu := cpuOf f.activeCpu
  match f.find guestThread with
  | none => boundary "GUEST_FIBER_ENTRY_STATE" guestThread
  | some i =>
    let record := f.records i
    setGpr cpu 1 (← read32 (guestThread + kContextR1Offset))
    setGpr cpu 2 (← read32 (guestThread + kContextR2Offset))
    setGpr cpu 13 (← read32 (guestThread + kContextR13Offset))
    let lr ← read32 (guestThread + kContextLrOffset)
    onCpu cpu fun c => { c with lr := lr }
    setGpr cpu 3 record.entryArg
    onCpu cpu fun c => { c with pc := record.entryPoint, srr0 := record.entryPoint }
    invokeIndirectCpu record.entryPoint cpu
    boundary "GUEST_FIBER_ENTRY_RETURNED" ((← getFibers).records i).entryPoint

end OS

end wii_switch
