-- SelectThread (source/os_select_thread_hle_bridge.cpp) and the OSLoadContext that
-- it falls back on (source/os_load_context_hle_bridge.cpp). The scheduler puts the
-- running thread back on its run queue, takes the head of the first queue that the
-- pending mask names, and hands the machine to that thread.
import WiiSwitch.GuestFiber

namespace wii_switch

def kOSSaveContextAddress : Word := 0x801A1ED8#32
def kSelectThreadAddress : Word := 0x801A9C08#32
def kOSLoadContextAddress : Word := 0x801A1F58#32

namespace OS

/-! ## OSLoadContext -/

/-- `cpu->gpr[i]` from the context, for each register of the list. -/
def loadGprs (cpu : CpuPtr) (guestContextAddr : Word) : List (Fin 32) → OS Unit
  | [] => pure ()
  | i :: rest => do
    setGpr cpu i (← read32 (guestContextAddr + BitVec.ofNat 32 (4 * i)))
    loadGprs cpu guestContextAddr rest

def setGqr (cpu : CpuPtr) (i : Fin 8) (x : Word) : OS Unit :=
  onCpu cpu fun c => { c with gqr := Function.update c.gqr i x }

/-- `cpu->gqr[i]` from the context, for each register of the list. -/
def loadGqrs (cpu : CpuPtr) (guestContextAddr : Word) : List (Fin 8) → OS Unit
  | [] => pure ()
  | i :: rest => do
    setGqr cpu i (← read32 (guestContextAddr + kContextGqrOffset + BitVec.ofNat 32 (4 * i)))
    loadGqrs cpu guestContextAddr rest

/-- Clear the exception bit of the context, when it is set. -/
def clearExceptionBit (guestContextAddr : Word) : OS Unit := do
  let modeFlags ← read16 (guestContextAddr + kContextModeFlagsOffset)
  onlyIf (modeFlags &&& 0x0002#16 ≠ 0#16) do
    write16 (guestContextAddr + kContextModeFlagsOffset) (modeFlags &&& ~~~0x0002#16)

/-- `mkw_switch_hle_os_load_context` up to the jump: the registers of the context. -/
def loadContextRegisters (cpu : CpuPtr) (guestContextAddr srr0 : Word) : OS Unit := do
  loadGprs cpu guestContextAddr (List.finRange 32)
  let cr ← read32 (guestContextAddr + kContextCrOffset)
  let lr ← read32 (guestContextAddr + kContextLrOffset)
  let ctr ← read32 (guestContextAddr + kContextCtrOffset)
  let xer ← read32 (guestContextAddr + kContextXerOffset)
  onCpu cpu fun c => { c with cr := cr, lr := lr, ctr := ctr, xer := xer }
  setGqr cpu 0 0#32
  loadGqrs cpu guestContextAddr [1, 2, 3, 4, 5, 6, 7]
  clearExceptionBit guestContextAddr
  let srr1 ← read32 (guestContextAddr + kContextSrr1Offset)
  onCpu cpu fun c => { c with srr0 := srr0, srr1 := srr1, pc := srr0 }

/-- `mkw_switch_hle_os_load_context`. -/
def osLoadContext (ctx : CpuPtr) : OS Unit := do
  let cpu := cpuOf ctx
  let guestContextAddr ← getGpr cpu 3
  if guestContextAddr = 0#32 then
    return ← boundary "OSLOADCONTEXT_NULL_CONTEXT" kOSLoadContextAddress
  let srr0 ← read32 (guestContextAddr + kContextSrr0Offset)
  if srr0 = 0#32 then
    return ← boundary "OSLOADCONTEXT_NULL_SRR0" kOSLoadContextAddress
  loadContextRegisters cpu guestContextAddr srr0
  invokeIndirectJump srr0 cpu
  boundary "OSLOADCONTEXT_TARGET_RETURNED" srr0

end OS

namespace SelectThread

open OS

/-! ## The run queues -/

def linkThreadOnRunQueue (thread priority : Word) : OS Unit := do
  if validPriority priority = false then
    return ← boundary "SELECTTHREAD_BAD_PRIORITY" kSelectThreadAddress
  let queueEntry := runQueueOf priority
  let tail ← read32 (queueEntry + 4#32)
  setQueueNext queueEntry tail thread
  write32 (thread + kThreadPrevOffset) tail
  write32 (thread + kThreadNextOffset) 0#32
  write32 (queueEntry + 4#32) thread
  write32 (thread + kThreadQueueOffset) queueEntry

def markRunQueuePending (priority : Word) : OS Unit := do
  let pending ← read32 kSchedulerPendingFlagAddr
  write32 kSchedulerPendingFlagAddr (pending ||| pendingBit priority)
  write32 kSchedulerReschedCounterAddr 1#32

def popThreadQueueHead (queueAddr head : Word) : OS Word := do
  let next ← read32 (head + kThreadNextOffset)
  setQueuePrev queueAddr next 0#32
  write32 queueAddr next
  return next

/-- Clear the pending bit of a run queue that has become empty. -/
def clearPendingIfEmpty (queue : Word) : OS Unit := do
  if onRunQueueArray queue = false then return ()
  if (← read32 queue) ≠ 0#32 then return ()
  let pending ← read32 kSchedulerPendingFlagAddr
  write32 kSchedulerPendingFlagAddr (pending &&& ~~~pendingBit (runQueueIndex queue))

def removeThreadFromQueue (thread : Word) : OS Unit := do
  let queue ← read32 (thread + kThreadQueueOffset)
  if queue = 0#32 then return ()
  let next ← read32 (thread + kThreadNextOffset)
  let prev ← read32 (thread + kThreadPrevOffset)
  setQueuePrev queue next prev
  setQueueNext queue prev next
  write32 (thread + kThreadQueueOffset) 0#32
  write32 (thread + kThreadNextOffset) 0#32
  write32 (thread + kThreadPrevOffset) 0#32
  clearPendingIfEmpty queue

/-! ## The running thread -/

/-- The running thread goes on: no switch is forced, and no queued thread has a
smaller priority number. -/
def keepsRunning (runningContext forceSwitch : Word) : OS Bool := do
  let pending ← read32 kSchedulerPendingFlagAddr
  if forceSwitch ≠ 0#32 then return false
  let pendingPriority := if pending = 0#32 then 32#32 else ppcCntlzw pending
  let runningPriority ← read32 (runningContext + kThreadPriorityOffset)
  return runningPriority.toInt ≤ pendingPriority.toInt

/-- The running thread goes back to the tail of its run queue. -/
def requeueRunning (runningContext : Word) : OS Unit := do
  let priority ← read32 (runningContext + kThreadPriorityOffset)
  if validPriority priority = false then
    return ← boundary "SELECTTHREAD_BAD_RUNNING_PRIORITY" kSelectThreadAddress
  write16 (runningContext + kThreadStateOffset) kThreadStateReady
  linkThreadOnRunQueue runningContext priority
  markRunQueuePending priority

/-- Whether a running thread goes on; if not, it is queued again. -/
def keepsOrRequeues (runningContext forceSwitch : Word) : OS Bool := do
  let threadState ← read16 (runningContext + kThreadStateOffset)
  if threadState ≠ kThreadStateRunning then return false
  if ← keepsRunning runningContext forceSwitch then return true
  requeueRunning runningContext
  return false

/-- Save the context of the thread, unless its mode bit 1 is set. The scheduler
goes on when the save returns 0. -/
def saveContext (cpu : CpuPtr) (runningContext : Word) : OS Bool := do
  let modeFlags ← read16 (runningContext + kContextModeFlagsOffset)
  if modeFlags &&& 0x0002#16 ≠ 0#16 then return true
  setGpr cpu 3 runningContext
  invokeIndirectCpu kOSSaveContextAddress cpu
  return (← getGpr cpu 3) = 0#32

/-- The fields of the running thread that the scheduler needs are mapped. -/
def mappedRunning (runningContext : Word) : OS Bool := do
  unless ← mapped16 (runningContext + kThreadStateOffset) do return false
  unless ← mapped32 (runningContext + kThreadPriorityOffset) do return false
  mapped16 (runningContext + kContextModeFlagsOffset)

/-- The running thread gives the machine up, if it has to. -/
def leaveRunning (cpu : CpuPtr) (runningContext forceSwitch : Word) : OS Bool := do
  if runningContext = 0#32 then return true
  unless ← mappedRunning runningContext do
    return ← boundary "SELECTTHREAD_BAD_RUNNING_CONTEXT" kSelectThreadAddress
  if ← keepsOrRequeues runningContext forceSwitch then return false
  saveContext cpu runningContext

/-! ## The selection -/

/-- The variables of the selection loop. -/
structure Pick where
  priorityLevel : Word
  queueEntry : Word
  nextThread : Word
  pendingMask : Word
deriving DecidableEq

/-- The loop ends when the mask is empty, or at a head that has not ended. -/
def selectionLoop : Nat → Pick → OS Pick
  | 0, _ => Routine.stop .diverge
  | fuel + 1, pick => do
    if pick.pendingMask = 0#32 then return pick
    let priorityLevel := ppcCntlzw pick.pendingMask
    if priorityLevel > 31#32 then
      return ← boundary "SELECTTHREAD_BAD_PENDING_MASK" kSelectThreadAddress
    let queueEntry := runQueueOf priorityLevel
    let nextThread ← read32 queueEntry
    if nextThread = 0#32 then
      let pendingMask := pick.pendingMask &&& ~~~pendingBit priorityLevel
      write32 kSchedulerPendingFlagAddr pendingMask
      selectionLoop fuel ⟨priorityLevel, queueEntry, nextThread, pendingMask⟩
    else
      let state ← read16 (nextThread + kThreadStateOffset)
      if state = 0#16 ∨ state = kThreadStateMoribund then
        removeThreadFromQueue nextThread
        let pendingMask ← read32 kSchedulerPendingFlagAddr
        selectionLoop fuel ⟨priorityLevel, queueEntry, nextThread, pendingMask⟩
      else
        return ⟨priorityLevel, queueEntry, nextThread, pick.pendingMask⟩

/-- The selection from the pending mask in memory on. -/
def select (fuel : Nat) : OS Pick := do
  let pendingMask ← read32 kSchedulerPendingFlagAddr
  if pendingMask = 0#32 then
    return ← boundary "SELECTTHREAD_IDLE_POLL" kSelectThreadAddress
  write32 kSchedulerReschedCounterAddr 0#32
  selectionLoop fuel ⟨0#32, 0#32, 0#32, pendingMask⟩

/-- The selected thread leaves its queue and runs. -/
def takeThread (pick : Pick) : OS Unit := do
  let threadNext ← popThreadQueueHead pick.queueEntry pick.nextThread
  onlyIf (threadNext = 0#32) do
    write32 kSchedulerPendingFlagAddr (pick.pendingMask &&& ~~~pendingBit pick.priorityLevel)
  write32 (pick.nextThread + kThreadQueueOffset) 0#32
  write16 (pick.nextThread + kThreadStateOffset) kThreadStateRunning

/-! ## The hand-over -/

def tryInvokeSwitchCallback (oldContext newContext : Word) (cpu : CpuPtr) : OS Unit := do
  if cpu = 0 then return ()
  unless ← mapped32 kSwitchThreadCallbackPtrAddr do return ()
  let callback ← read32 kSwitchThreadCallbackPtrAddr
  if callback = 0#32 then return ()
  setGpr cpu 3 oldContext
  setGpr cpu 4 newContext
  let _ ← tryDispatchIndirect .guest callback cpu

/-- The switch callback, the running context and the current context. -/
def publish (cpu : CpuPtr) (runningContext nextThread : Word) : OS Unit := do
  tryInvokeSwitchCallback runningContext nextThread cpu
  write32 kOSRunningContextAddr nextThread
  setGpr cpu 3 nextThread
  osSetCurrentContext cpu

/-- The thread that leaves has a fiber, or gets one when it is the main thread. -/
def registerMain (cpu : CpuPtr) (runningContext : Word) : OS Bool := do
  let f ← getFibers
  if f.currentGuestThread ≠ 0#32 ∨ runningContext = 0#32 ∨
    f.has runningContext then return true
  registerCurrent runningContext cpu

/-- `available() && has(nextThread)`. -/
def hasFiber (nextThread : Word) : OS Bool := do
  unless ← Routine.gets Machine.fibersAvailable do return false
  return (← getFibers).has nextThread

/-- Go to the host stack of the selected thread, or load its context on this one. -/
def enterThread (cpu : CpuPtr) (runningContext nextThread : Word) : OS Unit := do
  unless ← hasFiber nextThread do
    setGpr cpu 3 nextThread
    return ← osLoadContext cpu
  unless ← registerMain cpu runningContext do
    return ← boundary "SELECTTHREAD_REGISTER_MAIN_FIBER" kSelectThreadAddress
  unless ← switchTo nextThread cpu do
    return ← boundary "SELECTTHREAD_GUEST_FIBER_SWITCH" kSelectThreadAddress
  setGpr cpu 3 0#32

/-- The part of `SelectThread` after the running thread has given the machine up. -/
def switchThread (fuel : Nat) (cpu : CpuPtr) (runningContext : Word) : OS Unit := do
  let pick ← select fuel
  if pick.nextThread = 0#32 then
    return ← setGpr cpu 3 0#32
  takeThread pick
  publish cpu runningContext pick.nextThread
  enterThread cpu runningContext pick.nextThread

end SelectThread

namespace OS

open SelectThread

/-- `mkw_switch_hle_select_thread`. -/
def selectThread (fuel : Nat) (ctx : CpuPtr) : OS Unit := do
  let cpu := cpuOf ctx
  let forceSwitch ← getGpr cpu 3
  unless ← allMapped32 [kSchedulerIdleFlagAddr, kOSCurrentContextAddr, kOSRunningContextAddr,
      kSchedulerPendingFlagAddr, kSchedulerReschedCounterAddr] do
    return ← boundary "SELECTTHREAD_BAD_GLOBAL_STATE" kSelectThreadAddress
  if (← read32 kSchedulerIdleFlagAddr) ≥ 1#32 then
    return ← setGpr cpu 3 0#32
  let currentContext ← read32 kOSCurrentContextAddr
  let runningContext ← read32 kOSRunningContextAddr
  if currentContext = 0#32 ∧ runningContext = 0#32 then
    return ← setGpr cpu 3 0#32
  if currentContext ≠ runningContext then
    return ← setGpr cpu 3 0#32
  unless ← leaveRunning cpu runningContext forceSwitch do
    return ← setGpr cpu 3 0#32
  switchThread fuel cpu runningContext

end OS

end wii_switch
