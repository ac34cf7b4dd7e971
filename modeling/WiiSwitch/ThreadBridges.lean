-- OSSleepThread (source/os_sleep_thread_hle_bridge.cpp), OSResumeThread
-- (source/os_resume_thread_hle_bridge.cpp) and OSReceiveMessage
-- (source/os_receive_message_hle_bridge.cpp). Each works on the wait queues with
-- the interrupts disabled, and the first two go into SelectThread.
import WiiSwitch.SelectThread

namespace wii_switch

def kOSResumeThreadAddress : Word := 0x801AA58C#32
def kOSWakeupThreadAddress : Word := 0x801AAAA4#32

open OS

/-! ## OSSleepThread -/

namespace SleepThread

def insertThreadIntoQueueByPriority (fuel : Nat) (queuePtr threadPtr priority : Word) :
    OS Unit := do
  write32 (threadPtr + kThreadQueueOffset) queuePtr
  let insertBefore ← findInsertBefore priority fuel (← read32 queuePtr)
  if insertBefore = 0#32 then
    let tail ← read32 (queuePtr + 4#32)
    setQueueNext queuePtr tail threadPtr
    write32 (threadPtr + kThreadPrevOffset) tail
    write32 (threadPtr + kThreadNextOffset) 0#32
    write32 (queuePtr + 4#32) threadPtr
  else
    write32 (threadPtr + kThreadNextOffset) insertBefore
    let prev ← read32 (insertBefore + kThreadPrevOffset)
    write32 (insertBefore + kThreadPrevOffset) threadPtr
    write32 (threadPtr + kThreadPrevOffset) prev
    setQueueNext queuePtr prev threadPtr

def unlinkWaitQueueNode (queuePtr threadPtr : Word) : OS Unit := do
  let next ← read32 (threadPtr + kThreadNextOffset)
  let prev ← read32 (threadPtr + kThreadPrevOffset)
  setQueuePrev queuePtr next prev
  setQueueNext queuePtr prev next
  write32 (threadPtr + kThreadNextOffset) 0#32
  write32 (threadPtr + kThreadPrevOffset) 0#32

/-- The fields of a thread that is put to sleep are mapped. -/
def mappedThread (thread : Word) : OS Bool := do
  unless ← mapped16 (thread + kThreadStateOffset) do return false
  allMapped32 [thread + kThreadPriorityOffset, thread + kThreadQueueOffset,
    thread + kThreadNextOffset, thread + kThreadPrevOffset]

/-- The running thread. When there is none, the default thread becomes it. -/
def runningOrDefault (cpu : CpuPtr) : OS (Option Word) := do
  let currentThread ← read32 kOSRunningContextAddr
  if currentThread ≠ 0#32 then return some currentThread
  unless ← mappedThread kDefaultThreadContextAddr do return none
  write32 kOSRunningContextAddr kDefaultThreadContextAddr
  setGpr cpu 3 kDefaultThreadContextAddr
  osSetCurrentContext cpu
  return some kDefaultThreadContextAddr

/-- The thread waits in the queue, in the order of the priorities. -/
def park (fuel : Nat) (queuePtr currentThread : Word) : OS Unit := do
  write16 (currentThread + kThreadStateOffset) kThreadStateWaiting
  write32 (currentThread + kThreadQueueOffset) queuePtr
  let priority ← read32 (currentThread + kThreadPriorityOffset)
  insertThreadIntoQueueByPriority fuel queuePtr currentThread priority
  suspendFiber currentThread
  write32 kSchedulerReschedCounterAddr 1#32

/-- The thread still waits in the queue. -/
def stillParked (queuePtr currentThread : Word) : OS Bool := do
  if (← read16 (currentThread + kThreadStateOffset)) ≠ kThreadStateWaiting then return false
  return (← read32 (currentThread + kThreadQueueOffset)) = queuePtr

/-- SelectThread came back without a wake-up: the thread leaves the queue. -/
def unpark (queuePtr currentThread : Word) : OS Unit := do
  unless ← stillParked queuePtr currentThread do return ()
  unlinkWaitQueueNode queuePtr currentThread
  write32 (currentThread + kThreadQueueOffset) 0#32
  write16 (currentThread + kThreadStateOffset) kThreadStateRunning
  resumeFiber currentThread

/-- The body of OSSleepThread between the two changes of the interrupt state. -/
def sleep (fuel : Nat) (cpu : CpuPtr) (queuePtr : Word) : OS Unit := do
  unless ← allMapped32 [kOSRunningContextAddr, kOSCurrentContextAddr, kSchedulerIdleFlagAddr,
      kSchedulerReschedCounterAddr, queuePtr, queuePtr + 4#32] do return ()
  match ← runningOrDefault cpu with
  | none => return ()
  | some currentThread =>
    unless ← mappedThread currentThread do return ()
    if (← read32 kSchedulerIdleFlagAddr) ≠ 0#32 then return ()
    park fuel queuePtr currentThread
    setGpr cpu 3 0#32
    selectThread fuel cpu
    unpark queuePtr currentThread

end SleepThread

/-- `mkw_switch_hle_os_sleep_thread`. -/
def OS.osSleepThread (fuel : Nat) (ctx : CpuPtr) : OS Unit := do
  let cpu := cpuOf ctx
  let queuePtr ← getGpr cpu 3
  if queuePtr = 0#32 then return ()
  osDisableInterrupts cpu
  let irqState ← getGpr cpu 3
  SleepThread.sleep fuel cpu queuePtr
  restoreInterrupts cpu irqState

/-! ## OSResumeThread -/

namespace ResumeThread

def abortResumeBoundary {α : Type} (kind : String) (cpu : CpuPtr) (threadPtr irqState : Word) :
    OS α := do
  restoreInterrupts cpu irqState
  onlyIf (cpu ≠ 0) do setGpr cpu 3 threadPtr
  boundary kind kOSResumeThreadAddress

def updatePendingMaskForQueue (queueEntry : Word) : OS Unit := do
  if onRunQueueArray queueEntry = false then return ()
  if (← read32 queueEntry) ≠ 0#32 then return ()
  let pending ← read32 kSchedulerPendingFlagAddr
  write32 kSchedulerPendingFlagAddr (pending &&& ~~~pendingBit (runQueueIndex queueEntry))

def removeThreadFromQueue (threadPtr : Word) : OS Unit := do
  let queuePtr ← read32 (threadPtr + kThreadQueueOffset)
  if queuePtr = 0#32 then return ()
  let next ← read32 (threadPtr + kThreadNextOffset)
  let prev ← read32 (threadPtr + kThreadPrevOffset)
  setQueuePrev queuePtr next prev
  setQueueNext queuePtr prev next
  write32 (threadPtr + kThreadNextOffset) 0#32
  write32 (threadPtr + kThreadPrevOffset) 0#32
  write32 (threadPtr + kThreadQueueOffset) 0#32
  updatePendingMaskForQueue queuePtr

/-- The loop of `ComputeThreadEffectivePriority`, over the held mutexes. -/
def lowestWaiterPriority : Nat → Word → Word → OS Word
  | 0, _, _ => Routine.stop .diverge
  | fuel + 1, mutexPtr, priority => do
    if mutexPtr = 0#32 then return priority
    let waiterThread ← read32 (mutexPtr + kMutexWaitQueueHeadOffset)
    if waiterThread = 0#32 then
      lowestWaiterPriority fuel (← read32 (mutexPtr + kMutexThreadNextOffset)) priority
    else
      let waiterPriority ← read32 (waiterThread + kThreadPriorityOffset)
      lowestWaiterPriority fuel (← read32 (mutexPtr + kMutexThreadNextOffset))
        (if waiterPriority.toInt < priority.toInt then waiterPriority else priority)

def computeThreadEffectivePriority (fuel : Nat) (threadPtr : Word) : OS Word := do
  let priority ← read32 (threadPtr + kThreadBasePriorityOffset)
  lowestWaiterPriority fuel (← read32 (threadPtr + kThreadMutexQueueOffset)) priority

/-- The pending bit of a run queue that a thread was put into. -/
def markPendingForQueue (queuePtr : Word) : OS Unit := do
  if onRunQueueArray queuePtr = false then return ()
  let pending ← read32 kSchedulerPendingFlagAddr
  write32 kSchedulerPendingFlagAddr (pending ||| pendingBit (runQueueIndex queuePtr))

/-- The links of `InsertThreadIntoQueueByPriority`. -/
def linkByPriority (fuel : Nat) (queuePtr threadPtr priority : Word) : OS Unit := do
  write32 (threadPtr + kThreadQueueOffset) queuePtr
  let insertBefore ← findInsertBefore priority fuel (← read32 queuePtr)
  if insertBefore = 0#32 then
    let tail ← read32 (queuePtr + 4#32)
    setQueueNext queuePtr tail threadPtr
    write32 (threadPtr + kThreadPrevOffset) tail
    write32 (threadPtr + kThreadNextOffset) 0#32
    write32 (queuePtr + 4#32) threadPtr
  else
    write32 (threadPtr + kThreadNextOffset) insertBefore
    let prev ← read32 (insertBefore + kThreadPrevOffset)
    write32 (insertBefore + kThreadPrevOffset) threadPtr
    write32 (threadPtr + kThreadPrevOffset) prev
    setQueueNext queuePtr prev threadPtr

def insertThreadIntoQueueByPriority (fuel : Nat) (queuePtr threadPtr priority : Word) :
    OS Unit := do
  linkByPriority fuel queuePtr threadPtr priority
  markPendingForQueue queuePtr

/-- The effective priority of the thread, which must have a run queue. -/
def checkedPriority (fuel : Nat) (cpu : CpuPtr) (threadPtr irqState : Word) : OS Word := do
  let priority ← computeThreadEffectivePriority fuel threadPtr
  if validPriority priority = false then
    return ← abortResumeBoundary "OSRESUMETHREAD_BAD_PRIORITY" cpu threadPtr irqState
  return priority

/-- A waiting thread takes its place in its wait queue again. -/
def resumeWaiting (fuel : Nat) (cpu : CpuPtr) (threadPtr irqState : Word) : OS Unit := do
  if (← read32 (threadPtr + kThreadMutexOffset)) ≠ 0#32 then
    return ← abortResumeBoundary "OSRESUMETHREAD_WAITING_MUTEX_PRIORITY" cpu threadPtr irqState
  let queuePtr ← read32 (threadPtr + kThreadQueueOffset)
  removeThreadFromQueue threadPtr
  let priority ← checkedPriority fuel cpu threadPtr irqState
  write32 (threadPtr + kThreadPriorityOffset) priority
  onlyIf (queuePtr ≠ 0#32) do
    insertThreadIntoQueueByPriority fuel queuePtr threadPtr priority

/-- A ready thread goes into the run queue of its priority. -/
def resumeReady (fuel : Nat) (cpu : CpuPtr) (threadPtr irqState : Word) : OS Unit := do
  let priority ← checkedPriority fuel cpu threadPtr irqState
  write32 (threadPtr + kThreadPriorityOffset) priority
  insertThreadIntoQueueByPriority fuel (runQueueOf priority) threadPtr priority
  write32 kSchedulerReschedCounterAddr 1#32
  resumeFiber threadPtr

/-- What a thread does that is no longer suspended, by its state. -/
def resumeByState (fuel : Nat) (cpu : CpuPtr) (threadPtr irqState : Word) : OS Unit := do
  let state ← read16 (threadPtr + kThreadStateOffset)
  if state = kThreadStateWaiting then resumeWaiting fuel cpu threadPtr irqState
  else if state = kThreadStateReady then resumeReady fuel cpu threadPtr irqState
  else if state = kThreadStateRunning then
    abortResumeBoundary "OSRESUMETHREAD_RUNNING_RECOVERY" cpu threadPtr irqState
  else return ()

/-- The suspend count goes down, and at 0 the thread can run again. -/
def lowerSuspendCount (fuel : Nat) (cpu : CpuPtr) (threadPtr irqState suspendCount : Word) :
    OS Unit := do
  let newSuspend := suspendCount.toInt - 1
  if newSuspend < 0 then
    return ← write32 (threadPtr + kThreadSuspendOffset) 0#32
  write32 (threadPtr + kThreadSuspendOffset) (BitVec.ofInt 32 newSuspend)
  if newSuspend ≠ 0 then return ()
  resumeByState fuel cpu threadPtr irqState
  if (← read32 kSchedulerReschedCounterAddr) = 0#32 then return ()
  setGpr cpu 3 0#32
  selectThread fuel cpu

/-- The body of OSResumeThread between the two changes of the interrupt state. -/
def resume (fuel : Nat) (cpu : CpuPtr) (threadPtr irqState : Word) : OS Unit := do
  unless ← mapped32 (threadPtr + kThreadSuspendOffset) do
    return ← abortResumeBoundary "OSRESUMETHREAD_BAD_GUEST_STATE" cpu threadPtr irqState
  unless ← contains (threadPtr + kThreadStateOffset) 2#64 do
    return ← abortResumeBoundary "OSRESUMETHREAD_BAD_GUEST_STATE" cpu threadPtr irqState
  let suspendCount ← read32 (threadPtr + kThreadSuspendOffset)
  lowerSuspendCount fuel cpu threadPtr irqState suspendCount
  setGpr cpu 3 suspendCount

end ResumeThread

/-- `mkw_switch_hle_os_resume_thread`. -/
def OS.osResumeThread (fuel : Nat) (ctx : CpuPtr) : OS Unit := do
  let cpu := cpuOf ctx
  let threadPtr ← getGpr cpu 3
  if threadPtr = 0#32 then
    return ← setGpr cpu 3 0#32
  osDisableInterrupts cpu
  let irqState ← getGpr cpu 3
  ResumeThread.resume fuel cpu threadPtr irqState
  restoreInterrupts cpu irqState

/-! ## OSReceiveMessage -/

namespace ReceiveMessage

def dequeueMessage (queuePtr : Word) : OS Word := do
  let arrayPtr ← read32 (queuePtr + kMsgQueueArrayOffset)
  let count ← read32 (queuePtr + kMsgQueueCountOffset)
  let first ← read32 (queuePtr + kMsgQueueFirstOffset)
  let used ← read32 (queuePtr + kMsgQueueUsedOffset)
  if count = 0#32 ∨ used = 0#32 then return 0#32
  let msg ← read32 (arrayPtr + first * 4#32)
  write32 (queuePtr + kMsgQueueFirstOffset) ((first + 1#32) % count)
  write32 (queuePtr + kMsgQueueUsedOffset) (used - 1#32)
  return msg

/-- A message is there: it goes to the caller, and a sender is woken. -/
def takeMessage (cpu : CpuPtr) (queuePtr outMsgPtr : Word) : OS Unit := do
  let msg ← dequeueMessage queuePtr
  onlyIf (outMsgPtr ≠ 0#32) do write32 outMsgPtr msg
  setGpr cpu 3 (queuePtr + kMsgQueueSendOffset)
  invokeTranslatedCpu kOSWakeupThreadAddress cpu

/-- The loop of OSReceiveMessage, with the result that it leaves in r3. -/
def receiveLoop (sleepFuel : Nat) (cpu : CpuPtr) (queuePtr outMsgPtr : Word) (block : Bool) :
    Nat → OS Word
  | 0 => Routine.stop .diverge
  | fuel + 1 => do
    if (← read32 (queuePtr + kMsgQueueUsedOffset)) ≠ 0#32 then
      takeMessage cpu queuePtr outMsgPtr
      return 1#32
    if block = false then return 0#32
    setGpr cpu 3 (queuePtr + kMsgQueueRecvOffset)
    osSleepThread sleepFuel cpu
    receiveLoop sleepFuel cpu queuePtr outMsgPtr block fuel

end ReceiveMessage

/-- `mkw_switch_hle_os_receive_message`. -/
def OS.osReceiveMessage (fuel : Nat) (cpu : CpuPtr) : OS Unit := do
  if cpu = 0 then return ()
  let queuePtr ← getGpr cpu 3
  let outMsgPtr ← getGpr cpu 4
  let block := (← getGpr cpu 5) &&& 1#32 ≠ 0#32
  if queuePtr = 0#32 then
    return ← setGpr cpu 3 0#32
  osDisableInterrupts cpu
  let previousInterruptState := (← getGpr cpu 3) ≠ 0#32
  let received ← ReceiveMessage.receiveLoop fuel cpu queuePtr outMsgPtr block fuel
  restoreInterrupts cpu (stateWord previousInterruptState)
  setGpr cpu 3 received

end wii_switch
