-- OSLockMutex and OSUnlockMutex (include/switch_mutex_hle_traits.hpp) and
-- OSSetPowerCallback (include/switch_os_power_hle_traits.hpp). A lock is taken
-- against the running thread; contention, waiters and an inherited priority are
-- boundaries.
import WiiSwitch.OSThread

namespace wii_switch

def kOSLockMutexAddress : Word := 0x801A7EE4#32
def kOSUnlockMutexAddress : Word := 0x801A7FC0#32

open OS

namespace Mutex

/-- `DisableInterrupts`. -/
def disableInterrupts (cpu : CpuPtr) : OS Word := do
  osDisableInterrupts cpu
  if cpu = 0 then return 0#32
  getGpr cpu 3

def abortMutexBoundary {α : Type} (kind : String) (target mutex : Word) (cpu : CpuPtr)
    (irqState : Word) : OS α := do
  restoreInterrupts cpu irqState
  onlyIf (cpu ≠ 0) do setGpr cpu 3 mutex
  boundary kind target

/-- A link word of a held list that must be mapped. -/
def writeHeldLink (kind : String) (target mutex : Word) (cpu : CpuPtr) (irqState : Word)
    (address value : Word) : OS Unit := do
  unless ← mapped32 address do
    return ← abortMutexBoundary kind target mutex cpu irqState
  write32 address value

def linkMutexToThread (thread mutex : Word) (cpu : CpuPtr) (irqState : Word) : OS Unit := do
  let tailAddr := thread + kThreadMutexTailOffset
  let headAddr := thread + kThreadMutexQueueOffset
  unless ← allMapped32 [tailAddr, headAddr, mutex + kMutexThreadNextOffset,
      mutex + kMutexThreadPrevOffset] do
    return ← abortMutexBoundary "OSMUTEX_BAD_GUEST_STATE" kOSLockMutexAddress mutex cpu irqState
  let tail ← read32 tailAddr
  let linkTail : OS Unit :=
    if tail = 0#32 then write32 headAddr mutex
    else writeHeldLink "OSMUTEX_BAD_HELD_LIST" kOSLockMutexAddress mutex cpu irqState
      (tail + kMutexThreadNextOffset) mutex
  linkTail
  write32 (mutex + kMutexThreadPrevOffset) tail
  write32 (mutex + kMutexThreadNextOffset) 0#32
  write32 tailAddr mutex

def unlinkMutexFromThread (thread mutex : Word) (cpu : CpuPtr) (irqState : Word) : OS Unit := do
  let headAddr := thread + kThreadMutexQueueOffset
  let tailAddr := thread + kThreadMutexTailOffset
  unless ← allMapped32 [headAddr, tailAddr, mutex + kMutexThreadNextOffset,
      mutex + kMutexThreadPrevOffset] do
    return ← abortMutexBoundary "OSMUTEX_BAD_GUEST_STATE" kOSUnlockMutexAddress mutex cpu irqState
  let next ← read32 (mutex + kMutexThreadNextOffset)
  let prev ← read32 (mutex + kMutexThreadPrevOffset)
  let linkNext : OS Unit :=
    if next = 0#32 then write32 tailAddr prev
    else writeHeldLink "OSMUTEX_BAD_HELD_LIST" kOSUnlockMutexAddress mutex cpu irqState
      (next + kMutexThreadPrevOffset) prev
  linkNext
  if prev = 0#32 then write32 headAddr next
  else
    writeHeldLink "OSMUTEX_BAD_HELD_LIST" kOSUnlockMutexAddress mutex cpu irqState
      (prev + kMutexThreadNextOffset) next

/-- A lock by the running thread, by the owner of the mutex. -/
def lockByOwner (cpu : CpuPtr) (mutex irqState currentThread : Word) : OS Unit := do
  let owner ← read32 (mutex + kMutexOwnerOffset)
  if owner = 0#32 then
    write32 (mutex + kMutexOwnerOffset) currentThread
    let count ← read32 (mutex + kMutexCountOffset)
    write32 (mutex + kMutexCountOffset) (count + 1#32)
    linkMutexToThread currentThread mutex cpu irqState
  else if owner = currentThread then
    let count ← read32 (mutex + kMutexCountOffset)
    write32 (mutex + kMutexCountOffset) (count + 1#32)
  else
    abortMutexBoundary "OSLOCKMUTEX_CONTENDED" kOSLockMutexAddress mutex cpu irqState

/-- OSLockMutex between the two changes of the interrupt state. -/
def lock (cpu : CpuPtr) (mutex irqState : Word) : OS Unit := do
  unless ← allMapped32 [kOSRunningContextAddr, mutex + kMutexOwnerOffset,
      mutex + kMutexCountOffset] do
    return ← abortMutexBoundary "OSLOCKMUTEX_BAD_GUEST_STATE" kOSLockMutexAddress
      mutex cpu irqState
  let currentThread ← read32 kOSRunningContextAddr
  if currentThread = 0#32 then return ()
  lockByOwner cpu mutex irqState currentThread

/-- The last unlock must leave no waiter and no inherited priority. -/
def checkLastUnlock (cpu : CpuPtr) (mutex irqState currentThread : Word) : OS Unit := do
  let waitHead ← read32 (mutex + kMutexWaitQueueHeadOffset)
  let waitTail ← read32 (mutex + kMutexWaitQueueTailOffset)
  if waitHead ≠ 0#32 ∨ waitTail ≠ 0#32 then
    return ← abortMutexBoundary "OSUNLOCKMUTEX_WAITERS" kOSUnlockMutexAddress mutex cpu irqState
  unless ← allMapped32 [currentThread + kThreadPriorityOffset,
      currentThread + kThreadBasePriorityOffset] do
    return ← abortMutexBoundary "OSUNLOCKMUTEX_BAD_THREAD" kOSUnlockMutexAddress
      mutex cpu irqState
  let priority ← read32 (currentThread + kThreadPriorityOffset)
  let basePriority ← read32 (currentThread + kThreadBasePriorityOffset)
  if priority.toInt < basePriority.toInt then
    return ← abortMutexBoundary "OSUNLOCKMUTEX_INHERITED_PRIORITY" kOSUnlockMutexAddress mutex cpu
      irqState

/-- One unlock by the owner. -/
def release (cpu : CpuPtr) (mutex irqState currentThread : Word) : OS Unit := do
  let count ← read32 (mutex + kMutexCountOffset)
  if count = 0#32 then
    return ← abortMutexBoundary "OSUNLOCKMUTEX_BAD_COUNT" kOSUnlockMutexAddress mutex cpu irqState
  onlyIf (count = 1#32) do checkLastUnlock cpu mutex irqState currentThread
  write32 (mutex + kMutexCountOffset) (count - 1#32)
  if count - 1#32 ≠ 0#32 then return ()
  unlinkMutexFromThread currentThread mutex cpu irqState
  write32 (mutex + kMutexOwnerOffset) 0#32

/-- OSUnlockMutex between the two changes of the interrupt state. -/
def unlock (cpu : CpuPtr) (mutex irqState : Word) : OS Unit := do
  unless ← allMapped32 [kOSRunningContextAddr, mutex + kMutexWaitQueueHeadOffset,
      mutex + kMutexWaitQueueTailOffset, mutex + kMutexOwnerOffset,
      mutex + kMutexCountOffset] do
    return ← abortMutexBoundary "OSUNLOCKMUTEX_BAD_GUEST_STATE" kOSUnlockMutexAddress mutex cpu
      irqState
  let currentThread ← read32 kOSRunningContextAddr
  if currentThread = 0#32 then return ()
  if (← read32 (mutex + kMutexOwnerOffset)) ≠ currentThread then return ()
  release cpu mutex irqState currentThread

end Mutex

namespace OS

/-- `body` between the two changes of the interrupt state, for the mutex in r3. -/
def onMutex (cpu : CpuPtr) (body : Word → Word → OS Unit) : OS Unit := do
  if cpu = 0 then return ()
  unless ← isInitialized do return ()
  let mutex ← getGpr cpu 3
  if mutex = 0#32 then return ()
  let irqState ← Mutex.disableInterrupts cpu
  body mutex irqState
  restoreInterrupts cpu irqState

def osLockMutex (cpu : CpuPtr) : OS Unit := onMutex cpu (Mutex.lock cpu)

def osUnlockMutex (cpu : CpuPtr) : OS Unit := onMutex cpu (Mutex.unlock cpu)

/-! ## OSSetPowerCallback -/

def kDefaultPowerCallback : Word := 0x801ABC0C#32

/-- The callback word gets the new callback, and the handler is marked active. -/
def installPowerCallback (newCallback r13 : Word) : OS Word := do
  let callbackAddr := r13 - 0x62B8#32
  let handlerActiveAddr := r13 - 0x62C0#32
  unless ← contains callbackAddr 4#64 do return kDefaultPowerCallback
  let oldCallback ← read32 callbackAddr
  write32 callbackAddr (if newCallback ≠ 0#32 then newCallback else kDefaultPowerCallback)
  unless ← contains handlerActiveAddr 4#64 do return oldCallback
  onlyIf ((← read32 handlerActiveAddr) = 0#32) do write32 handlerActiveAddr 1#32
  return oldCallback

def osSetPowerCallback (cpu : CpuPtr) : OS Unit := do
  if cpu = 0 then return ()
  let newCallback ← getGpr cpu 3
  let r13 ← getGpr cpu 13
  osDisableInterrupts cpu
  let irqState ← getGpr cpu 3
  let oldCallback ← installPowerCallback newCallback r13
  restoreInterrupts cpu irqState
  setGpr cpu 3 (if oldCallback = kDefaultPowerCallback then 0#32 else oldCallback)

end OS

end wii_switch
