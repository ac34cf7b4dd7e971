-- OSCreateThread (source/os_create_thread_hle_bridge.cpp): the guest thread block,
-- its context and its stack words, the list of all threads, and the fiber.
import WiiSwitch.GuestFiber

namespace wii_switch

def kInitialSrr1 : Word := 0x00009032#32
def kThreadExitTrampoline : Word := 0x801AA0F0#32
def kStackGuard : Word := 0xDEADBABE#32

open OS

namespace CreateThread

def isThpVideoDecoderEntry (entry : Word) : Bool :=
  entry = 0x805529A8#32 ∨ entry = 0x80552A74#32

def containsThreadAndStack (threadPtr alignedStack stackTop stackSize : Word) : OS Bool := do
  unless ← isInitialized do return false
  if threadPtr = 0#32 ∨ alignedStack < 8#32 ∨ stackTop < stackSize then return false
  Routine.gets fun s =>
    s.mem.contains threadPtr (BitVec.ofNat 64 kThreadSize) ∧
    s.mem.contains (alignedStack - 8#32) 8#64 ∧ s.mem.contains (stackTop - stackSize) 4#64 ∧
    s.mem.contains kThreadListHeadAddr 4#64 ∧ s.mem.contains kThreadListTailAddr 4#64

/-- Zeros in the words of the list, counted from the address. -/
def clearWords (address : Word) (words : List Nat) : List GuestStore :=
  words.map fun i => .word (address + BitVec.ofNat 32 (4 * i)) 0#32

/-- The state, the priorities, the suspend count and the queues of a new thread. -/
def threadStores (threadPtr attributes priority alignedStack : Word) : List GuestStore :=
  [.half (threadPtr + kThreadStateOffset) kThreadStateReady,
    .half (threadPtr + kThreadAttrOffset) (attributes.setWidth 16 &&& 1#16),
    .word (threadPtr + kThreadBasePriorityOffset) priority,
    .word (threadPtr + kThreadPriorityOffset) priority,
    .word (threadPtr + kThreadSuspendOffset) 1#32,
    .word (threadPtr + kThreadExitValueOffset) 0xFFFFFFFF#32,
    .word (threadPtr + kThreadMutexOffset) 0#32,
    .word (threadPtr + kThreadJoinQueueOffset + 4#32) 0#32,
    .word (threadPtr + kThreadJoinQueueOffset) 0#32,
    .word (threadPtr + kThreadMutexTailOffset) 0#32,
    .word (threadPtr + kThreadMutexQueueOffset) 0#32,
    .word (alignedStack - 8#32) 0#32,
    .word (alignedStack - 4#32) 0#32]

/-- `InitializeGuestContext`, before the floating-point context. -/
def contextStores (threadPtr entryFunc stackPointer r2 r13 : Word) : List GuestStore :=
  [.word (threadPtr + kContextSrr0Offset) entryFunc,
    .word (threadPtr + kContextR1Offset) stackPointer,
    .word (threadPtr + kContextSrr1Offset) kInitialSrr1,
    .word (threadPtr + kContextCrOffset) 0#32,
    .word (threadPtr + kContextXerOffset) 0#32,
    .word (threadPtr + kContextR2Offset) r2,
    .word (threadPtr + kContextR13Offset) r13] ++
  clearWords threadPtr (List.range' 3 10) ++
  clearWords threadPtr (List.range' 14 18) ++
  clearWords (threadPtr + kContextGqrOffset) (List.range 8) ++
  [.half (threadPtr + kContextModeOffset) 0#16,
    .half (threadPtr + kContextModeFlagsOffset) 0#16]

/-- The quantization registers of the video decoder threads. -/
def thpStores (threadPtr entryFunc : Word) : List GuestStore :=
  if isThpVideoDecoderEntry entryFunc then
    [.word (threadPtr + 0x1AC#32) 0x00040004#32,
      .word (threadPtr + 0x1B0#32) 0x00050005#32,
      .word (threadPtr + 0x1B4#32) 0x00060006#32,
      .word (threadPtr + 0x1B8#32) 0x00070007#32]
  else []

/-- The end of the context, and the bounds of the stack. -/
def stackStores (threadPtr entryArg stackTop stackSize : Word) : List GuestStore :=
  [.word (threadPtr + kContextLrOffset) kThreadExitTrampoline,
    .word (threadPtr + kContextR3Offset) entryArg,
    .word (threadPtr + kThreadStackTopOffset) stackTop,
    .word (threadPtr + kThreadStackBottomOffset) (stackTop - stackSize),
    .word (stackTop - stackSize) kStackGuard,
    .word (threadPtr + kThreadSpecific0Offset) 0#32,
    .word (threadPtr + kThreadSpecific1Offset) 0#32,
    .word (threadPtr + kThreadSpecific2Offset) 0#32]

/-- Zeros over the floating-point registers of a context. -/
def fpStores (threadPtr : Word) : List GuestStore :=
  (List.range 32).flatMap fun i =>
    [.word (threadPtr + kContextFprOffset + BitVec.ofNat 32 (4 * i)) 0#32,
      .word (threadPtr + kContextPsfOffset + BitVec.ofNat 32 (4 * i)) 0#32]

/-- Drop the current floating-point context, when it is the new thread. -/
def dropFpuContext (threadPtr : Word) : OS Unit := do
  unless ← contains kCurrentFpuContextAddr 4#64 do return ()
  if (← read32 kCurrentFpuContextAddr) ≠ threadPtr then return ()
  write32 kCurrentFpuContextAddr 0#32

/-- What the context gets once the scheduler is initialized. -/
def initializeFpContext (threadPtr : Word) : OS Unit := do
  unless ← contains kSchedulerInitFlagAddr 4#64 do return ()
  if (← read32 kSchedulerInitFlagAddr) = 0#32 then return ()
  let srr1 ← read32 (threadPtr + kContextSrr1Offset)
  write32 (threadPtr + kContextSrr1Offset) (srr1 ||| 0x900#32)
  let state ← read16 (threadPtr + kContextModeFlagsOffset)
  write16 (threadPtr + kContextModeFlagsOffset) (state ||| 0x1#16)
  onlyIf (← contains kThreadAttrSourceAddr 4#64) do
    let attr ← read32 kThreadAttrSourceAddr
    write32 (threadPtr + kContextFpscrOffset) ((attr &&& 0xF8#32) ||| 0x4#32)
  storeAll (fpStores threadPtr)

/-- The head of the list of all threads once the thread is behind `tailThread`. -/
def linkBehind (tailThread threadPtr : Word) : OS Word := do
  if tailThread = 0#32 then return threadPtr
  write32 (tailThread + kThreadListNextOffset) threadPtr
  read32 kThreadListHeadAddr

/-- The thread goes to the end of the list of all threads. -/
def linkActiveThread (threadPtr : Word) : OS Unit := do
  let tailThread ← read32 kThreadListTailAddr
  let newHead ← linkBehind tailThread threadPtr
  write32 kThreadListHeadAddr newHead
  write32 (threadPtr + kThreadListPrevOffset) tailThread
  write32 (threadPtr + kThreadListNextOffset) 0#32
  write32 kThreadListTailAddr threadPtr

/-- The arguments of OSCreateThread, in r3 to r9. -/
structure Arguments where
  threadPtr : Word
  entryFunc : Word
  entryArg : Word
  stackTop : Word
  stackSize : Word
  priority : Word
  attributes : Word
deriving DecidableEq

def Arguments.alignedStack (a : Arguments) : Word := a.stackTop &&& 0xFFFFFFF8#32

def arguments (c : CpuContext) : Arguments :=
  ⟨c.gpr 3, c.gpr 4, c.gpr 5, c.gpr 6, c.gpr 7, c.gpr 8, c.gpr 9⟩

/-- The guest memory of the new thread, before it is put on the list. -/
def initializeBlock (cpu : CpuPtr) (a : Arguments) : OS Unit := do
  storeAll (threadStores a.threadPtr a.attributes a.priority a.alignedStack)
  let r2 ← getGpr cpu 2
  let r13 ← getGpr cpu 13
  storeAll (contextStores a.threadPtr a.entryFunc (a.alignedStack - 8#32) r2 r13)
  dropFpuContext a.threadPtr
  storeAll (thpStores a.threadPtr a.entryFunc)
  storeAll (stackStores a.threadPtr a.entryArg a.stackTop a.stackSize)
  initializeFpContext a.threadPtr

end CreateThread

open CreateThread

/-- `mkw_switch_hle_os_create_thread`. -/
def OS.osCreateThread (ctx : CpuPtr) : OS Unit := do
  let cpu := cpuOf ctx
  let a ← Routine.gets fun s => arguments (s.cpus cpu)
  if validPriority a.priority = false then
    return ← setGpr cpu 3 0#32
  unless ← containsThreadAndStack a.threadPtr a.alignedStack a.stackTop a.stackSize do
    return ← setGpr cpu 3 0#32
  initializeBlock cpu a
  osDisableInterrupts cpu
  let irqState ← getGpr cpu 3
  linkActiveThread a.threadPtr
  restoreInterrupts cpu irqState
  let _ ← createFiber a.threadPtr a.entryFunc a.entryArg (a.alignedStack - 8#32) cpu
  setGpr cpu 3 1#32

end wii_switch
