-- The guest layout that the OS bridges share: the low-memory globals, the fields
-- of an OSThread with the OSContext at its start, of an OSMutex and of an
-- OSMessageQueue. Each bridge repeats the offsets that it needs; here they stand
-- once, with the helpers that the bridges repeat word for word.
import WiiSwitch.Interrupts

namespace wii_switch

/-! ## Globals -/

def kCurrentFpuContextAddr : Word := 0x800000D8#32
def kThreadListHeadAddr : Word := 0x800000DC#32
def kThreadListTailAddr : Word := 0x800000E0#32
def kOSRunningContextAddr : Word := 0x800000E4#32
def kSchedulerInitFlagAddr : Word := 0x80347130#32
def kDefaultThreadContextAddr : Word := 0x80347498#32
def kThreadQueueArrayAddr : Word := 0x803477B0#32
def kThreadQueueArrayBytes : Word := 0x100#32
def kThreadAttrSourceAddr : Word := 0x80385AA8#32
def kSwitchThreadCallbackPtrAddr : Word := 0x80385AE0#32
def kSchedulerIdleFlagAddr : Word := 0x80386918#32
def kSchedulerReschedCounterAddr : Word := 0x8038691C#32
def kSchedulerPendingFlagAddr : Word := 0x80386920#32

/-! ## OSContext -/

def kContextR1Offset : Word := 0x04#32
def kContextR2Offset : Word := 0x08#32
def kContextR3Offset : Word := 0x0C#32
def kContextR13Offset : Word := 0x34#32
def kContextCrOffset : Word := 0x80#32
def kContextLrOffset : Word := 0x84#32
def kContextCtrOffset : Word := 0x88#32
def kContextXerOffset : Word := 0x8C#32
def kContextFprOffset : Word := 0x90#32
def kContextFpscrOffset : Word := 0x194#32
def kContextSrr0Offset : Word := 0x198#32
def kContextSrr1Offset : Word := 0x19C#32
def kContextGqrOffset : Word := 0x1A4#32
def kContextPsfOffset : Word := 0x1C8#32

/-! ## OSThread -/

def kThreadSize : Nat := 0x318
def kThreadStateOffset : Word := 0x2C8#32
def kThreadAttrOffset : Word := 0x2CA#32
def kThreadSuspendOffset : Word := 0x2CC#32
def kThreadPriorityOffset : Word := 0x2D0#32
def kThreadBasePriorityOffset : Word := 0x2D4#32
def kThreadExitValueOffset : Word := 0x2D8#32
def kThreadQueueOffset : Word := 0x2DC#32
def kThreadNextOffset : Word := 0x2E0#32
def kThreadPrevOffset : Word := 0x2E4#32
def kThreadJoinQueueOffset : Word := 0x2E8#32
def kThreadMutexOffset : Word := 0x2F0#32
def kThreadMutexQueueOffset : Word := 0x2F4#32
def kThreadMutexTailOffset : Word := 0x2F8#32
def kThreadListNextOffset : Word := 0x2FC#32
def kThreadListPrevOffset : Word := 0x300#32
def kThreadStackTopOffset : Word := 0x304#32
def kThreadStackBottomOffset : Word := 0x308#32
def kThreadSpecific0Offset : Word := 0x30C#32
def kThreadSpecific1Offset : Word := 0x310#32
def kThreadSpecific2Offset : Word := 0x314#32

def kThreadStateReady : Half := 1#16
def kThreadStateRunning : Half := 2#16
def kThreadStateWaiting : Half := 4#16
def kThreadStateMoribund : Half := 8#16

/-! ## OSMutex -/

def kMutexWaitQueueHeadOffset : Word := 0x00#32
def kMutexWaitQueueTailOffset : Word := 0x04#32
def kMutexOwnerOffset : Word := 0x08#32
def kMutexCountOffset : Word := 0x0C#32
def kMutexThreadNextOffset : Word := 0x10#32
def kMutexThreadPrevOffset : Word := 0x14#32

/-! ## OSMessageQueue -/

def kMsgQueueSendOffset : Word := 0x00#32
def kMsgQueueRecvOffset : Word := 0x08#32
def kMsgQueueArrayOffset : Word := 0x10#32
def kMsgQueueCountOffset : Word := 0x14#32
def kMsgQueueFirstOffset : Word := 0x18#32
def kMsgQueueUsedOffset : Word := 0x1C#32

/-! ## Shared helpers -/

/-- `ctx ? ctx : &GetPersistentCpuContext()`. -/
def cpuOf (ctx : CpuPtr) : CpuPtr := if ctx ≠ 0 then ctx else persistentCpu

theorem cpuOf_ne_zero (ctx : CpuPtr) : cpuOf ctx ≠ 0 := by
  unfold cpuOf persistentCpu
  split <;> simp_all

/-- The queue is one of the 32 run queues. -/
def onRunQueueArray (queue : Word) : Bool :=
  kThreadQueueArrayAddr ≤ queue ∧ queue < kThreadQueueArrayAddr + kThreadQueueArrayBytes ∧
    (queue - kThreadQueueArrayAddr) % 8#32 = 0#32

/-- The index of a run queue. -/
def runQueueIndex (queue : Word) : Word := (queue - kThreadQueueArrayAddr) / 8#32

/-- The run queue of a priority. -/
def runQueueOf (priority : Word) : Word := kThreadQueueArrayAddr + priority * 8#32

/-- `1u << (31u - priority)`. -/
def pendingBit (priority : Word) : Word := 1#32 <<< (31#32 - priority)

/-- A priority that has a run queue. -/
def validPriority (priority : Word) : Bool := 0 ≤ priority.toInt ∧ priority.toInt ≤ 31

/-- `PPC_Cntlzw`: the number of leading zero bits. -/
def ppcCntlzw (value : Word) : Word := value.clz

/-- One `Memory::Write16` or `Memory::Write32`. -/
inductive GuestStore where
  | half (address : Word) (value : Half)
  | word (address value : Word)
deriving DecidableEq

namespace OS

def store : GuestStore → OS Unit
  | .half address value => write16 address value
  | .word address value => write32 address value

/-- The stores of the list, in order. -/
def storeAll : List GuestStore → OS Unit
  | [] => pure ()
  | first :: rest => do
    store first
    storeAll rest

/-- The link that leads on from `thread` in a queue: the next word of the thread,
or the head of the queue when there is no thread. -/
def setQueueNext (queue thread value : Word) : OS Unit :=
  if thread = 0#32 then write32 queue value else write32 (thread + kThreadNextOffset) value

/-- The link that leads back from `thread` in a queue: the previous word of the
thread, or the tail of the queue when there is no thread. -/
def setQueuePrev (queue thread value : Word) : OS Unit :=
  if thread = 0#32 then write32 (queue + 4#32) value
  else write32 (thread + kThreadPrevOffset) value

/-- The first thread of a queue that a thread of this priority stands before, from
`insertBefore` on, or 0 at the end of the queue. -/
def findInsertBefore (priority : Word) : Nat → Word → OS Word
  | 0, _ => Routine.stop .diverge
  | fuel + 1, insertBefore => do
    if insertBefore = 0#32 then return 0#32
    let queuedPriority ← read32 (insertBefore + kThreadPriorityOffset)
    if queuedPriority.toInt > priority.toInt then return insertBefore
    findInsertBefore priority fuel (← read32 (insertBefore + kThreadNextOffset))

/-- `RestoreInterrupts` of the bridges. -/
def restoreInterrupts (cpu : CpuPtr) (state : Word) : OS Unit := do
  if cpu = 0 then return ()
  setGpr cpu 3 state
  osRestoreInterrupts cpu

end OS

end wii_switch
