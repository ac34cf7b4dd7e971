-- The machine that the native bridges run on: guest memory, the host interrupt
-- state, the register files, the bookkeeping of the host contexts and guest fibers,
-- and the globals of the NAND runtime. A native routine of the process is a `Routine` over it. Host
-- pointers to register files and to host contexts are numbers, and 0 is null.
import WiiSwitch.Lib.Coop
import WiiSwitch.Memory
import Mathlib.Data.Fin.VecNotation

namespace wii_switch

open Bytes

abbrev CpuPtr := Nat
abbrev Handle := Nat

/-- `&GetPersistentCpuContext()`. -/
def persistentCpu : CpuPtr := 1

/-! ## The register file -/

/-- There are registers to number. -/
instance registersNeZero : NeZero 32 := ⟨by decide⟩

instance gqrsNeZero : NeZero 8 := ⟨by decide⟩

structure PairedSingle where
  ps0 : Word64
  ps1 : Word64
deriving DecidableEq

/-- The registers that the native bridges use. -/
structure CpuContext where
  gpr : Fin 32 → Word
  fpr : Fin 32 → PairedSingle
  cr : Word
  lr : Word
  ctr : Word
  xer : Word
  gqr : Fin 8 → Word
  srr0 : Word
  srr1 : Word
  pc : Word
  hid2 : Word
  fpscr : Word

/-- `CpuContext{}`. -/
def CpuContext.zero : CpuContext :=
  ⟨fun _ => 0, fun _ => ⟨0, 0⟩, 0, 0, 0, 0, fun _ => 0, 0, 0, 0, 0, 0⟩

def CpuContext.setGpr (c : CpuContext) (i : Fin 32) (x : Word) : CpuContext :=
  { c with gpr := Function.update c.gpr i x }

@[simp] theorem CpuContext.setGpr_gpr (c : CpuContext) (i j : Fin 32) (x : Word) :
    (c.setGpr i x).gpr j = if j = i then x else c.gpr j := by
  simp [setGpr, Function.update_apply]

/-! ## The host side -/

/-- `FiberState`. -/
inductive FiberState where
  | empty
  | ready
  | running
  | waiting
deriving DecidableEq

structure GuestFiberRecord where
  guestThread : Word
  host : Handle
  entryPoint : Word
  entryArg : Word
  savedCpu : CpuContext
  state : FiberState
  schedulerHost : Bool

/-- `GuestFiberRecord{}`. -/
def GuestFiberRecord.none : GuestFiberRecord := ⟨0, 0, 0, 0, .zero, .empty, false⟩

/-- The globals of `switch_guest_fiber.cpp`. -/
structure GuestFibers where
  records : Fin 64 → GuestFiberRecord
  schedulerHost : Handle
  currentGuestThread : Word
  activeCpu : CpuPtr

/-- The host contexts: the current one, the next fresh handle, the argument that
each created context passes to its entry, the contexts that were not destroyed, and
whether the host has room for the context with a given handle. -/
structure HostContexts where
  current : Handle
  next : Handle
  argument : Handle → Word
  live : Handle → Bool
  grants : Handle → Bool

/-- A host path: its components below the NAND root. -/
abbrev HostPath := List (List Byte)

/-- A host stream. No two calls of `fopen` give the same one, and 0 is null. -/
abbrev Stream := Nat

structure FileHandle where
  file : Stream
  path : HostPath
  mode : Word

structure PendingCallback where
  callbackPtr : Word
  result : Word
  commandBlockPtr : Word
deriving DecidableEq

/-- The mode string of `fopen`. -/
inductive OpenMode where
  | rb
  | rplusb
  | wplusb
deriving DecidableEq

/-- What the runtime did with host streams. -/
inductive FileEvent where
  | fopen (path : HostPath) (mode : OpenMode) (file : Stream)
  | issue (fd : Word) (file : Stream)
  | fread (file : Stream) (length : Word)
  | fclose (file : Stream)
deriving DecidableEq

/-- An answer of the host: whether the call fails, and the bytes that it reads. -/
structure HostAnswer where
  fails : Bool
  bytes : List Byte

/-- The globals of the NAND runtime and the host behind it: the next fresh stream, the
events so far, newest first, and the answers to the calls of the host in their order. -/
structure NandRuntime where
  fileHandles : Word → Option FileHandle
  nextFd : Word
  pendingCallbacks : List PendingCallback
  callbackDrainDepth : Nat
  nextStream : Stream
  events : List FileEvent
  asked : Nat
  answers : Nat → HostAnswer

/-- The runtime at the start of the process. -/
def NandRuntime.start (answers : Nat → HostAnswer) : NandRuntime :=
  ⟨fun _ => none, 100#32, [], 0, 1, [], 0, answers⟩

/-- A record of the indirect dispatch table, less its entry. -/
structure RawDispatchRecord where
  preserveNonvolatileGprs : Bool
  nonvolatileFprWriteMask : Word

/-- The whole machine. `flushMode` is the floating-point mode of the host, `dispatch` is
the indirect dispatch table, and `translated` holds the nonvolatile write mask of each
target of a translated direct call. The type of the memory is a parameter, so that the
same machine may hold a view of the memory in its place. -/
structure Machine (M : Type) where
  mem : M
  interruptsEnabled : Bool
  interruptMask : Word
  flushMode : Bool
  cpus : CpuPtr → CpuContext
  fibers : GuestFibers
  hosts : HostContexts
  nand : NandRuntime
  dispatch : Word → Option RawDispatchRecord
  translated : Word → Option Word

namespace Machine

variable {M N : Type}

/-- The machine with another memory. -/
def withMem (s : Machine M) (m : N) : Machine N :=
  ⟨m, s.interruptsEnabled, s.interruptMask, s.flushMode, s.cpus, s.fibers, s.hosts, s.nand,
    s.dispatch, s.translated⟩

@[simp] theorem withMem_withMem {P : Type} (s : Machine M) (m : N) (p : P) :
    (s.withMem m).withMem p = s.withMem p := rfl

@[simp] theorem withMem_self (s : Machine M) : s.withMem s.mem = s := rfl

@[simp] theorem withMem_mem (s : Machine M) (m : N) : (s.withMem m).mem = m := rfl

@[simp] theorem withMem_interruptsEnabled (s : Machine M) (m : N) :
    (s.withMem m).interruptsEnabled = s.interruptsEnabled := rfl

@[simp] theorem withMem_cpus (s : Machine M) (m : N) : (s.withMem m).cpus = s.cpus := rfl

@[simp] theorem withMem_fibers (s : Machine M) (m : N) : (s.withMem m).fibers = s.fibers := rfl

@[simp] theorem withMem_hosts (s : Machine M) (m : N) : (s.withMem m).hosts = s.hosts := rfl

@[simp] theorem withMem_nand (s : Machine M) (m : N) : (s.withMem m).nand = s.nand := rfl

@[simp] theorem withMem_dispatch (s : Machine M) (m : N) :
    (s.withMem m).dispatch = s.dispatch := rfl

/-- The machine with the interrupt flag as given. -/
def setInterrupts (s : Machine M) (enabled : Bool) : Machine M :=
  { s with interruptsEnabled := enabled }

/-- The flag and the mask as `OS____InterruptInit` leaves them. -/
def resetInterrupts (s : Machine M) : Machine M :=
  { s with interruptsEnabled := false, interruptMask := 0#32 }

@[simp] theorem resetInterrupts_mem (s : Machine M) : s.resetInterrupts.mem = s.mem := rfl

@[simp] theorem setInterrupts_mem (s : Machine M) (e : Bool) : (s.setInterrupts e).mem = s.mem :=
  rfl

@[simp] theorem setInterrupts_interruptsEnabled (s : Machine M) (e : Bool) :
    (s.setInterrupts e).interruptsEnabled = e := rfl

/-- Change one register file. -/
def onCpu (s : Machine M) (cpu : CpuPtr) (f : CpuContext → CpuContext) : Machine M :=
  { s with cpus := Function.update s.cpus cpu (f (s.cpus cpu)) }

def gpr (s : Machine M) (cpu : CpuPtr) (i : Fin 32) : Word := (s.cpus cpu).gpr i

def setGpr (s : Machine M) (cpu : CpuPtr) (i : Fin 32) (x : Word) : Machine M :=
  s.onCpu cpu fun c => c.setGpr i x

@[simp] theorem withMem_gpr (s : Machine M) (m : N) (cpu : CpuPtr) (i : Fin 32) :
    (s.withMem m).gpr cpu i = s.gpr cpu i := rfl

@[simp] theorem setInterrupts_gpr (s : Machine M) (e : Bool) (cpu : CpuPtr) (i : Fin 32) :
    (s.setInterrupts e).gpr cpu i = s.gpr cpu i := rfl

@[simp] theorem setGpr_mem (s : Machine M) (cpu : CpuPtr) (i : Fin 32) (x : Word) :
    (s.setGpr cpu i x).mem = s.mem := rfl

@[simp] theorem setGpr_interruptsEnabled (s : Machine M) (cpu : CpuPtr) (i : Fin 32) (x : Word) :
    (s.setGpr cpu i x).interruptsEnabled = s.interruptsEnabled := rfl

@[simp] theorem setGpr_gpr (s : Machine M) (cpu cpu' : CpuPtr) (i j : Fin 32) (x : Word) :
    (s.setGpr cpu i x).gpr cpu' j = if cpu' = cpu ∧ j = i then x else s.gpr cpu' j := by
  by_cases h : cpu' = cpu
  · subst h
    simp [setGpr, gpr, onCpu]
  · simp [setGpr, gpr, onCpu, h]

end Machine

/-! ## Native routines -/

/-- How the process stops: an access outside the mapped regions, a reported
boundary, or a loop without end. -/
inductive Stop where
  | memoryFault (address : Word)
  | boundary (kind : String) (target : Word)
  | diverge
deriving DecidableEq

/-- Why a native routine gives the machine away: it calls guest code on its own
host stack, it jumps to guest code there for good, or it switches to another host
context. -/
inductive Away where
  | guest (target : Word) (cpu : CpuPtr)
  | jump (target : Word) (cpu : CpuPtr)
  | host (target : Handle)
deriving DecidableEq

abbrev OS := Routine (Machine Memory) Stop Away

namespace OS

/-- `if (c) { body }`, after which the routine goes on. -/
def onlyIf (c : Bool) (body : OS Unit) : OS Unit := if c then body else pure ()

@[simp] theorem onlyIf_apply (c : Bool) (body : OS Unit) (s : Machine Memory) :
    onlyIf c body s = if c then body s else .ret () s := by
  unfold onlyIf
  split <;> rfl

/-! ### Guest memory -/

def read32 (address : Word) : OS Word := fun s =>
  match s.mem.read32 address with
  | none => .stop (.memoryFault address) s
  | some x => .ret x s

def read16 (address : Word) : OS Half := fun s =>
  match s.mem.read16 address with
  | none => .stop (.memoryFault address) s
  | some x => .ret x s

def write32 (address value : Word) : OS Unit := fun s =>
  match s.mem.write32 address value with
  | none => .stop (.memoryFault address) s
  | some m => .ret () (s.withMem m)

def read8 (address : Word) : OS Byte := fun s =>
  match s.mem.read8 address with
  | none => .stop (.memoryFault address) s
  | some x => .ret x s

def write8 (address : Word) (value : Byte) : OS Unit := fun s =>
  match s.mem.write8 address value with
  | none => .stop (.memoryFault address) s
  | some m => .ret () (s.withMem m)

def write16 (address : Word) (value : Half) : OS Unit := fun s =>
  match s.mem.write16 address value with
  | none => .stop (.memoryFault address) s
  | some m => .ret () (s.withMem m)

/-- `Memory::Contains`. -/
def contains (address : Word) (length : Word64) : OS Bool :=
  Routine.gets fun s => s.mem.contains address length

/-- `Memory::IsInitialized`. -/
def isInitialized : OS Bool := Routine.gets fun s => s.mem.initialized

/-- `Mapped32` and `Mapped16` of the bridges. -/
def mapped32 (address : Word) : OS Bool := do
  if ← isInitialized then contains address 4#64 else pure false

def mapped16 (address : Word) : OS Bool := do
  if ← isInitialized then contains address 2#64 else pure false

/-- Every word of the list is mapped; the check stops at the first that is not. -/
def allMapped32 : List Word → OS Bool
  | [] => pure true
  | a :: rest => do
    if ← mapped32 a then allMapped32 rest else pure false

theorem read32_ret {s : Machine Memory} {a x : Word} (h : s.mem.read32 a = some x) :
    read32 a s = .ret x s := by
  unfold read32
  rw [h]

theorem read16_ret {s : Machine Memory} {a : Word} {x : Half} (h : s.mem.read16 a = some x) :
    read16 a s = .ret x s := by
  unfold read16
  rw [h]

theorem write32_ret {s : Machine Memory} {a x : Word} {m : Memory}
    (h : s.mem.write32 a x = some m) : write32 a x s = .ret () (s.withMem m) := by
  unfold write32
  rw [h]

theorem write16_ret {s : Machine Memory} {a : Word} {x : Half} {m : Memory}
    (h : s.mem.write16 a x = some m) : write16 a x s = .ret () (s.withMem m) := by
  unfold write16
  rw [h]

theorem write8_ret {s : Machine Memory} {a : Word} {x : Byte} {m : Memory}
    (h : s.mem.write8 a x = some m) : write8 a x s = .ret () (s.withMem m) := by
  unfold write8
  rw [h]

@[simp] theorem contains_apply (a : Word) (n : Word64) (s : Machine Memory) :
    contains a n s = .ret (s.mem.contains a n) s := rfl

@[simp] theorem isInitialized_apply (s : Machine Memory) :
    isInitialized s = .ret s.mem.initialized s := rfl

theorem mapped32_ret {s : Machine Memory} (h : s.mem.initialized = true) (a : Word) :
    mapped32 a s = .ret (s.mem.contains a 4#64) s := by
  simp [mapped32, h]

theorem mapped16_ret {s : Machine Memory} (h : s.mem.initialized = true) (a : Word) :
    mapped16 a s = .ret (s.mem.contains a 2#64) s := by
  simp [mapped16, h]

/-! ### Registers -/

def getGpr (cpu : CpuPtr) (i : Fin 32) : OS Word := Routine.gets fun s => s.gpr cpu i

def setGpr (cpu : CpuPtr) (i : Fin 32) (x : Word) : OS Unit :=
  Routine.modify fun s => s.setGpr cpu i x

def onCpu (cpu : CpuPtr) (f : CpuContext → CpuContext) : OS Unit :=
  Routine.modify fun s => s.onCpu cpu f

@[simp] theorem getGpr_apply (cpu : CpuPtr) (i : Fin 32) (s : Machine Memory) :
    getGpr cpu i s = .ret (s.gpr cpu i) s := rfl

@[simp] theorem setGpr_apply (cpu : CpuPtr) (i : Fin 32) (x : Word) (s : Machine Memory) :
    setGpr cpu i x s = .ret () (s.setGpr cpu i x) := rfl

@[simp] theorem onCpu_apply (cpu : CpuPtr) (f : CpuContext → CpuContext) (s : Machine Memory) :
    onCpu cpu f s = .ret () (s.onCpu cpu f) := rfl

/-- `mkw_switch_report_unsupported_translated_dispatch` and `std::abort`. -/
def boundary {α : Type} (kind : String) (target : Word) : OS α :=
  Routine.stop (.boundary kind target)

/-! ### Guest code -/

/-- `NonvolatileGprGuard` and `NonvolatileFprGuard`: the register file `now`, with
the nonvolatile registers that the record protects as they were in `old`. -/
def restoreNonvolatile (record : RawDispatchRecord) (old now : CpuContext) : CpuContext :=
  { now with
    gpr := fun i => if record.preserveNonvolatileGprs ∧ 14 ≤ i.val then old.gpr i else now.gpr i
    fpr := fun i =>
      if 14 ≤ i.val ∧ (record.nonvolatileFprWriteMask &&& 0xFFFFC000#32).getLsbD i
        then old.fpr i
      else now.fpr i }

/-- `mkw_switch_try_dispatch_indirect`, to give the machine away as `away`. -/
def tryDispatchIndirect (away : Word → CpuPtr → Away) (target : Word)
    (cpu : CpuPtr) : OS Bool := do
  if cpu = 0 then return false
  match ← Routine.gets fun s => s.dispatch target with
  | none => return false
  | some record =>
    let old ← Routine.gets fun s => s.cpus cpu
    Routine.call (away target cpu)
    onCpu cpu (restoreNonvolatile record old)
    return true

/-- `InvokeIndirectCpu`. -/
def invokeIndirectCpu (target : Word) (cpu : CpuPtr) : OS Unit := do
  if ← tryDispatchIndirect .guest target cpu then return ()
  boundary "INDIRECT_CALL_MISS" target

/-- `InvokeIndirectJump`. -/
def invokeIndirectJump (target : Word) (cpu : CpuPtr) : OS Unit := do
  if ← tryDispatchIndirect .jump target cpu then return ()
  boundary "INDIRECT_JUMP_MISS" target

/-- `InvokeDirectCpu` of a target without a native body. -/
def invokeTranslatedCpu (target : Word) (cpu : CpuPtr) : OS Unit := do
  match ← Routine.gets fun s => s.translated target with
  | none => boundary "DIRECT" target
  | some nonvolatileFprWriteMask =>
    let old ← Routine.gets fun s => s.cpus cpu
    Routine.call (.guest target cpu)
    onCpu cpu (restoreNonvolatile ⟨false, nonvolatileFprWriteMask⟩ old)

end OS

end wii_switch
