-- The synchronous NAND calls (source/switch_nand_open_runtime.cpp). The runtime keeps a
-- table from fd numbers to host streams, and the guest keeps the fd and an open flag in
-- its NANDFileInfo. No exception but that of the table's allocation is modelled.
import WiiSwitch.Machine
import WiiSwitch.NandPaths

namespace wii_switch

open Bytes OS Routine

namespace Nand

def kResultOk : Word := 0#32
def kResultInvalid : Word := 0xFFFFFFF8#32
def kResultNoExists : Word := 0xFFFFFFF4#32
def kResultUnknown : Word := 0xFFFFFFC0#32
def kOpenFlagOffset : Word := 0x8A#32

/-- Change the globals of the runtime. -/
def modify (f : NandRuntime → NandRuntime) : OS Unit :=
  Routine.modify fun s => { s with nand := f s.nand }

def gets {α : Type} (f : NandRuntime → α) : OS α := Routine.gets fun s => f s.nand

@[simp] theorem modify_apply (f : NandRuntime → NandRuntime) (s : Machine Memory) :
    modify f s = .ret () { s with nand := f s.nand } := rfl

@[simp] theorem gets_apply {α : Type} (f : NandRuntime → α) (s : Machine Memory) :
    gets f s = .ret (f s.nand) s := rfl

/-! ## The host -/

/-- The next answer of the host. -/
def ask : OS HostAnswer := do
  let answer ← gets fun n => n.answers n.asked
  modify fun n => { n with asked := n.asked + 1 }
  return answer

def record (event : FileEvent) : OS Unit := modify fun n => { n with events := event :: n.events }

/-- `std::fopen`. -/
def fopen (path : HostPath) (mode : OpenMode) : OS Stream := do
  let answer ← ask
  let file ← if answer.fails then pure 0 else gets (·.nextStream)
  modify fun n => { n with nextStream := if file = 0 then n.nextStream else n.nextStream + 1 }
  record (.fopen path mode file)
  return file

/-- `std::fread` of bytes into the buffer at a host pointer. -/
def fread (buffer : HostPtr) (length : Word) (file : Stream) : OS Word := do
  let answer ← ask
  let bytes := answer.bytes.take length.toNat
  record (.fread file length)
  fun s =>
    match s.mem.host.store buffer bytes.length fun i => bytes.getD i 0 with
    | none => .stop (.boundary "FREAD" 0) s
    | some host => .ret () (s.withMem { s.mem with host := host })
  return BitVec.ofNat 32 bytes.length

/-- `std::fclose`; true when it reports an error. The stream is closed either way. -/
def fclose (file : Stream) : OS Bool := do
  let answer ← ask
  record (.fclose file)
  return answer.fails

/-! ## The calls -/

/-- `ReadGuestCString` from a byte on, with `n` bytes left to look at. -/
def readCString (current : Word) : Nat → OS (Option (List Byte))
  | 0 => return none
  | n + 1 => do
    if ← contains current 1#64 then
      let ch ← read8 current
      if ch = 0#8 then return some []
      let rest ← readCString (current + 1) n
      return rest.map (ch :: ·)
    return none

/-- `ReadGuestCString`. -/
def readGuestCString (address : Word) : OS (Option (List Byte)) := do
  if address = 0 then return none
  let out ← readCString address 1024
  return out.filter (· ≠ [])

/-- `HostPath` of the normalized guest path. -/
def hostPathOf (guestPath : List Byte) : OS HostPath := do
  let low ← Routine.gets fun s => s.mem.read32 0x80000000#32
  return hostPath (fun path part => path ++ [part]) []
    (normalize (currentDataDir (currentGameCode low)) guestPath)

/-- The open of a host file for a mode of the guest. -/
def openHost (path : HostPath) (mode : Word) : OS Stream := do
  if mode = 1 then fopen path .rb
  else
    let file ← fopen path .rplusb
    if file ≠ 0 then return file
    fopen path .wplusb

/-- A new entry of the table; false when its allocation throws. -/
def emplace (fd : Word) (handle : FileHandle) : OS Bool := do
  let answer ← ask
  if answer.fails then return false
  modify fun n => { n with
    fileHandles := fun k => if k = fd ∧ n.fileHandles fd = none then some handle
      else n.fileHandles k }
  record (.issue fd handle.file)
  return true

/-- `OpenSync`. -/
def openSync (pathPtr fileInfoPtr mode : Word) : OS Word := do
  let mapped ← contains fileInfoPtr ((kOpenFlagOffset + 1).setWidth 64)
  if fileInfoPtr = 0 ∨ mapped = false ∨ (mode ≠ 1 ∧ mode ≠ 2 ∧ mode ≠ 3) then
    return kResultInvalid
  match ← readGuestCString pathPtr with
  | none => return kResultInvalid
  | some guestPath =>
    let path ← hostPathOf guestPath
    let file ← openHost path mode
    if file = 0 then return if mode = 1 then kResultNoExists else kResultUnknown
    let fd ← gets (·.nextFd)
    modify fun n => { n with nextFd := n.nextFd + 1 }
    if ← emplace fd ⟨file, path, mode⟩ then
      write32 fileInfoPtr fd
      write8 (fileInfoPtr + kOpenFlagOffset) 1#8
      return kResultOk
    return kResultInvalid

/-- `ReadSync`. -/
def readSync (fileInfoPtr bufferPtr length : Word) : OS Word := do
  let mapped ← contains fileInfoPtr 4#64
  let room ← contains bufferPtr (if length = 0 then 1#64 else length.setWidth 64)
  if fileInfoPtr = 0 ∨ mapped = false ∨ bufferPtr = 0 ∨ room = false
    then return kResultInvalid
  match ← Routine.gets fun s => s.mem.getPointer bufferPtr 1#64 with
  | none => return kResultInvalid
  | some buffer =>
    let fd ← read32 fileInfoPtr
    match ← gets fun n => n.fileHandles fd with
    | none => return kResultInvalid
    | some handle =>
      if handle.file = 0 then return kResultInvalid
      fread buffer length handle.file

/-- The close of the entry of an fd; false when the close reports an error. -/
def closeFd (fd : Word) : OS Bool := do
  match ← gets fun n => n.fileHandles fd with
  | none => return true
  | some handle =>
    let fails ← if handle.file = 0 then pure false else fclose handle.file
    if fails then return false
    modify fun n => { n with fileHandles := fun k => if k = fd then none else n.fileHandles k }
    return true

/-- `CloseSync`. -/
def closeSync (fileInfoPtr : Word) : OS Word := do
  let mapped ← contains fileInfoPtr ((kOpenFlagOffset + 1).setWidth 64)
  if fileInfoPtr = 0 ∨ mapped = false then return kResultInvalid
  let flag ← read8 (fileInfoPtr + kOpenFlagOffset)
  if flag ≠ 1#8 then return kResultInvalid
  let fd ← read32 fileInfoPtr
  if ← closeFd fd then
    write8 (fileInfoPtr + kOpenFlagOffset) 0#8
    return kResultOk
  return kResultUnknown

/-! ## What the calls leave alone -/

theorem alone_read8 (a : Word) : Alone (·.nand) (read8 a) := fun s => by
  unfold read8
  cases s.mem.read8 a with
  | none => trivial
  | some x => rfl

theorem alone_read32 (a : Word) : Alone (·.nand) (read32 a) := fun s => by
  unfold read32
  cases s.mem.read32 a with
  | none => trivial
  | some x => rfl

theorem alone_write8 (a : Word) (x : Byte) : Alone (·.nand) (write8 a x) := fun s => by
  unfold write8
  cases s.mem.write8 a x with
  | none => trivial
  | some m => rfl

theorem alone_write32 (a x : Word) : Alone (·.nand) (write32 a x) := fun s => by
  unfold write32
  cases s.mem.write32 a x with
  | none => trivial
  | some m => rfl

theorem alone_readCString (a : Word) (i : Nat) : Alone (·.nand) (readCString a i) := by
  induction i generalizing a with
  | zero => exact alone_pure none
  | succ i ih =>
    refine alone_bind (alone_gets _) fun mapped => alone_ite ?_ (alone_pure none)
    refine alone_bind (alone_read8 a) fun ch => alone_ite (alone_pure _) ?_
    exact alone_bind (ih (a + 1)) fun rest => alone_pure _

theorem alone_readGuestCString (a : Word) : Alone (·.nand) (readGuestCString a) :=
  alone_ite (alone_pure none) (alone_bind (alone_readCString a 1024) fun _ => alone_pure _)

theorem alone_hostPathOf (path : List Byte) : Alone (·.nand) (hostPathOf path) :=
  alone_bind (alone_gets _) fun _ => alone_pure _

end Nand

end wii_switch
