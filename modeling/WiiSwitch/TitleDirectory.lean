-- NANDInit and DVDInit (include/switch_nand_hle_traits.hpp, include/switch_dvd_hle_traits.hpp).
-- NANDInit publishes the data directory of the title to the guest, and DVDInit writes the disc
-- header. Each of them has its own test for a game code. The host directory that NANDInit
-- creates is not modelled.
import WiiSwitch.NandFiles

namespace wii_switch

open Bytes OS Routine

def kDiscHeader : Word := 0x80000000#32

/-! ## NANDInit -/

namespace NandInit

def kTitleIdHi : Word := 0x00010004#32
def kPalTitleIdLo : Word := 0x524D4350#32
def kNandHomeDirAddr : Word := 0x80346D20#32
def kNandInitializedAddr : Word := 0x80386848#32
def kNandInitializedValue : Word := 2#32
def kNandResultOk : Word := 0#32
def kNandResultInvalid : Word := 0xFFFFFFF8#32

/-- `std::isalnum` of the "C" locale: a letter or a digit. -/
def isalnum (ch : Byte) : Bool :=
  (0x61#8 ≤ ch ∧ ch ≤ 0x7A#8) ∨ (0x41#8 ≤ ch ∧ ch ≤ 0x5A#8) ∨
    (0x30#8 ≤ ch ∧ ch ≤ 0x39#8)

/-- `IsValidGameCode`. -/
def isValidGameCode (code : Word) : Bool :=
  [24, 16, 8, 0].all fun shift => isalnum ((code >>> shift).setWidth 8)

/-- `CurrentGameCode`. -/
def currentGameCode : OS Word := do
  if ← contains kDiscHeader 4#64 then
    let code ← read32 kDiscHeader
    if isValidGameCode code then return code
  return kPalTitleIdLo

/-- `CurrentNandDataDir`. -/
def currentNandDataDir (gameCode : Word) : List Byte :=
  ascii "/title/" ++ hexWord kTitleIdHi ++ ascii "/" ++ hexWord gameCode ++ ascii "/data"

/-- Bytes one after the other. -/
def writeBytes (address : Word) : List Byte → OS Unit
  | [] => return ()
  | ch :: rest => do
    write8 address ch
    writeBytes (address + 1#32) rest

/-- `WriteGuestCString`. -/
def writeGuestCString (address : Word) (value : List Byte) : OS Bool := do
  if ← contains address (BitVec.ofNat 64 (value.length + 1)) then
    writeBytes address (value ++ [0#8])
    return true
  return false

end NandInit

open NandInit in
/-- `NANDInit`. -/
def nandInit (cpu : CpuPtr) : OS Unit := do
  if cpu = 0 then return ()
  let gameCode ← NandInit.currentGameCode
  let dataDir := currentNandDataDir gameCode
  let written ← writeGuestCString kNandHomeDirAddr dataDir
  let mapped ← contains kNandInitializedAddr 4#64
  if written = false ∨ mapped = false then setGpr cpu 3 kNandResultInvalid
  else
    write32 kNandInitializedAddr kNandInitializedValue
    setGpr cpu 3 kNandResultOk

/-! ## DVDInit -/

namespace DvdInit

/-- `IsGameCodeByte`. -/
def isGameCodeByte (value : Byte) : Bool :=
  (0x41#8 ≤ value ∧ value ≤ 0x5A#8) ∨ (0x30#8 ≤ value ∧ value ≤ 0x39#8)

def kPalFallback : Word := 0x524D4350#32

/-- The game code in the word of the disc header, or the fallback. -/
def discGameCode (value : Word) : Word :=
  if [24, 16, 8, 0].all fun shift => isGameCodeByte ((value >>> shift).setWidth 8) then value
  else kPalFallback

/-- `CurrentDiscGameCode`. -/
def currentDiscGameCode : OS Word := do
  if ← contains kDiscHeader 4#64 then
    let value ← read32 kDiscHeader
    return discGameCode value
  return kPalFallback

def kFstAddressLowMem : Word := 0x80000038#32
def kFstSizeLowMem : Word := 0x8000003C#32
def kMaxRuntimeFstSize : Word := 0x00200000#32

/-- `HasPublishedFst`. -/
def hasPublishedFst : OS Bool := do
  unless ← contains kFstAddressLowMem 8#64 do return false
  let fstAddress ← read32 kFstAddressLowMem
  let fstSize ← read32 kFstSizeLowMem
  if fstAddress = 0 ∨ fstSize < 12 ∨ kMaxRuntimeFstSize < fstSize then return false
  unless ← contains fstAddress (fstSize.setWidth 64) do return false
  let rootWord ← read32 fstAddress
  let entryCount ← read32 (fstAddress + 8)
  return rootWord &&& 0xFF000000 = 0x01000000 ∧ entryCount ≠ 0 ∧ entryCount ≤ 0x00010000

/-- The four ranges of `GuestBootstrapRangesAvailable`. -/
def bootstrapRanges : List (Word × Word64) :=
  [(0x80000000#32, 7#64), (0x80343230#32, 0x20#64), (0x803434E0#32, 0x80#64),
    (0x80386664#32, 0xC2#64)]

/-- `GuestBootstrapRangesAvailable`. -/
def guestBootstrapRangesAvailable : OS Bool :=
  Routine.gets fun s => bootstrapRanges.all fun r => s.mem.contains r.1 r.2

/-- The loops over the four queues and the four contexts, from `i` on. -/
def forEachFrom (i : Nat) (body : Word → OS Unit) : Nat → OS Unit
  | 0 => return ()
  | n + 1 => do
    body (BitVec.ofNat 32 i)
    forEachFrom (i + 1) body n

/-- `InitializeWaitingQueues`. -/
def initializeWaitingQueues : OS Unit :=
  forEachFrom 0 (fun i => do
    let queue := 0x80343230#32 + i * 8
    write32 (queue + 0) queue
    write32 (queue + 4) queue) 4

/-- `InitializeCancelState`. -/
def initializeCancelState : OS Unit := do
  initializeWaitingQueues
  write32 0x80386664 0
  write32 0x80386668 0
  write32 0x80386670 0
  write32 0x8038667C 1
  write32 0x803866A8 1
  write32 0x803866F0 0

/-- `InitializeContexts`. -/
def initializeContexts : OS Unit :=
  forEachFrom 0 (fun i => do
    let context := 0x803434E0#32 + i * 0x20
    write32 (context + 0x0C) 0xFEEBDAED
    write32 (context + 0x10) i) 4

/-- `InitializeDiscHeader`. -/
def initializeDiscHeader : OS Unit := do
  write32 (kDiscHeader + 0) (← currentDiscGameCode)
  write16 (kDiscHeader + 4) 0x3031
  write8 (kDiscHeader + 6) 1

def kDvdInitCalled : Word := 0x803866A0#32
def kDvdFsInitAddress : Word := 0x8015DF1C#32

/-- The part of `DVDInit` behind its guards. -/
def bootstrap (cpu : CpuPtr) : OS Unit := do
  write8 0x80386724 1
  write8 0x80386725 1
  write32 0x80386720 0
  initializeCancelState
  initializeContexts
  initializeDiscHeader
  if ← hasPublishedFst then invokeIndirectCpu kDvdFsInitAddress cpu
  write8 kDvdInitCalled 1

end DvdInit

open DvdInit in
/-- `DVDInit`. The static flag `initializing` is set while `bootstrap` runs. -/
def dvdInit (initializing : Bool) (cpu : CpuPtr) : OS Unit := do
  if cpu = 0 then return ()
  unless ← guestBootstrapRangesAvailable do return ()
  if (← read8 kDvdInitCalled) ≠ 0 then return ()
  if initializing then return ()
  bootstrap cpu

end wii_switch
