-- The video interface (source/vi_init_hle_bridge.cpp, source/vi_configure_hle_bridge.cpp).
-- VIConfigure and VISetBlack change a pending state, VIFlush arms it, and the next
-- retrace makes it the active one. Every entry point starts with VIInit, which does its work
-- once. Catch clauses are not modelled: no access behind a check fails.
import WiiSwitch.Machine

namespace wii_switch

open Bytes OS

/-! ## The state -/

/-- The globals of both files, the clock of the host by its readings, and how long the host
was asked to sleep, newest first. -/
structure ViState where
  initialized : Bool
  pendingBlack : Bool
  black : Bool
  pendingNextFrameBuffer : Word
  nextFrameBuffer : Word
  activeTvFormat : Word
  retraceCount : Word
  fieldOdd : Bool
  flushArmed : Bool
  lastRetraceNs : Int
  pendingTvFormat : Word
  pendingRenderWidth : Word
  pendingRenderHeight : Word
  pendingViXOrigin : Word
  pendingViYOrigin : Word
  pendingXfbWidth : Word
  pendingXfbHeight : Word
  clock : Nat → Int
  asked : Nat
  slept : List Int

/-- The state at the start of the process. -/
def ViState.start (clock : Nat → Int) : ViState where
  initialized := false
  pendingBlack := false
  black := false
  pendingNextFrameBuffer := 0#32
  nextFrameBuffer := 0#32
  activeTvFormat := 0#32
  retraceCount := 0#32
  fieldOdd := false
  flushArmed := false
  lastRetraceNs := 0
  pendingTvFormat := 0#32
  pendingRenderWidth := 640#32
  pendingRenderHeight := 480#32
  pendingViXOrigin := 0#32
  pendingViYOrigin := 0#32
  pendingXfbWidth := 640#32
  pendingXfbHeight := 480#32
  clock := clock
  asked := 0
  slept := []

/-- A routine over the machine and the video state. -/
abbrev VI := Routine (Machine Memory × ViState) Stop Away

namespace VI

/-- A routine of the machine leaves the video state, but the outside may change it. -/
def lift {α : Type} (r : OS α) : VI α := fun p => (r p.1).beside p.2

def gets {α : Type} (f : ViState → α) : VI α := Routine.gets fun p => f p.2

def modify (f : ViState → ViState) : VI Unit := Routine.modify fun p => (p.1, f p.2)

instance : MonadLift OS VI := ⟨lift⟩

/-- `NowNs`. -/
def nowNs : VI Int := do
  let now ← gets fun v => v.clock v.asked
  modify fun v => { v with asked := v.asked + 1 }
  return now

def svcSleepThread (ns : Int) : VI Unit := modify fun v => { v with slept := ns :: v.slept }

end VI

/-! ## Guest words -/

def kViInitializedFlagAddr : Word := 0x80386B38#32
def kViTimingGuardAddr : Word := 0x80386B44#32
def kViTvFormatAddr : Word := 0x80386BA8#32
def kViRenderWidthAddr : Word := 0x80350864#32
def kViRenderHeightAddr : Word := 0x80350866#32
def kViXfbWidthAddr : Word := 0x80350872#32
def kViXfbHeightAddr : Word := 0x8035087C#32
def kViRetraceCountAddr : Word := 0x80386BE4#32
def kViPreRetraceCallbackAddr : Word := 0x80386BB8#32
def kViPostRetraceCallbackAddr : Word := 0x80386BB4#32
def kViNextFrameBufferAddr : Word := 0x80386BA0#32
def kViNextFrameBufferHwAddr : Word := 0x80350890#32
def kViRetraceQueueAddr : Word := 0x80386BC0#32
def kEggSSystemAddr : Word := 0x80386F60#32
def kOSWakeupThreadFunction : Word := 0x801AAAA4#32

def kNtscRetraceNs : Int := 16666000
def kPalRetraceNs : Int := 20000000

/-- `RetraceIntervalNs`. -/
def retraceIntervalNs (tvFormat : Word) : Int :=
  if tvFormat = 1#32 then kPalRetraceNs else kNtscRetraceNs

def write8IfMapped (address : Word) (value : Byte) : OS Unit := do
  if ← contains address 1#64 then write8 address value

def write16IfMapped (address : Word) (value : Half) : OS Unit := do
  if ← contains address 2#64 then write16 address value

def write32IfMapped (address value : Word) : OS Unit := do
  if ← contains address 4#64 then write32 address value

def read32IfMapped (address : Word) : OS Word := do
  if ← contains address 4#64 then read32 address else return 0#32

/-! ## VIInit -/

/-- The defaults that the guest sees. -/
def writeViDefaults : OS Unit := do
  write8IfMapped kViInitializedFlagAddr 1#8
  write8IfMapped kViTimingGuardAddr 1#8
  write32IfMapped kViTvFormatAddr 0#32
  write16IfMapped kViRenderWidthAddr 640#16
  write16IfMapped kViRenderHeightAddr 480#16
  write16IfMapped kViXfbWidthAddr 640#16
  write16IfMapped kViXfbHeightAddr 480#16
  write32IfMapped kViRetraceCountAddr 0#32
  write32IfMapped kViPreRetraceCallbackAddr 0#32
  write32IfMapped kViPostRetraceCallbackAddr 0#32
  write32IfMapped kViNextFrameBufferAddr 0#32
  write32IfMapped kViNextFrameBufferHwAddr 0#32

/-- `cpu->gpr[3] = 0`, when there is a register file. -/
def clearResult (cpu : CpuPtr) : OS Unit := if cpu = 0 then pure () else setGpr cpu 3 0#32

open VI

/-- `VIInit`. -/
def viInit (cpu : CpuPtr) : VI Unit := do
  clearResult cpu
  let ready ← isInitialized
  let initialized ← gets (·.initialized)
  if ready = false ∨ initialized = true then return ()
  modify fun v => { v with initialized := true }
  writeViDefaults
  let now ← nowNs
  modify fun v => { v with
    activeTvFormat := 0#32, retraceCount := 0#32, fieldOdd := false, lastRetraceNs := now }

/-! ## The pending state -/

/-- `VISetBlack`. -/
def viSetBlack (cpu : CpuPtr) : VI Unit := do
  if cpu = 0 then return ()
  let black ← getGpr cpu 3
  viInit cpu
  modify fun v => { v with pendingBlack := decide (black ≠ 0#32) }
  setGpr cpu 3 0#32

def kRenderModeBytes : Word64 := 0x39#64

/-- What VIConfigure reads of a `GXRenderModeObj`. -/
structure RenderMode where
  tvMode : Word
  fbWidth : Half
  efbHeight : Half
  xfbHeight : Half
  viXOrigin : Half
  viYOrigin : Half
  viWidth : Half
  viHeight : Half

def readRenderMode (ptr : Word) : OS RenderMode := do
  let tvMode ← read32 (ptr + 0x00#32)
  let fbWidth ← read16 (ptr + 0x04#32)
  let efbHeight ← read16 (ptr + 0x06#32)
  let xfbHeight ← read16 (ptr + 0x08#32)
  let viXOrigin ← read16 (ptr + 0x0A#32)
  let viYOrigin ← read16 (ptr + 0x0C#32)
  let viWidth ← read16 (ptr + 0x0E#32)
  let viHeight ← read16 (ptr + 0x10#32)
  return ⟨tvMode, fbWidth, efbHeight, xfbHeight, viXOrigin, viYOrigin, viWidth, viHeight⟩

/-- The pending state of a render mode. -/
def ViState.configured (v : ViState) (m : RenderMode) : ViState :=
  { v with
    pendingTvFormat := (m.tvMode >>> 2) &&& 0x7#32
    pendingRenderWidth := if m.viWidth ≠ 0#16 then m.viWidth.setWidth 32
      else m.fbWidth.setWidth 32
    pendingRenderHeight :=
      if m.viHeight ≠ 0#16 then m.viHeight.setWidth 32 else m.xfbHeight.setWidth 32
    pendingViXOrigin := m.viXOrigin.setWidth 32
    pendingViYOrigin := m.viYOrigin.setWidth 32
    pendingXfbWidth := m.fbWidth.setWidth 32
    pendingXfbHeight :=
      if m.xfbHeight ≠ 0#16 then m.xfbHeight.setWidth 32 else m.efbHeight.setWidth 32 }

/-- `VIConfigure`. -/
def viConfigure (cpu : CpuPtr) : VI Unit := do
  if cpu = 0 then return ()
  let ptr ← getGpr cpu 3
  let ready ← isInitialized
  let mapped ← contains ptr kRenderModeBytes
  if ready = false ∨ ptr = 0#32 ∨ mapped = false then setGpr cpu 3 0#32
  else
    let mode ← readRenderMode ptr
    viInit cpu
    modify fun v => v.configured mode
    setGpr cpu 3 0#32

/-- The pending framebuffer from the guest words, when there is none. -/
def recoverNextFrameBuffer : VI Unit := do
  let ready ← isInitialized
  let pending ← gets (·.pendingNextFrameBuffer)
  if ready = false ∨ pending ≠ 0#32 then return ()
  let first ← read32IfMapped kViNextFrameBufferAddr
  let next ← if first = 0#32 then read32IfMapped kViNextFrameBufferHwAddr else pure first
  if next = 0#32 then return ()
  modify fun v => { v with pendingNextFrameBuffer := next }

/-- `VIFlush`. -/
def viFlush (cpu : CpuPtr) : VI Unit := do
  viInit cpu
  recoverNextFrameBuffer
  modify fun v => { v with flushArmed := true }
  clearResult cpu

/-! ## The retrace -/

/-- `mkw_switch_hle_vi_commit_pending_config`. -/
def viCommitPendingConfig : VI Word := do
  let v ← gets id
  let ready ← isInitialized
  if ready = true then
    write32IfMapped kViTvFormatAddr v.pendingTvFormat
    write16IfMapped kViRenderWidthAddr (v.pendingRenderWidth.setWidth 16)
    write16IfMapped kViRenderHeightAddr (v.pendingRenderHeight.setWidth 16)
    write16IfMapped kViXfbWidthAddr (v.pendingXfbWidth.setWidth 16)
    write16IfMapped kViXfbHeightAddr (v.pendingXfbHeight.setWidth 16)
    return v.pendingTvFormat
  else return v.pendingTvFormat

/-- The wait for the deadline, which becomes the time of the last retrace. -/
def paceRetrace : VI Int := do
  let v ← gets id
  let targetNs := v.lastRetraceNs + retraceIntervalNs v.activeTvFormat
  let now ← nowNs
  if now < targetNs then
    svcSleepThread (targetNs - now)
    return targetNs
  else return targetNs

/-- The pending state becomes the active one, when a flush armed it. -/
def commitArmed : VI Unit := do
  let armed ← gets (·.flushArmed)
  modify fun v => { v with flushArmed := false }
  if armed = false then return ()
  let tvFormat ← viCommitPendingConfig
  modify fun v => { v with
    activeTvFormat := tvFormat, black := v.pendingBlack,
    nextFrameBuffer := v.pendingNextFrameBuffer }

/-- One retrace more, for the guest too. -/
def publishRetrace (targetNs : Int) : VI Word := do
  modify fun v => { v with
    retraceCount := v.retraceCount + 1#32, fieldOdd := !v.fieldOdd, lastRetraceNs := targetNs }
  let v ← gets id
  write32IfMapped kViRetraceCountAddr v.retraceCount
  write32IfMapped kViNextFrameBufferAddr v.pendingNextFrameBuffer
  write32IfMapped kViNextFrameBufferHwAddr v.pendingNextFrameBuffer
  return v.retraceCount

/-- The wakeup of the sleepers on the retrace queue. -/
def wakeRetraceQueue (cpu : CpuPtr) : OS Unit := do
  let queueHead ← read32IfMapped kViRetraceQueueAddr
  let queueTail ← read32IfMapped (kViRetraceQueueAddr + 4#32)
  if queueHead = 0#32 ∧ queueTail = 0#32 then return ()
  setGpr cpu 3 kViRetraceQueueAddr
  invokeTranslatedCpu kOSWakeupThreadFunction cpu

/-- The callbacks of the guest, with the retrace count in r3. -/
def runRetraceCallbacks (cpu : CpuPtr) (retraceValue : Word) : OS Unit := do
  let preCallback ← read32IfMapped kViPreRetraceCallbackAddr
  let postCallback ← read32IfMapped kViPostRetraceCallbackAddr
  setGpr cpu 3 retraceValue
  onlyIf (decide (preCallback ≠ 0#32)) (invokeIndirectCpu preCallback cpu)
  let system ← if postCallback = 0#32 then pure 0#32 else read32IfMapped kEggSSystemAddr
  onlyIf (decide (system ≠ 0#32)) (invokeIndirectCpu postCallback cpu)

/-- `VIWaitForRetrace`. -/
def viWaitForRetrace (cpu : CpuPtr) : VI Unit := do
  if cpu = 0 then return ()
  viInit cpu
  let targetNs ← paceRetrace
  commitArmed
  let retraceValue ← publishRetrace targetNs
  wakeRetraceQueue cpu
  runRetraceCallbacks cpu retraceValue
  setGpr cpu 3 0#32

end wii_switch
