-- The interrupt state (source/ppc_runtime_helpers_bridge.cpp) and the context
-- calls that share it (include/switch_native_hle_traits.hpp). The host flag is
-- the state; bit 1 of the mode halfword of the current guest context mirrors it.
import WiiSwitch.Machine

namespace wii_switch

def kOSPhysicalContextAddr : Word := 0x800000C0#32
def kOSCurrentContextAddr : Word := 0x800000D4#32
def kOSExceptionContextAddr : Word := 0x800000D8#32
def kContextStateFlagsOffset : Word := 0x19C#32
def kContextModeOffset : Word := 0x1A0#32
def kContextModeFlagsOffset : Word := 0x1A2#32
def kInterruptsEnabledBit : Half := 0x0002#16
def kInterruptHandlerTablePtrAddr : Word := 0x803868F8#32
def kInterruptHandlerTableAddr : Word := 0x80003040#32
def kInterruptHandlerTableBytes : Nat := 0x80
def kInterruptMaskLoAddr : Word := 0x800000C4#32
def kInterruptMaskHiAddr : Word := 0x800000C8#32

namespace OS

/-- The mode flags with the interrupt bit as given. -/
def withInterruptBit (enabled : Bool) (modeFlags : Half) : Half :=
  if enabled then modeFlags ||| kInterruptsEnabledBit
  else modeFlags &&& ~~~kInterruptsEnabledBit

def updateCurrentContextInterruptFlag (enabled : Bool) : OS Unit := do
  unless ← mapped32 kOSCurrentContextAddr do return ()
  let currentContext ← read32 kOSCurrentContextAddr
  if currentContext = 0#32 then return ()
  let modeFlagsAddr := currentContext + kContextModeFlagsOffset
  unless ← contains modeFlagsAddr 2#64 do return ()
  let modeFlags ← read16 modeFlagsAddr
  let updated := withInterruptBit enabled modeFlags
  onlyIf (updated ≠ modeFlags) do write16 modeFlagsAddr updated

/-- The interrupt state as a register value. -/
def stateWord (enabled : Bool) : Word := if enabled then 1#32 else 0#32

/-- `g_interruptsEnabled.exchange`, the mirror, and the old state in r3. -/
def exchangeInterrupts (cpu : CpuPtr) (enabled : Bool) : OS Unit := do
  let previous ← Routine.gets fun s => s.interruptsEnabled
  Routine.modify fun s => s.setInterrupts enabled
  updateCurrentContextInterruptFlag enabled
  onlyIf (cpu ≠ 0) do setGpr cpu 3 (stateWord previous)

def osDisableInterrupts (cpu : CpuPtr) : OS Unit := exchangeInterrupts cpu false

def osEnableInterrupts (cpu : CpuPtr) : OS Unit := exchangeInterrupts cpu true

def osRestoreInterrupts (cpu : CpuPtr) : OS Unit := do
  let r3 ← getGpr cpu 3
  exchangeInterrupts cpu (cpu ≠ 0 ∧ r3 ≠ 0#32)

/-- Write zeros over the handler table, a word at a time. -/
def clearHandlerTable : List Nat → OS Unit
  | [] => pure ()
  | i :: rest => do
    write32 (kInterruptHandlerTableAddr + BitVec.ofNat 32 (4 * i)) 0#32
    clearHandlerTable rest

/-- The guest words that `osInterruptInit` writes, each when it is mapped. -/
def initInterruptWords : OS Unit := do
  onlyIf (← contains kInterruptHandlerTablePtrAddr 4#64) do
    write32 kInterruptHandlerTablePtrAddr kInterruptHandlerTableAddr
  onlyIf (← contains kInterruptHandlerTableAddr (BitVec.ofNat 64 kInterruptHandlerTableBytes)) do
    clearHandlerTable (List.range (kInterruptHandlerTableBytes / 4))
  onlyIf (← contains kInterruptMaskLoAddr 4#64) do write32 kInterruptMaskLoAddr 0#32
  onlyIf (← contains kInterruptMaskHiAddr 4#64) do write32 kInterruptMaskHiAddr 0#32

def osInterruptInit (cpu : CpuPtr) : OS Unit := do
  Routine.modify Machine.resetInterrupts
  onlyIf (← isInitialized) initInterruptWords
  onlyIf (cpu ≠ 0) do setGpr cpu 3 0#32

def osClearContext (cpu : CpuPtr) : OS Unit := do
  if cpu = 0 then return ()
  let contextAddr ← getGpr cpu 3
  if contextAddr = 0#32 then return ()
  write16 (contextAddr + kContextModeOffset) 0#16
  write16 (contextAddr + kContextModeFlagsOffset) 0#16
  onlyIf ((← read32 kOSExceptionContextAddr) = contextAddr) do
    write32 kOSExceptionContextAddr 0#32

/-- `MkwSwitchQueryInterruptsEnabled`. -/
def queryInterruptsEnabled (cpu : CpuPtr) : OS Bool := do
  if cpu = 0 then return false
  let savedR3 ← getGpr cpu 3
  osDisableInterrupts cpu
  let enabled := (← getGpr cpu 3) ≠ 0#32
  setGpr cpu 3 (stateWord enabled)
  osRestoreInterrupts cpu
  setGpr cpu 3 savedR3
  return enabled

/-- The part of `osSetCurrentContext` after the publication of the context: the
exception flag of the context, and the mirror of the interrupt state. -/
def mirrorContext (cpu : CpuPtr) (contextAddr : Word) : OS Unit := do
  let stateFlagsAddr := contextAddr + kContextStateFlagsOffset
  let modeFlagsAddr := contextAddr + kContextModeFlagsOffset
  unless ← contains kOSExceptionContextAddr 4#64 do return ()
  unless ← contains stateFlagsAddr 4#64 do return ()
  unless ← contains modeFlagsAddr 2#64 do return ()
  let exceptionContext ← read32 kOSExceptionContextAddr
  let stateFlags ← read32 stateFlagsAddr
  write32 stateFlagsAddr
    (if exceptionContext = contextAddr then stateFlags ||| 0x2000#32
      else stateFlags &&& ~~~0x2000#32)
  let modeFlags ← read16 modeFlagsAddr
  let enabled ← queryInterruptsEnabled cpu
  write16 modeFlagsAddr (withInterruptBit enabled modeFlags)

def osSetCurrentContext (cpu : CpuPtr) : OS Unit := do
  if cpu = 0 then return ()
  unless ← isInitialized do return ()
  let contextAddr ← getGpr cpu 3
  unless ← contains kOSPhysicalContextAddr 4#64 do return ()
  unless ← contains kOSCurrentContextAddr 4#64 do return ()
  if contextAddr = 0#32 then
    write32 kOSPhysicalContextAddr 0#32
    write32 kOSCurrentContextAddr 0#32
    return ()
  write32 kOSPhysicalContextAddr (contextAddr &&& 0x3FFFFFFF#32)
  write32 kOSCurrentContextAddr contextAddr
  mirrorContext cpu contextAddr

end OS

end wii_switch
