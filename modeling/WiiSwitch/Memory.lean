-- The guest memory (source/memory_switch_slice.cpp): regions of guest addresses
-- over the backing, and checked big-endian access. `none` is an access that
-- aborts the process.
import WiiSwitch.GuestFlat

namespace wii_switch

open Bytes

/-! ## Configuration -/

structure RegionConfig where
  name : String
  baseAddress : Word
  sizeBytes : Word64

structure Region where
  config : RegionConfig
  storage : Option HostPtr
  storageSize : Word64

structure Memory where
  initialized : Bool
  regions : List Region
  flat : FlatState
  host : Host

def kMem1Size : Word := 0x01800000#32
def kMem2Size : Word := 0x08000000#32
def kMem1PhysicalBase : Word := 0x00000000#32
def kMem1CachedBase : Word := 0x80000000#32
def kMem1UncachedBase : Word := 0xC0000000#32
def kMem2PhysicalBase : Word := 0x10000000#32
def kMem2CachedBase : Word := 0x90000000#32
def kMem2UncachedBase : Word := 0xD0000000#32
def kLockedCacheBase : Word := 0xE0000000#32
def kLockedCacheSize : Word64 := 0x00101000#64

/-- `base` lies in the window of `size` bytes at `start`. -/
def inWindow (start size base : Word) : Prop := start ≤ base ∧ base < start + size

instance (start size base : Word) : Decidable (inWindow start size base) :=
  inferInstanceAs (Decidable (_ ∧ _))

def classifyBacking (base : Word) : Backing :=
  if inWindow kMem1PhysicalBase kMem1Size base ∨ inWindow kMem1CachedBase kMem1Size base ∨
      inWindow kMem1UncachedBase kMem1Size base then .mem1
  else if inWindow kMem2PhysicalBase kMem2Size base ∨ inWindow kMem2CachedBase kMem2Size base ∨
      inWindow kMem2UncachedBase kMem2Size base then .mem2
  else .owned

/-- The seven regions of `Memory::Config::WiiDefaults`. -/
def wiiDefaults : List RegionConfig :=
  [⟨"MEM1_PHYS", kMem1PhysicalBase, kMem1Size.setWidth 64⟩,
   ⟨"MEM1_CACHED", kMem1CachedBase, kMem1Size.setWidth 64⟩,
   ⟨"MEM1_UNCACHED", kMem1UncachedBase, kMem1Size.setWidth 64⟩,
   ⟨"MEM2_PHYS", kMem2PhysicalBase, kMem2Size.setWidth 64⟩,
   ⟨"MEM2_CACHED", kMem2CachedBase, kMem2Size.setWidth 64⟩,
   ⟨"MEM2_UNCACHED", kMem2UncachedBase, kMem2Size.setWidth 64⟩,
   ⟨"LOCKED_CACHE", kLockedCacheBase, kLockedCacheSize⟩]

/-- The region holds the `length` bytes at `address`. -/
def Region.holds (r : Region) (address : Word) (length : Word64) : Bool :=
  let start := address.setWidth 64
  let base := r.config.baseAddress.setWidth 64
  base ≤ start && start + length ≤ base + r.storageSize

namespace Memory

def reset (m : Memory) : Memory :=
  if m.flat.active then
    let down := shutdownInternal m.flat m.host
    ⟨false, [], down.1, down.2⟩
  else { m with initialized := false, regions := [] }

def request (r : RegionConfig) : RegionRequest :=
  ⟨r.baseAddress, r.sizeBytes, classifyBacking r.baseAddress⟩

/-- Bind one region to its host view. -/
def bindRegion (flat : FlatState) (r : RegionConfig) : Option Region :=
  if r.sizeBytes = 0#64 then some ⟨r, none, r.sizeBytes⟩
  else
    match hostPointer flat r.baseAddress with
    | none => none
    | some host => some ⟨r, some host, r.sizeBytes⟩

/-- `Memory::Init`; `none` when the process aborts. -/
def init (env : HostEnv) (config : List RegionConfig) (m : Memory) : Option Memory :=
  let m := m.reset
  let out := initializeGuestFlat env (config.map request) m.flat m.host
  if out.ok then
    match config.mapM (bindRegion out.state) with
    | none => none
    | some regions => some ⟨true, regions, out.state, out.host⟩
  else none

/-! ## Access -/

def getPointer (m : Memory) (address : Word) (length : Word64) : Option HostPtr :=
  if m.initialized = false ∨ length = 0#64 then none
  else if kGuestSpaceSize < address.setWidth 64 + length then none
  else
    match m.regions.find? fun r => r.holds address length with
    | none => none
    | some r => r.storage.map fun p =>
        p.add (address.setWidth 64 - r.config.baseAddress.setWidth 64).toNat

def contains (m : Memory) (address : Word) (length : Word64) : Bool :=
  (m.getPointer address length).isSome

/-- `Memory::Read16` and its siblings: the `n` bytes at the pointer as a host
word, with the bytes swapped. -/
def readAs (w n : Nat) (m : Memory) (address : Word) : Option (BitVec w) :=
  match m.getPointer address (BitVec.ofNat 64 n) with
  | none => none
  | some p => (m.host.load p n).map fun raw => bswap n (ofLE w n raw)

/-- `Memory::Write16` and its siblings. -/
def writeAs (w n : Nat) (m : Memory) (address : Word) (value : BitVec w) : Option Memory :=
  match m.getPointer address (BitVec.ofNat 64 n) with
  | none => none
  | some p => (m.host.store p n (byteLE (bswap n value))).map fun host => { m with host := host }

/-- One byte needs no swap. -/
def read8 (m : Memory) (address : Word) : Option Byte :=
  match m.getPointer address 1#64 with
  | none => none
  | some p => (m.host.load p 1).map fun raw => raw 0

def read16 (m : Memory) (address : Word) : Option Half := m.readAs 16 2 address
def read32 (m : Memory) (address : Word) : Option Word := m.readAs 32 4 address
def read64 (m : Memory) (address : Word) : Option Word64 := m.readAs 64 8 address

def write8 (m : Memory) (address : Word) (value : Byte) : Option Memory :=
  match m.getPointer address 1#64 with
  | none => none
  | some p => (m.host.store p 1 fun _ => value).map fun host => { m with host := host }

def write16 (m : Memory) (address : Word) (value : Half) : Option Memory :=
  m.writeAs 16 2 address value
def write32 (m : Memory) (address : Word) (value : Word) : Option Memory :=
  m.writeAs 32 4 address value
def write64 (m : Memory) (address : Word) (value : Word64) : Option Memory :=
  m.writeAs 64 8 address value

theorem read8_eq (m : Memory) (a : Word) : m.read8 a = m.readAs 8 1 a := by
  unfold read8 readAs
  cases m.getPointer a 1#64 with
  | none => rfl
  | some p =>
    cases hl : m.host.load p 1 with
    | none => simp [hl]
    | some raw =>
      simp only [hl, Option.map_some, Option.some.injEq]
      rw [bswap_ofLE raw (by rfl)]
      apply BitVec.eq_of_toNat_eq
      simp [ofBE, beNat]

theorem write8_eq (m : Memory) (a : Word) (v : Byte) : m.write8 a v = m.writeAs 8 1 a v := by
  unfold write8 writeAs
  cases m.getPointer a 1#64 with
  | none => rfl
  | some p =>
    simp only
    congr 1
    unfold Host.store
    cases m.host.blocks p.block with
    | none => rfl
    | some b =>
      simp only
      congr 6
      funext i
      by_cases h : p.off ≤ i ∧ i < p.off + 1
      · have hi : i - p.off = 0 := by omega
        simp only [h, and_self, if_true, hi]
        rw [byteLE_bswap v (by omega) rfl]
        apply BitVec.eq_of_toNat_eq
        rw [byteLE_toNat]
        have := v.isLt
        omega
      · simp only [h, if_false]

end Memory

end wii_switch
