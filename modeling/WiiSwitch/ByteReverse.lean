-- The accesses with the bytes reversed (source/ppc_indirect_link_helpers_bridge.cpp). Each is a
-- plain access with one more byte swap. In a run of plain and reversed stores the plain accesses
-- are big-endian and the reversed ones little-endian, all over the same bytes.
import WiiSwitch.NandReads

namespace wii_switch

open Bytes OS

/-! ## The source -/

/-- `PPC_LoadWordByteReverse`. -/
def ppcLoadWordByteReverse (addr : Word) : OS Word := do
  let value ← read32 addr
  return bswap 4 value

/-- `PPC_StoreWordByteReverse`. -/
def ppcStoreWordByteReverse (addr value : Word) : OS Unit := write32 addr (bswap 4 value)

/-- `PPC_StoreHalfwordByteReverse`. -/
def ppcStoreHalfwordByteReverse (addr value : Word) : OS Unit :=
  write16 addr (bswap 2 ((value &&& 0xFFFF#32).setWidth 16))

/-! ## Stores of both kinds -/

/-- The `n` low bytes, the most significant first. -/
def bigEndian {w : Nat} (n : Nat) (x : BitVec w) : List Byte :=
  (List.range n).map fun i => byteLE x (n - 1 - i)

/-- The `n` low bytes, the least significant first. -/
def littleEndian {w : Nat} (n : Nat) (x : BitVec w) : List Byte := (List.range n).map (byteLE x)

inductive PpcStore where
  | write8 (addr : Word) (value : Byte)
  | write16 (addr : Word) (value : Half)
  | write32 (addr value : Word)
  | wordByteReverse (addr value : Word)
  | halfwordByteReverse (addr value : Word)

namespace PpcStore

def run : PpcStore → OS Unit
  | write8 addr value => OS.write8 addr value
  | write16 addr value => OS.write16 addr value
  | write32 addr value => OS.write32 addr value
  | wordByteReverse addr value => ppcStoreWordByteReverse addr value
  | halfwordByteReverse addr value => ppcStoreHalfwordByteReverse addr value

def runAll : List PpcStore → OS Unit
  | [] => return ()
  | st :: rest => do
    st.run
    runAll rest

def addr : PpcStore → Word
  | write8 addr _ => addr
  | write16 addr _ => addr
  | write32 addr _ => addr
  | wordByteReverse addr _ => addr
  | halfwordByteReverse addr _ => addr

/-- The bytes of a store, from its address on. -/
def bytes : PpcStore → List Byte
  | write8 _ value => bigEndian 1 value
  | write16 _ value => bigEndian 2 value
  | write32 _ value => bigEndian 4 value
  | wordByteReverse _ value => littleEndian 4 value
  | halfwordByteReverse _ value => littleEndian 2 value

/-- The byte of `a` after the store, when it was `old`. -/
def apply (config : List RegionConfig) (st : PpcStore) (a : Nat) (old : Byte) : Byte :=
  match (List.range st.bytes.length).find? fun i => SameByte config (st.addr.toNat + i) a with
  | some i => st.bytes.getD i 0#8
  | none => old

/-- The bytes after the stores. -/
def lastBytes (config : List RegionConfig) (old : Nat → Byte) (stores : List PpcStore) :
    Nat → Byte :=
  stores.foldl (fun bytes st a => st.apply config a (bytes a)) old

/-! ## One store of the memory each -/

/-- The store that the memory sees. -/
def store : PpcStore → Store
  | write8 addr value => ⟨.w8, addr, value⟩
  | write16 addr value => ⟨.w16, addr, value⟩
  | write32 addr value => ⟨.w32, addr, value⟩
  | wordByteReverse addr value => ⟨.w32, addr, bswap 4 value⟩
  | halfwordByteReverse addr value => ⟨.w16, addr, bswap 2 ((value &&& 0xFFFF#32).setWidth 16)⟩

section

variable {config : List RegionConfig} {block : Backing × Word → Nat} {f : Nat → Byte}
  {s s' : Machine Memory} {st : PpcStore}

@[simp] theorem store_address (st : PpcStore) : st.store.address = st.addr := by
  cases st <;> rfl

@[simp] theorem store_bytes (st : PpcStore) : st.store.width.bytes = st.bytes.length := by
  cases st <;> rfl

theorem run_eq_ret : st.run s = .ret () s' ↔
    ∃ m, s.mem.write st.store.width st.store.address st.store.value = some m ∧
      s' = s.withMem m := by
  cases st with
  | write8 addr value => exact write_ret_iff (a := addr) rfl
  | write16 addr value => exact write_ret_iff (a := addr) rfl
  | write32 addr value => exact write_ret_iff (a := addr) rfl
  | wordByteReverse addr value => exact write_ret_iff (a := addr) rfl
  | halfwordByteReverse addr value => exact write_ret_iff (a := addr) rfl

/-- The low half keeps the two low bytes. -/
theorem byteLE_low {value : Word} {i : Nat} (hi : i < 2) :
    byteLE ((value &&& 0xFFFF#32).setWidth 16) i = byteLE value i := by
  apply BitVec.eq_of_toNat_eq
  have hmask : (value &&& 0xFFFF#32).toNat = value.toNat % 2 ^ 16 :=
    Nat.and_two_pow_sub_one_eq_mod _ 16
  rw [byteLE_toNat, byteLE_toNat, BitVec.toNat_setWidth, hmask]
  obtain rfl | rfl : i = 0 ∨ i = 1 := by omega
  · omega
  · omega

/-- A value that comes swapped is put with its least significant byte first. -/
theorem byte_bswap {k : Width} {a : Word} (x : BitVec k.bits) {i : Nat} (hi : i < k.bytes) :
    (Store.mk k a (bswap k.bytes x)).byte i = byteLE x i := by
  have hback : k.bytes - 1 - (k.bytes - 1 - i) = i := by omega
  have hlt : k.bytes - 1 - i < k.bytes := by omega
  refine (byteLE_bswap x hlt k.bits_eq).trans ?_
  rw [hback]

theorem getD_map_range {g : Nat → Byte} {n i : Nat} (hi : i < n) :
    ((List.range n).map g).getD i 0#8 = g i := by
  simp [hi]

theorem store_byte {i : Nat} (hi : i < st.bytes.length) :
    st.store.byte i = st.bytes.getD i 0#8 := by
  rw [← store_bytes] at hi
  cases st with
  | write8 addr value => exact (getD_map_range hi).symm
  | write16 addr value => exact (getD_map_range hi).symm
  | write32 addr value => exact (getD_map_range hi).symm
  | wordByteReverse addr value =>
    exact (byte_bswap (k := .w32) value hi).trans (getD_map_range hi).symm
  | halfwordByteReverse addr value =>
    exact (byte_bswap (k := .w16) _ hi).trans ((byteLE_low hi).trans (getD_map_range hi).symm)

theorem apply_store (st : PpcStore) (a : Nat) (old : Byte) :
    st.apply config a old = st.store.apply config a old := by
  unfold apply Store.apply
  rw [store_bytes, store_address]
  generalize hfound : (List.range st.bytes.length).find?
    (fun i => decide (SameByte config (st.addr.toNat + i) a)) = found
  cases found with
  | none => rfl
  | some i => exact (store_byte (List.mem_range.mp (List.mem_of_find?_eq_some hfound))).symm

/-! ## Runs -/

theorem holds_run (hc : Admissible config) (hm : Holds config block s.mem f)
    (h : st.run s = .ret () s') :
    Holds config block s'.mem fun a => st.apply config a (f a) := by
  obtain ⟨m, hw, rfl⟩ := run_eq_ret.mp h
  obtain ⟨m', hw', hm'⟩ := write_holds hc hm st.store (write_inside hc hm.laid hw)
  rw [hw, Option.some.injEq] at hw'
  subst hw'
  simpa only [apply_store, Machine.withMem_mem] using hm'

theorem holds_runAll (hc : Admissible config) {stores : List PpcStore}
    (hm : Holds config block s.mem f) (h : runAll stores s = .ret () s') :
    Holds config block s'.mem (lastBytes config f stores) := by
  induction stores generalizing f s with
  | nil =>
    obtain ⟨_, rfl⟩ := Coop.ret.inj h
    exact hm
  | cons st rest ih =>
    obtain ⟨_, u, hstep, hrest⟩ := Routine.bind_eq_ret h
    exact ih (holds_run hc hm hstep) hrest

theorem runs_iff (hs : Serves config s.mem) :
    (∃ t, st.run s = .ret () t) ↔ InOneRegion config st.addr.toNat st.bytes.length := by
  obtain ⟨block, f, hm⟩ := hs.holds
  constructor
  · rintro ⟨t, ht⟩
    obtain ⟨m, hw, rfl⟩ := run_eq_ret.mp ht
    simpa using write_inside hs.admissible hm.laid hw
  · intro hin
    obtain ⟨m, hw⟩ := hs.write_some (k := st.store.width) (a := st.store.address)
      (by simpa using hin) st.store.value
    exact ⟨s.withMem m, run_eq_ret.mpr ⟨m, hw, rfl⟩⟩

theorem read32_iff (hc : Admissible config) (hm : Holds config block s.mem f) {a v : Word} :
    OS.read32 a s = .ret v s ↔
      InOneRegion config a.toNat 4 ∧ v = ofBE 32 4 fun i => f (a.toNat + i) := by
  constructor
  · intro h
    obtain ⟨hread, _⟩ := read32_eq_ret h
    have hin := (read_isSome hc hm .w32 a).mp (Option.isSome_of_eq_some hread)
    have hbytes := readAs_holds hc hm (w := 32) (n := 4) rfl (by omega) (by omega) hin
    exact ⟨hin, Option.some.inj (hread.symm.trans hbytes)⟩
  · rintro ⟨hin, rfl⟩
    exact read32_ret (readAs_holds hc hm rfl (by omega) (by omega) hin)

/-- The load swaps the big-endian word once more. -/
theorem load_reversed_iff (hc : Admissible config) (hm : Holds config block s.mem f) {a v : Word} :
    ppcLoadWordByteReverse a s = .ret v s ↔
      InOneRegion config a.toNat 4 ∧ v = ofLE 32 4 fun i => f (a.toNat + i) := by
  have hswap : bswap 4 (ofBE 32 4 fun i => f (a.toNat + i)) =
      ofLE 32 4 fun i => f (a.toNat + i) := by
    rw [← bswap_ofLE (n := 4) (w := 32) _ rfl, bswap_bswap _ rfl]
  constructor
  · intro h
    obtain ⟨w, u, hread, hret⟩ := Routine.bind_eq_ret h
    obtain ⟨rfl, rfl⟩ := Coop.ret.inj hret
    obtain ⟨hin, rfl⟩ := (read32_iff hc hm).mp hread
    exact ⟨hin, hswap⟩
  · rintro ⟨hin, rfl⟩
    have hread := (read32_iff hc hm).mpr ⟨hin, rfl⟩
    unfold ppcLoadWordByteReverse
    rw [Routine.bind_apply, hread, ← hswap]
    rfl

end

end PpcStore

/-- The byte that the guest finds at an address. -/
def guestByte (m : Memory) (a : Nat) : Byte := (m.read8 (BitVec.ofNat 32 a)).getD 0#8

/-- A memory that serves its regions holds the bytes that it reads. -/
theorem Serves.holds_guestByte {config : List RegionConfig} {m : Memory} (hs : Serves config m) :
    ∃ block, Holds config block m (guestByte m) := by
  obtain ⟨block, f, hm⟩ := hs.holds
  refine ⟨block, hm.laid, fun r hr a ha => ?_⟩
  have haddr : (BitVec.ofNat 32 a).toNat = a := by
    have := hs.admissible.end_le hr
    have := ha.2
    rw [BitVec.toNat_ofNat]
    omega
  have hone : InOneRegion config (BitVec.ofNat 32 a).toNat 1 := by
    rw [haddr]
    exact ⟨r, hr, ha.1, ha.2⟩
  rw [guestByte, holds_read8 hs.admissible hm hone, Option.getD_some, haddr]
  exact hm.bytes r hr a ha

/-- After every run of stores of both kinds, a plain load gives the last bytes most significant
first and a reversed load least significant first, and each access goes through exactly inside
one region. -/
theorem reversed_accesses_are_little_endian {config : List RegionConfig} {s s' : Machine Memory}
    (hs : Serves config s.mem) {stores : List PpcStore}
    (h : PpcStore.runAll stores s = .ret () s') :
    (∀ a v, OS.read32 a s' = .ret v s' ↔ InOneRegion config a.toNat 4 ∧
      v = ofBE 32 4 fun i => PpcStore.lastBytes config (guestByte s.mem) stores (a.toNat + i)) ∧
    (∀ a v, ppcLoadWordByteReverse a s' = .ret v s' ↔ InOneRegion config a.toNat 4 ∧
      v = ofLE 32 4 fun i => PpcStore.lastBytes config (guestByte s.mem) stores (a.toNat + i)) ∧
    ∀ st : PpcStore, (∃ t, st.run s' = .ret () t) ↔
      InOneRegion config st.addr.toNat st.bytes.length := by
  have hc := hs.admissible
  obtain ⟨block, hm⟩ := hs.holds_guestByte
  have hlast := PpcStore.holds_runAll hc hm h
  refine ⟨fun a v => ?_, fun a v => ?_, fun st => ?_⟩
  · exact PpcStore.read32_iff hc hlast
  · exact PpcStore.load_reversed_iff hc hlast
  · exact PpcStore.runs_iff ⟨hc, block, _, hlast⟩

/-- A word at a cached address, and a halfword over its end at the uncached one. -/
def reversedStores : List PpcStore :=
  [.wordByteReverse 0x80001000#32 0x11223344#32, .halfwordByteReverse 0xC0001002#32 0x7788AABB#32]

/-- The two stores on a booted Wii, and what the two loads give behind them. -/
def reversedBoot : Option (Memory × Machine Memory × Word × Word) := do
  let m ← wiiBoot
  let (_, s) ← (PpcStore.runAll reversedStores (bootMachine m)).ended
  let (reversed, _) ← (ppcLoadWordByteReverse 0x80001000#32 s).ended
  let (plain, _) ← (OS.read32 0x80001000#32 s).ended
  return (m, s, reversed, plain)

theorem reversedBoot_loads : (reversedBoot.map fun r => decide (
    r.2.2 = (0xAABB3344#32, 0x4433BBAA#32))) = some true := by
  decide +kernel

/-- The loads of both kinds give the last bytes. -/
theorem a_reversed_halfword_is_loaded : ∃ s s' : Machine Memory, Serves wiiDefaults s.mem ∧
    PpcStore.runAll reversedStores s = .ret () s' ∧
    ppcLoadWordByteReverse 0x80001000#32 s' = .ret 0xAABB3344#32 s' ∧
    OS.read32 0x80001000#32 s' = .ret 0x4433BBAA#32 s' := by
  obtain ⟨⟨_, _, _, _⟩, hsome, hloads⟩ := Option.map_eq_some_iff.mp reversedBoot_loads
  obtain ⟨rfl, rfl⟩ := Prod.mk.inj (of_decide_eq_true hloads)
  simp only [reversedBoot, Option.bind_eq_bind, Option.bind_eq_some_iff, Prod.exists,
    Option.pure_def, Option.some.injEq, Prod.mk.injEq] at hsome
  obtain ⟨m, hm, _, s', hrun, _, _, hreversed, _, _, hplain, rfl, rfl, rfl, rfl⟩ := hsome
  have hs : Serves wiiDefaults (bootMachine m).mem := wiiBoot_serves hm
  have hstores : PpcStore.runAll reversedStores (bootMachine m) = .ret () s' :=
    Coop.ret_of_ended hrun
  obtain ⟨hread, hload, _⟩ := reversed_accesses_are_little_endian hs hstores
  have hin : InOneRegion wiiDefaults (0x80001000#32).toNat 4 :=
    lowMemory_mapped (by decide) (by decide)
  have hload := (hload 0x80001000#32 _).mpr ⟨hin, rfl⟩
  have hread := (hread 0x80001000#32 _).mpr ⟨hin, rfl⟩
  rw [Coop.ret_of_ended hreversed] at hload
  rw [Coop.ret_of_ended hplain] at hread
  obtain ⟨-, rfl⟩ := Coop.ret.inj hload
  obtain ⟨-, rfl⟩ := Coop.ret.inj hread
  exact ⟨bootMachine m, _, hs, hstores, Coop.ret_of_ended hreversed, Coop.ret_of_ended hplain⟩

end wii_switch
