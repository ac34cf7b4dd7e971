-- The loops that zero guest memory. memset_zero_32 (source/ppc_indirect_link_helpers_bridge.cpp)
-- has a fast path through a host pointer beside its loop of stores, ZeroWords of GXInit
-- (source/gx_init_hle_bridge.cpp) stores words, and EXIImm (include/switch_native_hle_traits.hpp)
-- stores bytes. In a memory whose regions lie apart each of them leaves what one memset of the
-- range leaves, as DCZeroRange does it.
import WiiSwitch.ZeroRange

namespace wii_switch

open Bytes OS

/-! ## The loops -/

/-- `n` stores, `step` bytes apart. -/
def zeroLoop (store : Word → OS Unit) (step : Word) : Nat → Word → OS Unit
  | 0, _ => pure ()
  | n + 1, address => do
    store address
    zeroLoop store step n (address + step)

def zeroWordLoop : Nat → Word → OS Unit := zeroLoop (fun address => write32 address 0#32) 4#32

def zeroByteLoop : Nat → Word → OS Unit := zeroLoop (fun address => write8 address 0#8) 1#32

/-- `memset_zero_32`. -/
def memsetZero32 (addr : Word) : OS Word := do
  let ready ← isInitialized
  let mapped ← contains addr 32#64
  if ready = true ∧ mapped = true then zeroGuestRange addr 32#32 else zeroWordLoop 8 addr
  return addr

/-- `ZeroWords` of GXInit. -/
def gxZeroWords (address sizeBytes : Word) : OS Unit := do
  if ← contains address (sizeBytes.setWidth 64) then
    zeroWordLoop ((sizeBytes.toNat + 3) / 4) address
  else return ()

/-- `EXIImm`. A read clears the buffer of the guest. -/
def exiImm (cpu : CpuPtr) : OS Unit := do
  if cpu = 0 then return ()
  let buffer ← getGpr cpu 4
  let length ← getGpr cpu 5
  let type ← getGpr cpu 6
  onlyIf (type = 0#32 ∨ type = 2#32) (zeroByteLoop length.toNat buffer)
  setGpr cpu 3 1#32

/-! ## Stores side by side -/

section

variable {h h₁ h₂ : Host} {p : HostPtr} {n k : Nat} {f g : Nat → Byte}

/-- Only the first `n` bytes count. -/
theorem Host.store_congr (hfg : ∀ i < n, f i = g i) : h.store p n f = h.store p n g := by
  unfold Host.store
  have hbytes : ∀ b : Block,
    (fun i => if p.off ≤ i ∧ i < p.off + n then f (i - p.off) else b.bytes i) =
      fun i => if p.off ≤ i ∧ i < p.off + n then g (i - p.off) else b.bytes i := by
    intro b
    funext i
    split
    case isTrue hin => exact hfg _ (by omega)
    case isFalse => rfl
  cases h.blocks p.block with
  | none => rfl
  | some b => simp only [hbytes]

/-- The block after a store. -/
def Block.put (b : Block) (off n : Nat) (f : Nat → Byte) : Block :=
  { b with bytes := fun i => if off ≤ i ∧ i < off + n then f (i - off) else b.bytes i }

theorem Block.put_zeros (b : Block) (off n k : Nat) :
    (b.put off n fun _ => 0#8).put (off + n) k (fun _ => 0#8) = b.put off (n + k) fun _ => 0#8 := by
  unfold Block.put
  congr 1
  funext i
  dsimp only
  by_cases hlow : off ≤ i ∧ i < off + n
  · rw [if_pos hlow, ite_self, if_pos ⟨hlow.1, by omega⟩]
  · by_cases hhigh : off + n ≤ i ∧ i < off + n + k
    · rw [if_pos hhigh, if_pos ⟨by omega, by omega⟩]
    · rw [if_neg hhigh, if_neg hlow, if_neg (by omega)]

theorem Host.store_iff : h.store p n f = some h₁ ↔ ∃ b, h.blocks p.block = some b ∧
    p.off + n ≤ b.size ∧
      h₁ = { h with blocks := Function.update h.blocks p.block (some (b.put p.off n f)) } := by
  unfold Host.store
  cases h.blocks p.block with
  | none => simp
  | some b =>
    by_cases hroom : p.off + n ≤ b.size
    · simp [hroom, Block.put, eq_comm]
    · simp [hroom]

/-- Two stores of zeros side by side are one. -/
theorem Host.store_zeros_append (h₁' : h.store p n (fun _ => 0#8) = some h₁)
    (h₂' : h₁.store (p.add n) k (fun _ => 0#8) = some h₂) :
    h.store p (n + k) (fun _ => 0#8) = some h₂ := by
  obtain ⟨b, hb, hroom, rfl⟩ := Host.store_iff.mp h₁'
  obtain ⟨b', hb', hroom', rfl⟩ := Host.store_iff.mp h₂'
  have hsame : b' = b.put p.off n fun _ => 0#8 := by
    simpa [HostPtr.add] using hb'.symm
  subst hsame
  have hend : p.off + n + k ≤ b.size := hroom'
  refine Host.store_iff.mpr ⟨b, hb, by omega, ?_⟩
  simp only [HostPtr.add, Function.update_idem]
  rw [Block.put_zeros]

end

/-! ## A loop is one store -/

section

variable {config : List RegionConfig} {block : Backing × Word → Nat} {f : Nat → Byte}
  {s : Machine Memory} {r : RegionConfig}

/-- A store of zero with the width `k`. -/
structure ZeroStore (k : Width) (store : Word → OS Unit) : Prop where
  writes : ∀ {s : Machine Memory} {a : Word} {m : Memory},
    s.mem.write k a 0 = some m → store a s = .ret () (s.withMem m)

theorem zeroStore_write32 : ZeroStore .w32 fun address => write32 address 0#32 :=
  ⟨fun hw => write32_ret hw⟩

theorem zeroStore_write8 : ZeroStore .w8 fun address => write8 address 0#8 :=
  ⟨fun hw => write8_ret hw⟩

/-- A write of zero in a region is a store of zeros on the host. -/
theorem write_zero (hc : Admissible config) (hm : Holds config block s.mem f) (hr : r ∈ config)
    {k : Width} {a : Word} (hcov : r.Covers a.toNat k.bytes) {host : Host}
    (hstore : s.mem.host.store (byteAt block r a.toNat) k.bytes (fun _ => 0#8) = some host) :
    s.mem.write k a 0 = some { s.mem with host := host } := by
  have hp := (getPointer_laid hc hm.laid a k.bytes_pos k.bytes_lt (byteAt block r a.toNat)).mpr
    ⟨r, hr, hcov, rfl⟩
  have hzero : ∀ i < k.bytes, byteLE (bswap k.bytes (0 : BitVec k.bits)) i = 0#8 := by
    intro i hi
    rw [byteLE_bswap _ hi k.bits_eq]
    simp [byteLE]
  rw [Memory.write_eq, Memory.writeAs, hp]
  simp only [Host.store_congr hzero, hstore, Option.map_some]

/-- A loop of zero stores in a region leaves what one store of all its bytes leaves. -/
theorem zeroLoop_runs (hc : Admissible config) (hr : r ∈ config) {k : Width}
    {store : Word → OS Unit} (hz : ZeroStore k store) (n : Nat) {a : Word}
    (hm : Holds config block s.mem f) (hcov : r.Covers a.toNat ((n + 1) * k.bytes)) {host : Host}
    (hstore : s.mem.host.store (byteAt block r a.toNat) ((n + 1) * k.bytes) (fun _ => 0#8) =
      some host) :
    zeroLoop store (BitVec.ofNat 32 k.bytes) (n + 1) a s =
      .ret () (s.withMem { s.mem with host := host }) := by
  induction n generalizing a s f with
  | zero =>
    rw [Nat.zero_add, Nat.one_mul] at hcov hstore
    unfold zeroLoop
    rw [Routine.bind_of (hz.writes (write_zero hc hm hr hcov hstore))]
    rfl
  | succ n ih =>
    have hpos := k.bytes_pos
    have hend := hc.end_le hr
    have hroom := hcov.2
    rw [Nat.succ_mul] at hroom
    have hfirst : r.Covers a.toNat k.bytes := ⟨hcov.1, by omega⟩
    obtain ⟨host₁, hstore₁, hlaid, _⟩ := store_holds hc hm hr hfirst hpos fun _ => 0#8
    have hnext : (a + BitVec.ofNat 32 k.bytes).toNat = a.toNat + k.bytes := by
      have hk := k.bytes_le
      have hlast : k.bytes ≤ (n + 1) * k.bytes := Nat.le_mul_of_pos_left _ n.succ_pos
      rw [BitVec.toNat_add, BitVec.toNat_ofNat]
      omega
    have hrest : r.Covers (a + BitVec.ofNat 32 k.bytes).toNat ((n + 1) * k.bytes) := by
      rw [hnext]
      exact ⟨Nat.le_trans hcov.1 (Nat.le_add_right _ _), by omega⟩
    obtain ⟨g, hm₁⟩ : ∃ g, Holds config block { s.mem with host := host₁ } g := by
      have hw := write_zero hc hm hr hfirst hstore₁
      exact ⟨_, Serves.write_holds hc hm hw⟩
    obtain ⟨host₂, hstore₂, _⟩ := store_holds hc hm₁ hr hrest
      (Nat.mul_pos n.succ_pos hpos) fun _ => 0#8
    have hptr : byteAt block r (a + BitVec.ofNat 32 k.bytes).toNat =
        (byteAt block r a.toNat).add k.bytes := by
      rw [hnext, byteAt_add block hcov.1]
    have hboth := Host.store_zeros_append hstore₁ (hptr ▸ hstore₂)
    have hsum : k.bytes + (n + 1) * k.bytes = (n + 1 + 1) * k.bytes := by ring
    rw [hsum, hstore, Option.some.injEq] at hboth
    subst hboth
    rw [zeroLoop, Routine.bind_of (hz.writes (write_zero hc hm hr hfirst hstore₁))]
    exact ih (s := s.withMem { s.mem with host := host₁ }) hm₁ hrest hstore₂

/-- In a region a loop of zero stores is a memset. -/
theorem zeroLoop_is_memset (hs : Serves config s.mem) {k : Width} {store : Word → OS Unit}
    (hz : ZeroStore k store) {count : Nat} {a n : Word} (hn : 0 < n.toNat)
    (hcount : n.toNat = count * k.bytes) (hin : InOneRegion config a.toNat n.toNat) :
    zeroLoop store (BitVec.ofNat 32 k.bytes) count a s = zeroGuestRange a n s := by
  obtain ⟨block, f, hm⟩ := hs.holds
  obtain ⟨r, hr, hcov⟩ := hin
  have hlen : n.setWidth 64 = BitVec.ofNat 64 n.toNat := by simp [BitVec.ofNat_toNat]
  have hp := (getPointer_laid hs.admissible hm.laid a hn (Nat.le_of_lt n.isLt)
    (byteAt block r a.toNat)).mpr ⟨r, hr, hcov, rfl⟩
  obtain ⟨host, hstore, _⟩ := store_holds hs.admissible hm hr hcov hn fun _ => 0#8
  have hmemset : zeroGuestRange a n s = .ret () (s.withMem { s.mem with host := host }) := by
    unfold zeroGuestRange
    rw [hlen, hp]
    simp only [hstore]
  obtain ⟨c, rfl⟩ : ∃ c, count = c + 1 := by
    refine Nat.exists_eq_succ_of_ne_zero ?_
    rintro rfl
    omega
  rw [hmemset]
  exact zeroLoop_runs hs.admissible hr hz c hm (hcount ▸ hcov) (hcount ▸ hstore)

/-- A memset outside one region does nothing. -/
theorem zeroGuestRange_unmapped (hs : Serves config s.mem) {a n : Word} (hn : 0 < n.toNat)
    (hin : ¬InOneRegion config a.toNat n.toNat) : zeroGuestRange a n s = .ret () s := by
  obtain ⟨m', hrun, _, hzeroes⟩ := zeroGuestRange_runs hs (a := a) hn
  rw [hrun, hzeroes.skipped hin, Machine.withMem_self]

theorem contains_word_iff (hs : Serves config s.mem) {a n : Word} (hn : 0 < n.toNat) :
    s.mem.contains a (n.setWidth 64) = true ↔ InOneRegion config a.toNat n.toNat := by
  have hlen : n.setWidth 64 = BitVec.ofNat 64 n.toNat := by simp [BitVec.ofNat_toNat]
  rw [hlen]
  exact hs.contains_iff a hn (Nat.le_of_lt n.isLt)

/-! ## The law -/

/-- Every loop that zeroes memory leaves what one memset leaves. -/
structure ZeroesAsMemset (config : List RegionConfig) (s : Machine Memory) : Prop where
  helper : ∀ addr, memsetZero32 addr s = (zeroWordLoop 8 addr >>= fun _ => pure addr) s
  words : ∀ a n : Word, n.toNat % 4 = 0 → gxZeroWords a n s = zeroGuestRange a n s
  reads : ∀ cpu, cpu ≠ 0 → s.gpr cpu 6 = 0#32 ∨ s.gpr cpu 6 = 2#32 →
    InOneRegion config (s.gpr cpu 4).toNat (s.gpr cpu 5).toNat →
    exiImm cpu s = (zeroGuestRange (s.gpr cpu 4) (s.gpr cpu 5) >>= fun _ => setGpr cpu 3 1#32) s
  lines : ∀ cpu, cpu ≠ 0 → s.gpr cpu 4 ≠ 0#32 →
    LinesMapped config (s.gpr cpu 3).toNat (s.gpr cpu 4).toNat →
    dcZeroRange cpu s = zeroByteLoop (alignedLength (s.gpr cpu 3) (s.gpr cpu 4)).toNat
      (alignedAddress (s.gpr cpu 3)) s

theorem zeroGuestRange_empty (a : Word) : zeroGuestRange a 0#32 s = .ret () s := by
  simp [zeroGuestRange, Memory.getPointer]

/-- The fast path of memset_zero_32 agrees with its loop on every address, ZeroWords is a
memset or skips the range as one does, and the byte loops of EXIImm and of the cache lines are
memsets too. -/
theorem zeroing_loops_are_memsets (hs : Serves config s.mem) : ZeroesAsMemset config s := by
  have hbyte : ∀ {a n : Word}, 0 < n.toNat → InOneRegion config a.toNat n.toNat →
      zeroByteLoop n.toNat a s = zeroGuestRange a n s := fun hn hin =>
    zeroLoop_is_memset hs zeroStore_write8 hn (Nat.mul_one _).symm hin
  constructor
  case helper =>
    intro addr
    have hcontains : s.mem.contains addr 32#64 = true ↔ InOneRegion config addr.toNat 32 :=
      hs.contains_iff addr (by omega) (by omega)
    unfold memsetZero32
    by_cases hin : InOneRegion config addr.toNat 32
    · have hloop : zeroWordLoop 8 addr s = zeroGuestRange addr 32#32 s :=
        zeroLoop_is_memset hs zeroStore_write32 (by decide) (by decide) hin
      simp only [Routine.bind_apply, isInitialized_apply, contains_apply, Coop.bind_ret,
        hs.initialized, hcontains.mpr hin, and_self, if_true, hloop]
    · have hnot : s.mem.contains addr 32#64 = false :=
        Bool.not_eq_true _ ▸ fun h => hin (hcontains.mp h)
      simp only [Routine.bind_apply, isInitialized_apply, contains_apply, Coop.bind_ret,
        hnot, Bool.false_eq_true, and_false, if_false]
  case words =>
    intro a n hfour
    unfold gxZeroWords
    simp only [Routine.bind_apply, contains_apply, Coop.bind_ret]
    by_cases hempty : n = 0#32
    · subst hempty
      rw [zeroGuestRange_empty]
      simp [Memory.contains, Memory.getPointer]
    · have hn : 0 < n.toNat := Nat.pos_of_ne_zero fun h => hempty (BitVec.eq_of_toNat_eq h)
      by_cases hin : InOneRegion config a.toNat n.toNat
      · rw [if_pos ((contains_word_iff hs hn).mpr hin)]
        have hcount : n.toNat = (n.toNat + 3) / 4 * Width.w32.bytes := by
          change n.toNat = (n.toNat + 3) / 4 * 4
          omega
        exact zeroLoop_is_memset hs zeroStore_write32 hn hcount hin
      · rw [if_neg fun h => hin ((contains_word_iff hs hn).mp h),
          zeroGuestRange_unmapped hs hn hin]
        rfl
  case reads =>
    intro cpu hcpu htype hin
    unfold exiImm
    rw [if_neg hcpu]
    simp only [Routine.bind_apply, getGpr_apply, Coop.bind_ret, onlyIf_apply,
      decide_eq_true_eq, if_pos htype]
    by_cases hempty : s.gpr cpu 5 = 0#32
    · rw [hempty, zeroGuestRange_empty]
      rfl
    · have hn : 0 < (s.gpr cpu 5).toNat :=
        Nat.pos_of_ne_zero fun h => hempty (BitVec.eq_of_toNat_eq h)
      rw [hbyte hn hin]
  case lines =>
    intro cpu hcpu hlen hlines
    have hpos : 0 < (s.gpr cpu 4).toNat := Nat.pos_of_ne_zero fun h =>
      hlen (BitVec.eq_of_toNat_eq h)
    have hrange := (linesMapped_iff hpos).mp hlines
    have hnowrap : (s.gpr cpu 3).toNat % 32 + (s.gpr cpu 4).toNat + 31 < 2 ^ 32 := by
      by_contra hwrap
      exact lines_too_long hs.admissible hpos (by omega) hlines
    have hlength : (alignedLength (s.gpr cpu 3) (s.gpr cpu 4)).toNat =
        ((s.gpr cpu 3).toNat % 32 + (s.gpr cpu 4).toNat + 31) / 32 * 32 := by
      rw [alignedLength_toNat, Nat.mod_eq_of_lt hnowrap]
    have hsome : 0 < (alignedLength (s.gpr cpu 3) (s.gpr cpu 4)).toNat := by omega
    have hne : alignedLength (s.gpr cpu 3) (s.gpr cpu 4) ≠ 0#32 := by
      intro hzero
      rw [hzero] at hsome
      exact absurd hsome (by decide)
    rw [dcZeroRange_apply hcpu hlen, if_neg hne]
    refine (hbyte hsome ?_).symm
    rw [alignedAddress_toNat, hlength]
    exact hrange

end

/-- The helper on a booted Wii. -/
theorem memset_zero_32_on_a_wii : ∃ m, Serves wiiDefaults m ∧
    ZeroesAsMemset wiiDefaults (bootMachine m) := by
  obtain ⟨m, hm⟩ := Option.isSome_iff_exists.mp wiiBoot_isSome
  exact ⟨m, wiiBoot_serves hm, zeroing_loops_are_memsets (wiiBoot_serves hm)⟩

end wii_switch
