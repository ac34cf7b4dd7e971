-- The laws of the guest memory. Over every admissible list of regions the
-- memory is one store of bytes: an access inside one region succeeds, a read
-- gives the bytes last written, and two addresses name one byte exactly when
-- they are aliases of the same Wii backing.
import WiiSwitch.GuestFlatLaws
import WiiSwitch.Memory

namespace wii_switch

open Bytes

/-! ## The configurations -/

/-- The region has the address `a`. -/
def RegionConfig.Has (r : RegionConfig) (a : Nat) : Prop :=
  r.baseAddress.toNat ≤ a ∧ a < r.baseAddress.toNat + r.sizeBytes.toNat

instance (r : RegionConfig) (a : Nat) : Decidable (r.Has a) :=
  inferInstanceAs (Decidable (_ ∧ _))

/-- The `n` bytes at `a` lie inside the region. -/
def RegionConfig.Covers (r : RegionConfig) (a n : Nat) : Prop :=
  r.baseAddress.toNat ≤ a ∧ a + n ≤ r.baseAddress.toNat + r.sizeBytes.toNat

/-- At most 32 pairwise disjoint regions, none across a multiple of
`0x20000000`. -/
structure Admissible (config : List RegionConfig) : Prop where
  count : config.length ≤ 32
  disjoint : config.Pairwise fun r s => ∀ x, ¬ (r.Has x ∧ s.Has x)
  inside : ∀ r ∈ config, ∀ k, ¬ (r.baseAddress.toNat < k * 0x20000000 ∧
    k * 0x20000000 < r.baseAddress.toNat + r.sizeBytes.toNat)

theorem Admissible.mod_add_le {config : List RegionConfig} (h : Admissible config)
    {r : RegionConfig} (hr : r ∈ config) :
    r.baseAddress.toNat % 0x20000000 + r.sizeBytes.toNat ≤ 0x20000000 := by
  have := h.inside r hr (r.baseAddress.toNat / 0x20000000 + 1)
  omega

theorem Admissible.end_le {config : List RegionConfig} (h : Admissible config)
    {r : RegionConfig} (hr : r ∈ config) :
    r.baseAddress.toNat + r.sizeBytes.toNat ≤ 0x100000000 := by
  have := h.mod_add_le hr
  have := r.baseAddress.isLt
  omega

/-- An address is in one region only. -/
theorem Admissible.unique {config : List RegionConfig} (h : Admissible config)
    {r s : RegionConfig} (hr : r ∈ config) (hs : s ∈ config) {a : Nat} (ha : r.Has a)
    (hb : s.Has a) : r = s := by
  by_contra hne
  have : Std.Symm fun r s : RegionConfig => ∀ x, ¬ (r.Has x ∧ s.Has x) :=
    ⟨fun _ _ h x hx => h x hx.symm⟩
  exact h.disjoint.forall hr hs hne a ⟨ha, hb⟩

theorem classifyBacking_mem2 {base : Word} (h : classifyBacking base = .mem2) :
    0x10000000 ≤ base.toNat % 0x20000000 := by
  unfold classifyBacking at h
  split at h
  · cases h
  · split at h
    · rename_i hw
      simp only [inWindow, BitVec.le_def, BitVec.lt_def, kMem2PhysicalBase, kMem2CachedBase,
        kMem2UncachedBase, kMem2Size, BitVec.toNat_add, BitVec.toNat_ofNat] at hw
      omega
    · cases h

theorem Admissible.fits {config : List RegionConfig} (h : Admissible config)
    {r : RegionConfig} (hr : r ∈ config) (hz : r.sizeBytes ≠ 0#64) : Fits (Memory.request r) :=
  ⟨hz, h.mod_add_le hr, classifyBacking_mem2⟩

theorem request_key (r : RegionConfig) :
    (Memory.request r).key = (classifyBacking r.baseAddress,
      if classifyBacking r.baseAddress = .owned then r.baseAddress else 0#32) := rfl

/-! ## The memory over a configuration -/

/-- Where the region starts on the host. -/
def placeOf (block : Backing × Word → Nat) (r : RegionConfig) : HostPtr :=
  ⟨block (Memory.request r).key, foldOf (Memory.request r)⟩

/-- The memory serves the regions of `config`: each section key has a host block
of its own, and each region has its room there. -/
structure Laid (config : List RegionConfig) (block : Backing × Word → Nat) (m : Memory) :
    Prop where
  initialized : m.initialized = true
  regions : m.regions = config.map fun r =>
    ⟨r, if r.sizeBytes = 0#64 then none else some (placeOf block r), r.sizeBytes⟩
  live : ∀ r ∈ config, r.sizeBytes ≠ 0#64 →
    ∃ b, m.host.blocks (placeOf block r).block = some b ∧
      (placeOf block r).off + r.sizeBytes.toNat ≤ b.size
  apart : ∀ r ∈ config, r.sizeBytes ≠ 0#64 → ∀ s ∈ config, s.sizeBytes ≠ 0#64 →
    (placeOf block r).block = (placeOf block s).block →
      (Memory.request r).key = (Memory.request s).key

theorem RegionConfig.Has.size_ne {r : RegionConfig} {a : Nat} (h : r.Has a) :
    r.sizeBytes ≠ 0#64 := by
  rintro hz
  obtain ⟨h1, h2⟩ := h
  simp only [hz, BitVec.toNat_ofNat] at h2
  omega

theorem RegionConfig.Covers.size_ne {r : RegionConfig} {a n : Nat} (h : r.Covers a n)
    (hn : 0 < n) : r.sizeBytes ≠ 0#64 := by
  rintro hz
  obtain ⟨h1, h2⟩ := h
  simp only [hz, BitVec.toNat_ofNat] at h2
  omega

theorem holds_iff {config : List RegionConfig} (hc : Admissible config) {r : RegionConfig}
    (hr : r ∈ config) (st : Option HostPtr) (a : Word) {n : Nat} (hn : n ≤ 0x100000000) :
    (Region.mk r st r.sizeBytes).holds a (BitVec.ofNat 64 n) = true ↔ r.Covers a.toNat n := by
  have hend := hc.end_le hr
  have ha := a.isLt
  have hb := r.baseAddress.isLt
  simp only [Region.holds, RegionConfig.Covers, Bool.and_eq_true, decide_eq_true_eq,
    BitVec.le_def, BitVec.toNat_add, BitVec.toNat_setWidth, BitVec.toNat_ofNat]
  omega

/-- An access resolves exactly inside one region. -/
theorem getPointer_laid {config : List RegionConfig} {block : Backing × Word → Nat} {m : Memory}
    (hc : Admissible config) (hm : Laid config block m) (a : Word) {n : Nat} (hn : 0 < n)
    (hn8 : n ≤ 0x100000000) (p : HostPtr) :
    m.getPointer a (BitVec.ofNat 64 n) = some p ↔
      ∃ r ∈ config, r.Covers a.toNat n ∧
        p = (placeOf block r).add (a.toNat - r.baseAddress.toNat) := by
  have hz : ¬ (m.initialized = false ∨ BitVec.ofNat 64 n = 0#64) := by
    rw [hm.initialized, ← BitVec.toNat_inj]
    simp only [BitVec.toNat_ofNat, Bool.true_eq_false, false_or]
    omega
  have hsum : (a.setWidth 64 + BitVec.ofNat 64 n).toNat = a.toNat + n := by
    have := a.isLt
    simp only [BitVec.toNat_add, BitVec.toNat_setWidth, BitVec.toNat_ofNat]
    omega
  unfold Memory.getPointer
  rw [if_neg hz, hm.regions, List.find?_map]
  have hfound : ∀ r ∈ config, r.Covers a.toNat n →
      config.find? ((fun r : Region => r.holds a (BitVec.ofNat 64 n)) ∘ fun r =>
        ⟨r, if r.sizeBytes = 0#64 then none else some (placeOf block r), r.sizeBytes⟩) =
          some r := by
    intro r hr hcov
    rcases hf : config.find? _ with _ | s
    · have := List.find?_eq_none.mp hf r hr
      exact absurd ((holds_iff hc hr _ a hn8).mpr hcov) this
    · have hs := List.mem_of_find?_eq_some hf
      have hcov' := (holds_iff hc hs _ a hn8).mp (by simpa using List.find?_some hf)
      rw [hc.unique hr hs (a := a.toNat) ⟨hcov.1, by have := hcov.2; omega⟩
        ⟨hcov'.1, by have := hcov'.2; omega⟩]
  constructor
  · intro h
    split at h
    · cases h
    · rcases hf : config.find? _ with _ | r
      · rw [hf] at h
        cases h
      · have hr := List.mem_of_find?_eq_some hf
        have hcov := (holds_iff hc hr _ a hn8).mp (by simpa using List.find?_some hf)
        refine ⟨r, hr, hcov, ?_⟩
        rw [hf] at h
        simp only [Option.map_some, if_neg (hcov.size_ne hn), Option.some.injEq] at h
        rw [← h]
        congr 1
        have h1 := hcov.1
        have h2 := a.isLt
        simp only [BitVec.toNat_sub, BitVec.toNat_setWidth]
        omega
  · rintro ⟨r, hr, hcov, rfl⟩
    have hend := hc.end_le hr
    have hcov2 := hcov.2
    rw [if_neg
      (by rw [BitVec.lt_def, hsum, kGuestSpaceSize]; simp only [BitVec.toNat_ofNat]; omega),
      hfound r hr hcov]
    simp only [Option.map_some, if_neg (hcov.size_ne hn), Option.some.injEq]
    congr 1
    have h1 := hcov.1
    have h2 := a.isLt
    simp only [BitVec.toNat_sub, BitVec.toNat_setWidth]
    omega

/-! ## The byte of an address -/

/-- The byte at a host pointer. -/
def Host.byte (h : Host) (p : HostPtr) : Byte :=
  match h.blocks p.block with
  | none => 0
  | some b => b.bytes p.off

/-- Where the region keeps the byte of its address `a`. -/
def byteAt (block : Backing × Word → Nat) (r : RegionConfig) (a : Nat) : HostPtr :=
  (placeOf block r).add (a - r.baseAddress.toNat)

/-- The address lies in a region of the backing. -/
def LiesIn (config : List RegionConfig) (backing : Backing) (a : Nat) : Prop :=
  ∃ r ∈ config, classifyBacking r.baseAddress = backing ∧ r.Has a

instance (config : List RegionConfig) (backing : Backing) (a : Nat) :
    Decidable (LiesIn config backing a) :=
  inferInstanceAs (Decidable (∃ r ∈ config, _))

/-- Two addresses of one byte: the same address, or aliases in MEM1 or in MEM2. -/
def SameByte (config : List RegionConfig) (a b : Nat) : Prop :=
  a = b ∨
    (LiesIn config .mem1 a ∧ LiesIn config .mem1 b ∧ a % 0x20000000 = b % 0x20000000) ∨
    (LiesIn config .mem2 a ∧ LiesIn config .mem2 b ∧ a % 0x20000000 = b % 0x20000000)

instance (config : List RegionConfig) (a b : Nat) : Decidable (SameByte config a b) :=
  inferInstanceAs (Decidable (_ ∨ _))

/-- The place in its block of an address of MEM1 or MEM2 is the address modulo
the window. -/
theorem byteAt_off {config : List RegionConfig} (hc : Admissible config)
    (block : Backing × Word → Nat) {r : RegionConfig} (hr : r ∈ config)
    {a : Nat} (ha : r.Has a) : (byteAt block r a).off =
      match classifyBacking r.baseAddress with
      | .owned => a - r.baseAddress.toNat
      | .mem1 => a % 0x20000000
      | .mem2 => a % 0x20000000 - 0x10000000 := by
  have hmod := hc.mod_add_le hr
  obtain ⟨h1, h2⟩ := ha
  have hm2 : classifyBacking r.baseAddress = .mem2 → _ := classifyBacking_mem2
  simp only [byteAt, placeOf, HostPtr.add, foldOf, Memory.request]
  rcases hb : classifyBacking r.baseAddress with _ | _ | _
  · simp only [Nat.zero_add]
  · simp only
    omega
  · have := hm2 hb
    simp only
    omega

theorem Admissible.high {config : List RegionConfig} (hc : Admissible config)
    {r : RegionConfig} (hr : r ∈ config) {a : Nat} (ha : r.Has a)
    (hb : classifyBacking r.baseAddress = .mem2) : 0x10000000 ≤ a % 0x20000000 := by
  have hmod := hc.mod_add_le hr
  have := classifyBacking_mem2 hb
  obtain ⟨h1, h2⟩ := ha
  omega

/-- One byte on the host, exactly for two addresses of one byte. -/
theorem byteAt_eq_iff {config : List RegionConfig} {block : Backing × Word → Nat} {m : Memory}
    (hc : Admissible config) (hm : Laid config block m) {r s : RegionConfig} (hr : r ∈ config)
    (hs : s ∈ config) {a b : Nat} (ha : r.Has a) (hb : s.Has b) :
    byteAt block r a = byteAt block s b ↔ SameByte config a b := by
  have hoffr := byteAt_off hc block hr ha
  have hoffs := byteAt_off hc block hs hb
  constructor
  · intro heq
    have hblock : (placeOf block r).block = (placeOf block s).block := by
      change (byteAt block r a).block = (byteAt block s b).block
      rw [heq]
    have hkey := hm.apart r hr (ha.size_ne) s hs (hb.size_ne) hblock
    simp only [request_key, Prod.mk.injEq] at hkey
    obtain ⟨hback, hbase⟩ := hkey
    rw [heq] at hoffr
    rw [hoffr, ← hback] at hoffs
    rcases hk : classifyBacking r.baseAddress with _ | _ | _
    · have hk' := hback.symm.trans hk
      rw [hk] at hoffs
      simp only [hk, hk', if_true] at hbase
      simp only [hbase] at hoffs
      have h1 := ha.1
      have h2 := hb.1
      rw [hbase] at h1
      exact Or.inl (by omega)
    · rw [hk] at hoffs hback
      exact Or.inr (Or.inl ⟨⟨r, hr, hk, ha⟩, ⟨s, hs, hback.symm, hb⟩, hoffs⟩)
    · rw [hk] at hoffs hback
      have h1 := hc.high hr ha hk
      have h2 := hc.high hs hb hback.symm
      simp only at hoffs
      exact Or.inr (Or.inr ⟨⟨r, hr, hk, ha⟩, ⟨s, hs, hback.symm, hb⟩, by omega⟩)
  · have halias : ∀ k, k ≠ .owned → LiesIn config k a → LiesIn config k b →
        a % 0x20000000 = b % 0x20000000 → byteAt block r a = byteAt block s b := by
      rintro k hk ⟨r', hr', hkr, har'⟩ ⟨s', hs', hks, hbs'⟩ hmod
      obtain rfl := hc.unique hr hr' ha har'
      obtain rfl := hc.unique hs hs' hb hbs'
      have hkey : (Memory.request r).key = (Memory.request s).key := by
        simp only [request_key, hkr, hks, if_neg hk]
      have hblock : (byteAt block r a).block = (byteAt block s b).block := congrArg block hkey
      have hoff : (byteAt block r a).off = (byteAt block s b).off := by
        rw [hoffr, hoffs, hkr, hks, hmod]
        cases k with
        | owned => exact absurd rfl hk
        | mem1 => rfl
        | mem2 => rfl
      calc byteAt block r a = ⟨(byteAt block r a).block, (byteAt block r a).off⟩ := rfl
        _ = byteAt block s b := by rw [hblock, hoff]
    rintro (rfl | ⟨h1, h2, h3⟩ | ⟨h1, h2, h3⟩)
    · rw [hc.unique hr hs ha hb]
    · exact halias .mem1 (by decide) h1 h2 h3
    · exact halias .mem2 (by decide) h1 h2 h3

/-! ## Widths -/

/-- The four widths of an access. -/
inductive Width where
  | w8
  | w16
  | w32
  | w64

def Width.bytes : Width → Nat
  | .w8 => 1
  | .w16 => 2
  | .w32 => 4
  | .w64 => 8

def Width.bits : Width → Nat
  | .w8 => 8
  | .w16 => 16
  | .w32 => 32
  | .w64 => 64

theorem Width.bits_eq (k : Width) : k.bits = 8 * k.bytes := by cases k <;> rfl

theorem Width.bytes_pos (k : Width) : 0 < k.bytes := by cases k <;> decide

theorem Width.bytes_le (k : Width) : k.bytes ≤ 8 := by cases k <;> decide

theorem Width.bytes_lt (k : Width) : k.bytes ≤ 0x100000000 := by cases k <;> decide

namespace Memory

/-- The read of each width. -/
def read (k : Width) (m : Memory) (a : Word) : Option (BitVec k.bits) :=
  match k with
  | .w8 => m.read8 a
  | .w16 => m.read16 a
  | .w32 => m.read32 a
  | .w64 => m.read64 a

/-- The write of each width. -/
def write (k : Width) (m : Memory) (a : Word) (v : BitVec k.bits) : Option Memory :=
  match k with
  | .w8 => m.write8 a v
  | .w16 => m.write16 a v
  | .w32 => m.write32 a v
  | .w64 => m.write64 a v

theorem read_eq (k : Width) (m : Memory) (a : Word) : m.read k a = m.readAs k.bits k.bytes a := by
  cases k with
  | w8 => exact read8_eq m a
  | w16 => rfl
  | w32 => rfl
  | w64 => rfl

theorem write_eq (k : Width) (m : Memory) (a : Word) (v : BitVec k.bits) :
    m.write k a v = m.writeAs k.bits k.bytes a v := by
  cases k with
  | w8 => exact write8_eq m a v
  | w16 => rfl
  | w32 => rfl
  | w64 => rfl

end Memory

/-! ## The abstract store -/

/-- One write of a run. -/
structure Store where
  width : Width
  address : Word
  value : BitVec width.bits

/-- Byte `i` of the stored value, the most significant first. -/
def Store.byte (w : Store) (i : Nat) : Byte := byteLE w.value (w.width.bytes - 1 - i)

/-- The byte of `a` after the store, when it was `old`. -/
def Store.apply (config : List RegionConfig) (w : Store) (a : Nat) (old : Byte) : Byte :=
  match (List.range w.width.bytes).find? fun i => SameByte config (w.address.toNat + i) a with
  | some i => w.byte i
  | none => old

/-- The byte last written to the location of `a`, or 0. -/
def lastByte (config : List RegionConfig) (ws : List Store) (a : Nat) : Byte :=
  ws.foldl (fun old w => w.apply config a old) 0

/-- The writes, in order; `none` when one of them aborts. -/
def runStores (m : Memory) (ws : List Store) : Option Memory :=
  ws.foldlM (fun m w => m.write w.width w.address w.value) m

/-- The `n` bytes at `a` lie inside one region. -/
def InOneRegion (config : List RegionConfig) (a n : Nat) : Prop :=
  ∃ r ∈ config, r.Covers a n

/-- The memory serves `config`, and `f` gives the byte of each mapped address. -/
structure Holds (config : List RegionConfig) (block : Backing × Word → Nat) (m : Memory)
    (f : Nat → Byte) : Prop where
  laid : Laid config block m
  bytes : ∀ r ∈ config, ∀ a, r.Has a → m.host.byte (byteAt block r a) = f a

theorem RegionConfig.Covers.has {r : RegionConfig} {a n i : Nat} (h : r.Covers a n) (hi : i < n) :
    r.Has (a + i) := ⟨by have := h.1; omega, by have := h.2; omega⟩

theorem byteAt_add (block : Backing × Word → Nat) {r : RegionConfig} {a : Nat}
    (h : r.baseAddress.toNat ≤ a) (i : Nat) : byteAt block r (a + i) =
      (byteAt block r a).add i := by
  simp only [byteAt, HostPtr.add, HostPtr.mk.injEq, true_and]
  omega

/-- A location inside a region is inside a live block. -/
theorem Laid.room {config : List RegionConfig} {block : Backing × Word → Nat} {m : Memory}
    (hm : Laid config block m) {r : RegionConfig} (hr : r ∈ config) {a n : Nat}
    (hcov : r.Covers a n) (hn : 0 < n) :
    ∃ b, m.host.blocks (byteAt block r a).block = some b ∧
      (byteAt block r a).off + n ≤ b.size := by
  obtain ⟨b, hb, hle⟩ := hm.live r hr (hcov.size_ne hn)
  refine ⟨b, hb, ?_⟩
  obtain ⟨h1, h2⟩ := hcov
  simp only [byteAt, HostPtr.add]
  omega

theorem readAs_holds {config : List RegionConfig} {block : Backing × Word → Nat} {m : Memory}
    {f : Nat → Byte} (hc : Admissible config) (hm : Holds config block m f) {w n : Nat}
    (hw : w = 8 * n) (hn : 0 < n) (hn8 : n ≤ 0x100000000) {a : Word}
    (hin : InOneRegion config a.toNat n) :
    m.readAs w n a = some (ofBE w n fun i => f (a.toNat + i)) := by
  obtain ⟨r, hr, hcov⟩ := hin
  have hp := (getPointer_laid hc hm.laid a hn hn8 (byteAt block r a.toNat)).mpr
    ⟨r, hr, hcov, rfl⟩
  obtain ⟨b, hb, hle⟩ := hm.laid.room hr hcov hn
  have hload : m.host.load (byteAt block r a.toNat) n =
      some fun i => b.bytes ((byteAt block r a.toNat).off + i) := by
    simp only [Host.load, hb, if_pos hle]
  rw [Memory.readAs, hp]
  simp only [hload, Option.map_some, Option.some.injEq]
  rw [bswap_ofLE _ hw]
  refine ofBE_congr fun i hi => ?_
  rw [← hm.bytes r hr _ (hcov.has hi), byteAt_add block hcov.1, Host.byte]
  simp only [HostPtr.add, hb]

theorem access_isSome {config : List RegionConfig} {block : Backing × Word → Nat} {m : Memory}
    (hc : Admissible config) (hm : Laid config block m) (a : Word) {n : Nat} (hn : 0 < n)
    (hn8 : n ≤ 0x100000000) :
    (m.getPointer a (BitVec.ofNat 64 n)).isSome ↔ InOneRegion config a.toNat n := by
  rw [Option.isSome_iff_exists]
  constructor
  · rintro ⟨p, hp⟩
    obtain ⟨r, hr, hcov, _⟩ := (getPointer_laid hc hm a hn hn8 p).mp hp
    exact ⟨r, hr, hcov⟩
  · rintro ⟨r, hr, hcov⟩
    exact ⟨_, (getPointer_laid hc hm a hn hn8 _).mpr ⟨r, hr, hcov, rfl⟩⟩

theorem read_isSome {config : List RegionConfig} {block : Backing × Word → Nat} {m : Memory}
    {f : Nat → Byte} (hc : Admissible config) (hm : Holds config block m f)
    (k : Width) (a : Word) : (m.read k a).isSome ↔ InOneRegion config a.toNat k.bytes := by
  refine ⟨fun h => ?_, fun h => ?_⟩
  · rw [Memory.read_eq, Memory.readAs] at h
    rw [← access_isSome hc hm.laid a k.bytes_pos k.bytes_lt]
    split at h
    · cases h
    · rename_i p hp
      rw [hp]
      rfl
  · rw [Memory.read_eq, readAs_holds hc hm k.bits_eq k.bytes_pos k.bytes_lt h]
    rfl

theorem apply_other {config : List RegionConfig} {w : Store} {b : Nat} {old : Byte}
    (h : ∀ i < w.width.bytes, ¬ SameByte config (w.address.toNat + i) b) :
    w.apply config b old = old := by
  have hnone : (List.range w.width.bytes).find?
      (fun i => SameByte config (w.address.toNat + i) b) = none := by
    rw [List.find?_eq_none]
    intro i hi
    simpa using h i (List.mem_range.mp hi)
  rw [Store.apply, hnone]

/-- Two memories over one configuration give one byte at `b` when their stores do. -/
theorem read8_frame {config : List RegionConfig} {block : Backing × Word → Nat} {m m' : Memory}
    {f f' : Nat → Byte} (hc : Admissible config) (hm : Holds config block m f)
    (hm' : Holds config block m' f') (b : Word) (h : f' b.toNat = f b.toNat) :
    m'.read8 b = m.read8 b := by
  by_cases hin : InOneRegion config b.toNat 1
  · rw [Memory.read8_eq, Memory.read8_eq, readAs_holds hc hm' rfl (by omega) (by omega) hin,
      readAs_holds hc hm rfl (by omega) (by omega) hin]
    congr 1
    refine ofBE_congr fun i hi => ?_
    have : i = 0 := by omega
    subst this
    exact h
  · have hnone : ∀ {m f}, Holds config block m f → m.read8 b = none := by
      intro m f hm
      have := read_isSome hc hm .w8 b
      rw [Option.eq_none_iff_forall_not_mem]
      intro v hv
      exact hin (this.mp (Option.isSome_iff_exists.mpr ⟨v, hv⟩))
    rw [hnone hm, hnone hm']

/-- A store inside a live block changes its own bytes only. -/
theorem Host.store_ok {h : Host} {p : HostPtr} {n : Nat} {f : Nat → Byte} {b : Block}
    (hb : h.blocks p.block = some b) (hle : p.off + n ≤ b.size) :
    ∃ h', h.store p n f = some h' ∧
      (∀ q, h'.byte q = if q.block = p.block ∧ p.off ≤ q.off ∧ q.off < p.off + n
        then f (q.off - p.off) else h.byte q) ∧
      ∀ k c, h.blocks k = some c → ∃ c', h'.blocks k = some c' ∧ c'.size = c.size := by
  refine ⟨_, by rw [Host.store, hb]; exact if_pos hle, ?_, ?_⟩
  · intro q
    by_cases hq : q.block = p.block
    · simp only [Host.byte, hq, Function.update_self, true_and, hb]
    · simp only [Host.byte, Function.update_of_ne hq, hq, false_and, if_false]
  · intro k c hk
    by_cases hkp : k = p.block
    · subst hkp
      rw [hb, Option.some.injEq] at hk
      exact ⟨_, Function.update_self .., by rw [← hk]⟩
    · exact ⟨c, by simp only [Function.update_of_ne hkp, hk], rfl⟩

/-- The bytes of a region after a store of `n` bytes: those at an alias of a stored byte are
the stored ones. -/
theorem store_holds {config : List RegionConfig} {block : Backing × Word → Nat} {m : Memory}
    {f : Nat → Byte} (hc : Admissible config) (hm : Holds config block m f) {r : RegionConfig}
    (hr : r ∈ config) {a n : Nat} (hcov : r.Covers a n) (hn : 0 < n) (g : Nat → Byte) :
    ∃ h', m.host.store (byteAt block r a) n g = some h' ∧
      Laid config block { m with host := h' } ∧
      ∀ s ∈ config, ∀ b, s.Has b →
        (∀ i < n, SameByte config (a + i) b → h'.byte (byteAt block s b) = g i) ∧
        ((∀ i < n, ¬SameByte config (a + i) b) → h'.byte (byteAt block s b) = f b) := by
  obtain ⟨c, hblock, hle⟩ := hm.laid.room hr hcov hn
  obtain ⟨h', hstore, hbyte, hlive⟩ := Host.store_ok (f := g) hblock hle
  have hl := hm.laid
  refine ⟨h', hstore, ⟨hl.initialized, hl.regions, ?_, hl.apart⟩, ?_⟩
  · intro s hs hz
    obtain ⟨c, hc1, hc2⟩ := hl.live s hs hz
    obtain ⟨c', hc1', hc2'⟩ := hlive _ c hc1
    exact ⟨c', hc1', hc2' ▸ hc2⟩
  · intro s hs b hb
    rw [hbyte, hm.bytes s hs b hb]
    -- the index of a stored byte is the index of its alias
    have hidx : ∀ i < n, SameByte config (a + i) b ↔
        byteAt block s b = (byteAt block r a).add i := by
      intro i hi
      rw [← byteAt_eq_iff hc hl hr hs (hcov.has hi) hb, byteAt_add block hcov.1, eq_comm]
    constructor
    · intro i hi hsame
      rw [(hidx i hi).mp hsame, HostPtr.add,
        if_pos ⟨rfl, by simp only; omega, by simp only; omega⟩]
      simp only [Nat.add_sub_cancel_left]
    · intro hnone
      rw [if_neg]
      rintro ⟨h1, h2, h3⟩
      apply hnone ((byteAt block s b).off - (byteAt block r a).off) (by omega)
      rw [hidx _ (by omega)]
      calc byteAt block s b = ⟨(byteAt block s b).block, (byteAt block s b).off⟩ := rfl
        _ = _ := by
          rw [HostPtr.add, h1]
          congr 1
          omega

/-- One write: the abstract store takes the value at every alias. -/
theorem write_holds {config : List RegionConfig} {block : Backing × Word → Nat} {m : Memory}
    {f : Nat → Byte} (hc : Admissible config) (hm : Holds config block m f) (w : Store)
    (hin : InOneRegion config w.address.toNat w.width.bytes) :
    ∃ m', m.write w.width w.address w.value = some m' ∧
      Holds config block m' fun a => w.apply config a (f a) := by
  obtain ⟨r, hr, hcov⟩ := hin
  have hn := w.width.bytes_pos
  have hp := (getPointer_laid hc hm.laid w.address hn w.width.bytes_lt
    (byteAt block r w.address.toNat)).mpr ⟨r, hr, hcov, rfl⟩
  obtain ⟨h', hstore, hlaid, hbyte⟩ :=
    store_holds hc hm hr hcov hn (byteLE (bswap w.width.bytes w.value))
  refine ⟨{ m with host := h' }, ?_, hlaid, fun s hs a ha => ?_⟩
  · rw [Memory.write_eq, Memory.writeAs, hp]
    simp only [hstore, Option.map_some]
  · obtain ⟨hstored, hkept⟩ := hbyte s hs a ha
    unfold Store.apply
    rcases hf : (List.range w.width.bytes).find? _ with _ | i
    · refine hkept fun i hi => ?_
      simpa using List.find?_eq_none.mp hf i (List.mem_range.mpr hi)
    · have hi : i < w.width.bytes := List.mem_range.mp (List.mem_of_find?_eq_some hf)
      exact (hstored i hi (by simpa using List.find?_some hf)).trans
        (byteLE_bswap w.value hi w.width.bits_eq)

theorem write_inside {config : List RegionConfig} {block : Backing × Word → Nat} {m m' : Memory}
    (hc : Admissible config) (hm : Laid config block m) {k : Width} {a : Word}
    {v : BitVec k.bits} (h : m.write k a v = some m') : InOneRegion config a.toNat k.bytes := by
  rw [← access_isSome hc hm a k.bytes_pos k.bytes_lt, Option.isSome_iff_exists]
  rw [Memory.write_eq, Memory.writeAs] at h
  split at h
  · cases h
  · rename_i p hp
    exact ⟨p, hp⟩

theorem runStores_holds {config : List RegionConfig} {block : Backing × Word → Nat}
    {ws : List Store} {m m' : Memory} {f : Nat → Byte} (hc : Admissible config)
    (hm : Holds config block m f) (h : runStores m ws = some m') :
    Holds config block m' fun a => ws.foldl (fun old w => w.apply config a old) (f a) := by
  induction ws generalizing m f with
  | nil =>
    simp only [runStores, List.foldlM_nil, Option.pure_def, Option.some.injEq] at h
    exact h ▸ hm
  | cons w ws ih =>
    rw [runStores, List.foldlM_cons, Option.bind_eq_bind, Option.bind_eq_some_iff] at h
    obtain ⟨m₁, hw, hrest⟩ := h
    obtain ⟨m₂, hw', hm₂⟩ := write_holds hc hm w (write_inside hc hm.laid hw)
    rw [hw, Option.some.injEq] at hw'
    subst hw'
    exact ih hm₂ hrest

/-! ## The initialization -/

/-- The states of the memory that calls of `init` and `reset` and writes lead to
from the start of the process. -/
inductive Booted : Memory → Prop
  | start (h : Host) : Booted ⟨false, [], .fresh, h⟩
  | reset {m : Memory} : Booted m → Booted m.reset
  | init {m m' : Memory} {env : HostEnv} {config : List RegionConfig} :
      Booted m → Memory.init env config m = some m' → Booted m'
  | write {m m' : Memory} {w : Store} :
      Booted m → m.write w.width w.address w.value = some m' → Booted m'

theorem reset_flat {m : Memory} (h : m.flat.active = true ∨ m.flat = .fresh) :
    m.reset.flat = .fresh := by
  unfold Memory.reset
  split
  · rfl
  · rename_i hact
    exact h.resolve_left hact

theorem initializeGuestFlat_active {env : HostEnv} {reqs : List RegionRequest} {st : FlatState}
    {h : Host} (hok : (initializeGuestFlat env reqs st h).ok = true) :
    (initializeGuestFlat env reqs st h).state.active = true := by
  unfold initializeGuestFlat at hok ⊢
  split at hok
  · cases hok
  rename_i h1
  rw [if_neg h1]
  split at hok
  · cases hok
  rename_i h2
  rw [if_neg h2]
  split at hok
  · cases hok
  rename_i st' heq
  simp only at hok ⊢
  split at hok
  · cases hok
  rename_i h3
  rw [if_neg h3]
  split at hok
  · cases hok
  rename_i h4
  rw [if_neg h4]
  split at hok
  · rename_i h5
    rw [if_pos h5]
  · cases hok

theorem Booted.flat {m : Memory} (h : Booted m) : m.flat.active = true ∨ m.flat = .fresh := by
  induction h with
  | start h => exact Or.inr rfl
  | reset _ ih => exact Or.inr (reset_flat ih)
  | @init m m' env config _ hinit _ =>
    unfold Memory.init at hinit
    simp only at hinit
    split at hinit
    · rename_i hok
      split at hinit
      · cases hinit
      · rw [Option.some.injEq] at hinit
        exact hinit ▸ Or.inl (initializeGuestFlat_active hok)
    · cases hinit
  | @write m m' w _ hw ih =>
    rw [Memory.write_eq, Memory.writeAs] at hw
    split at hw
    · cases hw
    · obtain ⟨host, _, rfl⟩ := Option.map_eq_some_iff.mp hw
      exact ih

theorem mapM_some {α β : Type} {l : List α} {f : α → Option β} {g : α → β}
    (h : ∀ a ∈ l, f a = some (g a)) : l.mapM f = some (l.map g) := by
  induction l with
  | nil => rfl
  | cons a l ih =>
    rw [List.mapM_cons, h a (by simp), ih fun b hb => h b (List.mem_cons_of_mem _ hb)]
    rfl

theorem bindRegion_ready {config : List RegionConfig} {first : Nat} {st : FlatState} {h : Host}
    (hc : Admissible config)
    (hr : Ready ((config.map Memory.request).filter fun r => r.size ≠ 0#64) first st h)
    {r : RegionConfig} (hmem : r ∈ config) :
    Memory.bindRegion st r = some ⟨r, if r.sizeBytes = 0#64 then none else
      some (placeOf (blockOfKey first st.sections) r), r.sizeBytes⟩ := by
  unfold Memory.bindRegion
  by_cases hz : r.sizeBytes = 0#64
  · rw [if_pos hz, if_pos hz]
  have hpos : 0 < r.sizeBytes.toNat := by
    rw [← BitVec.toNat_inj] at hz
    simp only [BitVec.toNat_ofNat] at hz
    omega
  have hd : ((config.map Memory.request).filter fun r => r.size ≠ 0#64).Pairwise
      fun r s => ∀ x, ¬ (r.Has x ∧ s.Has x) :=
    List.Pairwise.filter _ (List.pairwise_map.mpr hc.disjoint)
  have hin : Memory.request r ∈ (config.map Memory.request).filter fun r => r.size ≠ 0#64 :=
    List.mem_filter.mpr ⟨List.mem_map_of_mem hmem, decide_eq_true hz⟩
  have hp := hostPointer_ready hr hd hin (a := r.baseAddress)
    ⟨Nat.le_refl _, Nat.lt_add_of_pos_right hpos⟩
  rw [if_neg hz, if_neg hz, hp]
  simp only [Memory.request, Nat.sub_self, Nat.add_zero, placeOf]

/-- The requests of an admissible configuration fit. -/
theorem Admissible.fitting {config : List RegionConfig} (hc : Admissible config) :
    (∀ q ∈ config.map Memory.request, q.size ≠ 0#64 → Fits q) ∧
      (config.map Memory.request).length ≤ 32 := by
  constructor
  · intro q hq hz
    obtain ⟨r, hr, rfl⟩ := List.mem_map.mp hq
    exact hc.fits hr hz
  · rw [List.length_map]
    exact hc.count

/-- A memory that `init` accepts serves its regions, with zeros everywhere. -/
theorem init_holds {env : HostEnv} {config : List RegionConfig} {m₀ m : Memory}
    (hc : Admissible config) (h₀ : Booted m₀) (h : Memory.init env config m₀ = some m) :
    ∃ block, Holds config block m fun _ => 0 := by
  obtain ⟨hfits, hcount⟩ := hc.fitting
  unfold Memory.init at h
  simp only [reset_flat h₀.flat] at h
  split at h
  · rename_i hok
    obtain ⟨report, st, host, heq, hr⟩ := initializeGuestFlat_fits hfits hcount hok
    simp only [heq] at h
    split at h
    · cases h
    · rename_i regions hmap
      rw [Option.some.injEq] at h
      subst h
      let block := blockOfKey m₀.reset.host.next st.sections
      -- the entry of each region, and the section and the block behind it
      have hroom : ∀ r ∈ config, r.sizeBytes ≠ 0#64 → ∃ i s, st.sections[i]? = some s ∧
          s.key = (Memory.request r).key ∧ block (Memory.request r).key =
            m₀.reset.host.next + i ∧
          foldOf (Memory.request r) + r.sizeBytes.toNat ≤ s.size.toNat := by
        intro r hr' hz
        have hin : Memory.request r ∈ (config.map Memory.request).filter fun r =>
            r.size ≠ 0#64 :=
          List.mem_filter.mpr ⟨List.mem_map_of_mem hr', decide_eq_true hz⟩
        obtain ⟨i, hi, hir⟩ := List.getElem_of_mem hin
        have hi' : i < st.regions.length := hr.places.length_eq ▸ hi
        have hpl : Placed st.sections (Memory.request r) st.regions[i] := by
          rw [← hir]
          exact hr.places.get hi hi'
        obtain ⟨s, hs, hk, hle⟩ := hpl.room
        exact ⟨_, s, hs, hk, hk ▸ blockOfKey_eq hr.keys hs, hle⟩
      refine ⟨block, ⟨rfl, ?_, ?_, ?_⟩, ?_⟩
      · have hall : config.mapM (Memory.bindRegion st) = some (config.map fun r =>
            ⟨r, if r.sizeBytes = 0#64 then none else some (placeOf block r), r.sizeBytes⟩) :=
          mapM_some fun r hr' => bindRegion_ready hc hr hr'
        rw [hall, Option.some.injEq] at hmap
        exact hmap.symm
      · intro r hr' hz
        obtain ⟨i, s, hs, _, hb, hle⟩ := hroom r hr' hz
        refine ⟨⟨s.size.toNat, fun _ => 0⟩, ?_, hle⟩
        simp only [placeOf, hb]
        exact (hr.view i s hs).2
      · intro r hr' hz q hq hqz hblock
        obtain ⟨i, s, hs, hk, hb, _⟩ := hroom r hr' hz
        obtain ⟨j, t, ht, hk', hb', _⟩ := hroom q hq hqz
        simp only [placeOf, hb, hb', Nat.add_left_cancel_iff] at hblock
        subst hblock
        rw [hs, Option.some.injEq] at ht
        rw [← hk, ← hk', ht]
      · intro r hr' a ha
        obtain ⟨i, s, hs, _, hb, _⟩ := hroom r hr' ha.size_ne
        simp only [Host.byte, byteAt, placeOf, HostPtr.add, hb, (hr.view i s hs).2]
  · cases h

/-- `Memory::Init` goes through where the flat memory does. -/
theorem init_isSome_iff {env : HostEnv} {config : List RegionConfig} {m₀ : Memory}
    (hc : Admissible config) (h₀ : Booted m₀) : (Memory.init env config m₀).isSome ↔
      (initializeGuestFlat env (config.map Memory.request) .fresh m₀.reset.host).ok = true := by
  unfold Memory.init
  simp only [reset_flat h₀.flat]
  cases hok : (initializeGuestFlat env (config.map Memory.request) .fresh m₀.reset.host).ok with
  | false => simp
  | true =>
    obtain ⟨report, st, host, heq, hr⟩ := initializeGuestFlat_fits hc.fitting.1 hc.fitting.2 hok
    have hall := mapM_some (l := config) fun r hr' => bindRegion_ready hc hr hr'
    simp only [heq, hall, if_true, Option.isSome_some]

theorem init_granted {env : HostEnv} {config : List RegionConfig} {m₀ : Memory}
    (he : env.Grants) (hc : Admissible config) (h₀ : Booted m₀) :
    (Memory.init env config m₀).isSome :=
  (init_isSome_iff hc h₀).mpr (initializeGuestFlat_granted he hc.fitting.1 hc.fitting.2)

/-! ## The law of the memory -/

/-- Over every admissible configuration that `init` accepts, and after every run
of writes: an access goes through exactly inside one region, a read gives the
bytes last written in big-endian order, two mapped addresses share their host
byte exactly when they name one byte, and a write leaves each other byte. -/
theorem the_memory_is_one_byte_store {env : HostEnv} {config : List RegionConfig} {m₀ : Memory}
    (hc : Admissible config) (h₀ : Booted m₀) :
    (env.Grants → (Memory.init env config m₀).isSome) ∧
    ∀ m, Memory.init env config m₀ = some m → ∀ ws m', runStores m ws = some m' →
      (∀ (k : Width) (a : Word), (m'.read k a).isSome ↔ InOneRegion config a.toNat k.bytes) ∧
      (∀ (k : Width) (a : Word) (v : BitVec k.bits),
        (m'.write k a v).isSome ↔ InOneRegion config a.toNat k.bytes) ∧
      (∀ (k : Width) (a : Word) (v : BitVec k.bits), m'.read k a = some v →
        v = ofBE k.bits k.bytes fun i => lastByte config ws (a.toNat + i)) ∧
      (∀ a b : Word, (m'.getPointer a 1#64).isSome → (m'.getPointer b 1#64).isSome →
        (m'.getPointer a 1#64 = m'.getPointer b 1#64 ↔ SameByte config a.toNat b.toNat)) ∧
      ∀ (w : Store) (m'' : Memory), m'.write w.width w.address w.value = some m'' →
        ∀ b : Word, (∀ i < w.width.bytes, ¬ SameByte config (w.address.toNat + i) b.toNat) →
          m''.read8 b = m'.read8 b := by
  refine ⟨fun he => init_granted he hc h₀, fun m hm ws m' hws => ?_⟩
  obtain ⟨block, hzero⟩ := init_holds hc h₀ hm
  have hlast : Holds config block m' (lastByte config ws) := runStores_holds hc hzero hws
  refine ⟨fun k a => ?_, fun k a v => ?_, fun k a v hv => ?_, fun a b ha hb => ?_,
    fun w m'' hw b hb => ?_⟩
  · exact read_isSome hc hlast k a
  · refine ⟨fun h => ?_, fun h => ?_⟩
    · obtain ⟨m'', hw⟩ := Option.isSome_iff_exists.mp h
      exact write_inside hc hlast.laid hw
    · obtain ⟨m'', hw, _⟩ := write_holds hc hlast ⟨k, a, v⟩ h
      exact Option.isSome_iff_exists.mpr ⟨m'', hw⟩
  · have hin := (read_isSome hc hlast k a).mp (by rw [hv]; rfl)
    rw [Memory.read_eq, readAs_holds hc hlast k.bits_eq k.bytes_pos k.bytes_lt hin,
      Option.some.injEq] at hv
    exact hv.symm
  · obtain ⟨p, hp⟩ := Option.isSome_iff_exists.mp ha
    obtain ⟨q, hq⟩ := Option.isSome_iff_exists.mp hb
    obtain ⟨r, hr, hcov, hpr⟩ := (getPointer_laid hc hlast.laid a (by omega) (by omega) p).mp hp
    obtain ⟨s, hs, hcov', hqs⟩ :=
      (getPointer_laid hc hlast.laid b (by omega) (by omega) q).mp hq
    rw [hp, hq, Option.some.injEq, hpr, hqs]
    exact byteAt_eq_iff hc hlast.laid hr hs (hcov.has Nat.one_pos) (hcov'.has Nat.one_pos)
  · obtain ⟨m₂, hw', hm₂⟩ := write_holds hc hlast w (write_inside hc hlast.laid hw)
    rw [hw, Option.some.injEq] at hw'
    subst hw'
    exact read8_frame hc hlast hm₂ b (apply_other hb)

theorem wiiDefaults_admissible : Admissible wiiDefaults := by
  refine ⟨by decide, ?_, ?_⟩
  · simp only [wiiDefaults, List.pairwise_cons, List.mem_cons, List.not_mem_nil, or_false,
      forall_eq_or_imp, forall_eq, RegionConfig.Has, kMem1PhysicalBase, kMem1CachedBase,
      kMem1UncachedBase, kMem2PhysicalBase, kMem2CachedBase, kMem2UncachedBase, kLockedCacheBase,
      kMem1Size, kMem2Size, kLockedCacheSize, BitVec.toNat_ofNat, BitVec.toNat_setWidth,
      false_imp_iff, implies_true, List.Pairwise.nil, and_true]
    and_intros
    all_goals
      intro x
      omega
  · simp only [wiiDefaults, List.mem_cons, List.not_mem_nil, or_false, forall_eq_or_imp, forall_eq,
      kMem1PhysicalBase, kMem1CachedBase, kMem1UncachedBase, kMem2PhysicalBase, kMem2CachedBase,
      kMem2UncachedBase, kLockedCacheBase, kMem1Size, kMem2Size, kLockedCacheSize,
      BitVec.toNat_ofNat, BitVec.toNat_setWidth]
    and_intros
    all_goals
      intro k
      omega

/-- The law at the regions of a Wii, on a host that grants everything. -/
theorem the_wii_memory_is_one_byte_store :
    ∃ m, Memory.init ⟨some 0, some 0, fun _ => true⟩ wiiDefaults
        ⟨false, [], .fresh, ⟨fun _ => none, 0, []⟩⟩ = some m ∧
      ∀ ws m', runStores m ws = some m' → ∀ v, m'.read .w32 0x80000100#32 = some v →
        v = ofBE 32 4 fun i => lastByte wiiDefaults ws ((0x80000100#32).toNat + i) := by
  have h := @the_memory_is_one_byte_store ⟨some 0, some 0, fun _ => true⟩ _ _
    wiiDefaults_admissible (Booted.start ⟨fun _ => none, 0, []⟩)
  obtain ⟨m, hm⟩ := Option.isSome_iff_exists.mp (h.1 ⟨rfl, rfl, fun _ => rfl⟩)
  exact ⟨m, hm, fun ws m' hws v hv => (h.2 m hm ws m' hws).2.2.1 .w32 _ v hv⟩

-- A store to cached MEM1 and one to its uncached alias, read at the physical address.
example : ofBE 16 2 (fun i => lastByte wiiDefaults
    [⟨.w32, 0x80000100#32, 0x11223344#32⟩, ⟨.w8, 0xC0000101#32, 0xAA#8⟩] (0x100 + i)) =
      0x11AA#16 := by decide

end wii_switch
