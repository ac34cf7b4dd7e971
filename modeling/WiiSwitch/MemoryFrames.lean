-- The memory of an admissible configuration seen through its accesses alone: what
-- a write leaves, what a read gives after it, and which addresses stay apart.
import WiiSwitch.MemoryLaws

namespace wii_switch

open Bytes

/-! ## Addresses of different bytes -/

theorem sameByte_self (config : List RegionConfig) (a : Nat) : SameByte config a a := Or.inl rfl

theorem SameByte.symm {config : List RegionConfig} {a b : Nat} (h : SameByte config a b) :
    SameByte config b a := by
  rcases h with h | ⟨h1, h2, h3⟩ | ⟨h1, h2, h3⟩
  · exact Or.inl h.symm
  · exact Or.inr (Or.inl ⟨h2, h1, h3.symm⟩)
  · exact Or.inr (Or.inr ⟨h2, h1, h3.symm⟩)

/-- Aliases agree modulo the window. -/
theorem SameByte.mod_eq {config : List RegionConfig} {a b : Nat} (h : SameByte config a b) :
    a % 0x20000000 = b % 0x20000000 := by
  rcases h with rfl | ⟨_, _, h⟩ | ⟨_, _, h⟩
  · rfl
  · exact h
  · exact h

/-- Two aliases that are close are equal. -/
theorem SameByte.near {config : List RegionConfig} {a i j : Nat}
    (h : SameByte config (a + i) (a + j)) (hi : i < 0x20000000) (hj : j < 0x20000000) : i = j := by
  have := h.mod_eq
  omega

/-- No byte of the first range is a byte of the second. -/
def Apart (config : List RegionConfig) (a n b k : Nat) : Prop :=
  ∀ i < n, ∀ j < k, ¬ SameByte config (a + i) (b + j)

theorem Apart.symm {config : List RegionConfig} {a n b k : Nat} (h : Apart config a n b k) :
    Apart config b k a n := fun i hi j hj hs => h j hj i hi hs.symm

theorem apart_of_mod (config : List RegionConfig) {a n b k : Nat}
    (ha : a % 0x20000000 + n ≤ 0x20000000) (hb : b % 0x20000000 + k ≤ 0x20000000)
    (h : a % 0x20000000 + n ≤ b % 0x20000000 ∨ b % 0x20000000 + k ≤ a % 0x20000000) :
    Apart config a n b k := by
  intro i hi j hj hs
  have := hs.mod_eq
  omega

/-- A part of a range in one region. -/
theorem InOneRegion.inside {config : List RegionConfig} {a : Word} {n k : Nat}
    (hc : Admissible config) (off : Word) (h : InOneRegion config a.toNat n)
    (hk : off.toNat + k ≤ n) (hlt : off.toNat < n) : InOneRegion config (a + off).toNat k := by
  obtain ⟨r, hr, h1, h2⟩ := h
  have := hc.end_le hr
  have hadd : (a + off).toNat = a.toNat + off.toNat := by
    rw [BitVec.toNat_add]
    omega
  exact ⟨r, hr, by omega, by omega⟩

/-! ## Memories that serve a configuration -/

/-- The memory serves the admissible configuration, whatever its bytes are. -/
structure Serves (config : List RegionConfig) (m : Memory) : Prop where
  admissible : Admissible config
  holds : ∃ block f, Holds config block m f

theorem Serves.init {env : HostEnv} {config : List RegionConfig} {m₀ m : Memory}
    (hc : Admissible config) (h₀ : Booted m₀) (h : Memory.init env config m₀ = some m) :
    Serves config m := by
  obtain ⟨block, hm⟩ := init_holds hc h₀ h
  exact ⟨hc, block, _, hm⟩

theorem Serves.initialized {config : List RegionConfig} {m : Memory} (h : Serves config m) :
    m.initialized = true := by
  obtain ⟨block, f, hm⟩ := h.holds
  exact hm.laid.initialized

theorem Serves.contains_iff {config : List RegionConfig} {m : Memory} (h : Serves config m)
    (a : Word) {n : Nat} (hn : 0 < n) (hn' : n ≤ 0x100000000) :
    m.contains a (BitVec.ofNat 64 n) = true ↔ InOneRegion config a.toNat n := by
  obtain ⟨block, f, hm⟩ := h.holds
  exact access_isSome h.admissible hm.laid a hn hn'

theorem Serves.read_isSome {config : List RegionConfig} {m : Memory} (h : Serves config m)
    (k : Width) (a : Word) : (m.read k a).isSome ↔ InOneRegion config a.toNat k.bytes := by
  obtain ⟨block, f, hm⟩ := h.holds
  exact wii_switch.read_isSome h.admissible hm k a

theorem Serves.read32_isSome {config : List RegionConfig} {m : Memory} (h : Serves config m)
    (a : Word) : (m.read32 a).isSome ↔ InOneRegion config a.toNat 4 := h.read_isSome .w32 a

theorem Serves.read16_isSome {config : List RegionConfig} {m : Memory} (h : Serves config m)
    (a : Word) : (m.read16 a).isSome ↔ InOneRegion config a.toNat 2 := h.read_isSome .w16 a

theorem Serves.contains32 {config : List RegionConfig} {m : Memory} (h : Serves config m)
    (a : Word) : m.contains a 4#64 = (m.read32 a).isSome := by
  rw [Bool.eq_iff_iff, h.read32_isSome]
  exact h.contains_iff a (by omega) (by omega)

theorem Serves.contains16 {config : List RegionConfig} {m : Memory} (h : Serves config m)
    (a : Word) : m.contains a 2#64 = (m.read16 a).isSome := by
  rw [Bool.eq_iff_iff, h.read16_isSome]
  exact h.contains_iff a (by omega) (by omega)

theorem Serves.read_some {config : List RegionConfig} {m : Memory} (h : Serves config m)
    {k : Width} {a : Word} (hin : InOneRegion config a.toNat k.bytes) : ∃ x,
    m.read k a = some x :=
  Option.isSome_iff_exists.mp ((h.read_isSome k a).mpr hin)

theorem Serves.write_some {config : List RegionConfig} {m : Memory} (h : Serves config m)
    {k : Width} {a : Word} (hin : InOneRegion config a.toNat k.bytes) (x : BitVec k.bits) :
    ∃ m', m.write k a x = some m' := by
  obtain ⟨block, f, hm⟩ := h.holds
  obtain ⟨m', hw, _⟩ := write_holds h.admissible hm ⟨k, a, x⟩ hin
  exact ⟨m', hw⟩

theorem Serves.read32_some {config : List RegionConfig} {m : Memory} (h : Serves config m)
    {a : Word} (hin : InOneRegion config a.toNat 4) : ∃ x, m.read32 a = some x :=
  Option.isSome_iff_exists.mp ((h.read32_isSome a).mpr hin)

theorem Serves.read16_some {config : List RegionConfig} {m : Memory} (h : Serves config m)
    {a : Word} (hin : InOneRegion config a.toNat 2) : ∃ x, m.read16 a = some x :=
  Option.isSome_iff_exists.mp ((h.read16_isSome a).mpr hin)

theorem Serves.write32_some {config : List RegionConfig} {m : Memory} (h : Serves config m)
    {a : Word} (hin : InOneRegion config a.toNat 4) (x : Word) : ∃ m', m.write32 a x = some m' :=
  h.write_some (k := .w32) hin x

theorem Serves.write16_some {config : List RegionConfig} {m : Memory} (h : Serves config m)
    {a : Word} (hin : InOneRegion config a.toNat 2) (x : Half) : ∃ m', m.write16 a x = some m' :=
  h.write_some (k := .w16) hin x

theorem Serves.write_inside {config : List RegionConfig} {m m' : Memory} (h : Serves config m)
    {k : Width} {a : Word} {x : BitVec k.bits} (hw : m.write k a x = some m') :
    InOneRegion config a.toNat k.bytes := by
  obtain ⟨block, f, hm⟩ := h.holds
  exact wii_switch.write_inside h.admissible hm.laid hw

theorem Serves.write_holds {config : List RegionConfig} {block : Backing × Word → Nat}
    {m m' : Memory} {f : Nat → Byte} (hc : Admissible config) (hm : Holds config block m f)
    {k : Width} {a : Word} {x : BitVec k.bits} (hw : m.write k a x = some m') :
    Holds config block m' fun b => (Store.mk k a x).apply config b (f b) := by
  obtain ⟨m₂, hw', hm₂⟩ := wii_switch.write_holds hc hm ⟨k, a, x⟩
    (wii_switch.write_inside hc hm.laid hw)
  rw [hw, Option.some.injEq] at hw'
  exact hw' ▸ hm₂

theorem Serves.write {config : List RegionConfig} {m m' : Memory} (h : Serves config m)
    {k : Width} {a : Word} {x : BitVec k.bits} (hw : m.write k a x = some m') :
    Serves config m' := by
  obtain ⟨block, f, hm⟩ := h.holds
  exact ⟨h.admissible, block, _, Serves.write_holds h.admissible hm hw⟩

theorem Serves.write32 {config : List RegionConfig} {m m' : Memory} (h : Serves config m)
    {a x : Word} (hw : m.write32 a x = some m') : Serves config m' := h.write (k := .w32) hw

theorem Serves.write16 {config : List RegionConfig} {m m' : Memory} (h : Serves config m)
    {a : Word} {x : Half} (hw : m.write16 a x = some m') : Serves config m' :=
  h.write (k := .w16) hw

/-- A read is decided by the bytes of its addresses. -/
theorem read_congr {config : List RegionConfig} {block : Backing × Word → Nat} {m m' : Memory}
    {f f' : Nat → Byte} (hc : Admissible config) (hm : Holds config block m f)
    (hm' : Holds config block m' f') {k : Width} {a : Word}
    (h : ∀ i < k.bytes, (∃ r ∈ config, r.Has (a.toNat + i)) →
      f' (a.toNat + i) = f (a.toNat + i)) : m'.read k a = m.read k a := by
  by_cases hin : InOneRegion config a.toNat k.bytes
  · obtain ⟨r, hr, hcov⟩ := hin
    rw [Memory.read_eq, Memory.read_eq,
      readAs_holds hc hm' k.bits_eq k.bytes_pos k.bytes_lt ⟨r, hr, hcov⟩,
      readAs_holds hc hm k.bits_eq k.bytes_pos k.bytes_lt ⟨r, hr, hcov⟩]
    congr 1
    exact ofBE_congr fun i hi => h i hi ⟨r, hr, hcov.has hi⟩
  · have hnone : ∀ {m f}, Holds config block m f → m.read k a = none := by
      intro m f hm
      rw [← Option.not_isSome_iff_eq_none, wii_switch.read_isSome hc hm]
      exact hin
    rw [hnone hm, hnone hm']

/-- An equal read means equal bytes, at every alias of its addresses. -/
theorem Serves.read8_of_read {config : List RegionConfig} {m m' : Memory} (h : Serves config m)
    (h' : Serves config m') {k : Width} {a b : Word} {i : Nat} (hi : i < k.bytes)
    (hin : InOneRegion config a.toNat k.bytes) (hs : SameByte config (a.toNat + i) b.toNat)
    (heq : m'.read k a = m.read k a) : m'.read8 b = m.read8 b := by
  have hc := h.admissible
  obtain ⟨block, f, hm⟩ := h.holds
  obtain ⟨block', f', hm'⟩ := h'.holds
  have hbyte : f' (a.toNat + i) = f (a.toNat + i) := by
    rw [Memory.read_eq, Memory.read_eq, readAs_holds hc hm' k.bits_eq k.bytes_pos k.bytes_lt hin,
      readAs_holds hc hm k.bits_eq k.bytes_pos k.bytes_lt hin, Option.some.injEq] at heq
    have hle := congrArg (fun x => byteLE x (k.bytes - 1 - i)) heq
    simp only [byteLE_ofBE _ hi k.bits_eq] at hle
    exact hle
  by_cases hb : InOneRegion config b.toNat 1
  · have hshare : ∀ {block m f}, Holds config block m f → f b.toNat = f (a.toNat + i) := by
      intro block m f hm
      obtain ⟨r, hr, hcov⟩ := hin
      obtain ⟨q, hq, hcov'⟩ := hb
      have hb' : q.Has b.toNat := hcov'.has one_pos
      have hplace := (byteAt_eq_iff hc hm.laid hr hq (hcov.has hi) hb').mpr hs
      rw [← hm.bytes q hq _ hb', ← hm.bytes r hr _ (hcov.has hi), hplace]
    change m'.read .w8 b = m.read .w8 b
    rw [Memory.read_eq, Memory.read_eq,
      readAs_holds hc hm' Width.w8.bits_eq Width.w8.bytes_pos Width.w8.bytes_lt hb,
      readAs_holds hc hm Width.w8.bits_eq Width.w8.bytes_pos Width.w8.bytes_lt hb]
    congr 1
    refine ofBE_congr fun j hj => ?_
    obtain rfl : j = 0 := by simpa [Width.bytes] using hj
    rw [Nat.add_zero, hshare hm', hshare hm, hbyte]
  · have hnone : ∀ {m}, Serves config m → m.read8 b = none := by
      intro m hm
      rw [← Option.not_isSome_iff_eq_none]
      exact fun hsome => hb ((hm.read_isSome .w8 b).mp hsome)
    rw [hnone h, hnone h']

/-- Reads are equal when all their bytes are. -/
theorem Serves.read_of_read8 {config : List RegionConfig} {m m' : Memory} (h : Serves config m)
    (h' : Serves config m') {k : Width} {a : Word}
    (heq : ∀ b : Word, (∃ i < k.bytes, b.toNat = a.toNat + i) → m'.read8 b = m.read8 b) :
    m'.read k a = m.read k a := by
  have hc := h.admissible
  by_cases hin : InOneRegion config a.toNat k.bytes
  · obtain ⟨block, f, hm⟩ := h.holds
    obtain ⟨block', f', hm'⟩ := h'.holds
    rw [Memory.read_eq, Memory.read_eq, readAs_holds hc hm' k.bits_eq k.bytes_pos k.bytes_lt hin,
      readAs_holds hc hm k.bits_eq k.bytes_pos k.bytes_lt hin]
    congr 1
    refine ofBE_congr fun i hi => ?_
    obtain ⟨r, hr, hcov⟩ := hin
    have hend := hc.end_le hr
    have hfit := hcov.2
    have hto : (a + BitVec.ofNat 32 i).toNat = a.toNat + i := by
      rw [BitVec.toNat_add, BitVec.toNat_ofNat]
      omega
    have hcov1 : InOneRegion config (a + BitVec.ofNat 32 i).toNat 1 := by
      refine ⟨r, hr, ?_, ?_⟩
      · have := hcov.1
        omega
      · omega
    have hbyte := heq (a + BitVec.ofNat 32 i) ⟨i, hi, hto⟩
    change Memory.read .w8 m' _ = Memory.read .w8 m _ at hbyte
    rw [Memory.read_eq, Memory.read_eq,
      readAs_holds hc hm' Width.w8.bits_eq Width.w8.bytes_pos Width.w8.bytes_lt hcov1,
      readAs_holds hc hm Width.w8.bits_eq Width.w8.bytes_pos Width.w8.bytes_lt hcov1,
      Option.some.injEq] at hbyte
    have hle := congrArg (fun x => byteLE x (Width.w8.bytes - 1 - 0)) hbyte
    simp only [byteLE_ofBE _ Width.w8.bytes_pos Width.w8.bits_eq, Nat.add_zero, hto] at hle
    exact hle
  · have hnone : ∀ {m}, Serves config m → m.read k a = none := by
      intro m hm
      rw [← Option.not_isSome_iff_eq_none]
      exact fun hsome => hin ((hm.read_isSome k a).mp hsome)
    rw [hnone h, hnone h']

/-- The frame of a write. -/
theorem Serves.read_frame {config : List RegionConfig} {m m' : Memory} (h : Serves config m)
    {k : Width} {a : Word} {x : BitVec k.bits} (hw : m.write k a x = some m') {k' : Width}
    {b : Word} (hap : Apart config a.toNat k.bytes b.toNat k'.bytes) :
    m'.read k' b = m.read k' b := by
  obtain ⟨block, f, hm⟩ := h.holds
  refine read_congr h.admissible hm (Serves.write_holds h.admissible hm hw) fun j hj _ => ?_
  exact apply_other fun i hi => hap i hi j hj

theorem Serves.frame32 {config : List RegionConfig} {m m' : Memory} (h : Serves config m)
    {k : Width} {a b : Word} {x : BitVec k.bits} (hw : m.write k a x = some m')
    (hap : Apart config a.toNat k.bytes b.toNat 4) : m'.read32 b = m.read32 b := by
  change m'.read .w32 b = m.read .w32 b
  exact h.read_frame hw hap

theorem Serves.frame16 {config : List RegionConfig} {m m' : Memory} (h : Serves config m)
    {k : Width} {a b : Word} {x : BitVec k.bits} (hw : m.write k a x = some m')
    (hap : Apart config a.toNat k.bytes b.toNat 2) : m'.read16 b = m.read16 b := by
  change m'.read .w16 b = m.read .w16 b
  exact h.read_frame hw hap

theorem Serves.frame8 {config : List RegionConfig} {m m' : Memory} (h : Serves config m)
    {k : Width} {a b : Word} {x : BitVec k.bits} (hw : m.write k a x = some m')
    (hap : Apart config a.toNat k.bytes b.toNat 1) : m'.read8 b = m.read8 b := by
  change m'.read .w8 b = m.read .w8 b
  exact h.read_frame hw hap

/-- The bytes of a stored value at its own addresses. -/
theorem apply_own {config : List RegionConfig} (w : Store) {i : Nat} (hi : i < w.width.bytes)
    (old : Byte) : w.apply config (w.address.toNat + i) old = w.byte i := by
  have hk := w.width.bytes_le
  unfold Store.apply
  rcases hf : (List.range w.width.bytes).find? _ with _ | j
  · have := List.find?_eq_none.mp hf i (List.mem_range.mpr hi)
    exact absurd (sameByte_self config _) (by simpa using this)
  · have hj : j < w.width.bytes := List.mem_range.mp (List.mem_of_find?_eq_some hf)
    have hs : SameByte config (w.address.toNat + j) (w.address.toNat + i) := by
      simpa using List.find?_some hf
    rw [hs.near (by omega) (by omega)]

/-- The byte at an alias is the byte that was stored there. -/
theorem apply_alias {config : List RegionConfig} (w : Store) {b : Nat} {i : Nat}
    (hi : i < w.width.bytes) (hs : SameByte config (w.address.toNat + i) b) (old : Byte) :
    ∃ j < w.width.bytes, w.apply config b old = w.byte j := by
  unfold Store.apply
  rcases hf : (List.range w.width.bytes).find? _ with _ | j
  · have := List.find?_eq_none.mp hf i (List.mem_range.mpr hi)
    exact absurd hs (by simpa using this)
  · exact ⟨j, List.mem_range.mp (List.mem_of_find?_eq_some hf), rfl⟩

theorem ofBE_bytes {w n : Nat} (x : BitVec w) (hw : w = 8 * n) :
    ofBE w n (fun i => byteLE x (n - 1 - i)) = x := by
  rw [← bswap_ofLE _ hw]
  exact bswap_bswap x hw

/-- The value of a store comes back from any memory that holds it. -/
theorem read_own {config : List RegionConfig} {block : Backing × Word → Nat} {m : Memory}
    {f : Nat → Byte} {k : Width} {a : Word} {x : BitVec k.bits} (hc : Admissible config)
    (hin : InOneRegion config a.toNat k.bytes)
    (hm : Holds config block m fun b => (Store.mk k a x).apply config b (f b)) :
    m.read k a = some x := by
  rw [Memory.read_eq, readAs_holds hc hm k.bits_eq k.bytes_pos k.bytes_lt hin, Option.some.injEq]
  refine Eq.trans (ofBE_congr fun i hi => ?_) (ofBE_bytes x k.bits_eq)
  exact apply_own ⟨k, a, x⟩ hi _

/-- A read gives what was written at its address. -/
theorem Serves.read_written {config : List RegionConfig} {m m' : Memory} (h : Serves config m)
    {k : Width} {a : Word} {x : BitVec k.bits} (hw : m.write k a x = some m') :
    m'.read k a = some x := by
  obtain ⟨block, f, hm⟩ := h.holds
  exact read_own h.admissible (h.write_inside hw) (Serves.write_holds h.admissible hm hw)

/-- A read gives what it gave before, with the bytes of a write over it. -/
theorem Serves.read_overlaid {config : List RegionConfig} {m m' : Memory} (h : Serves config m)
    {k k' : Width} {a b : Word} {x : BitVec k.bits} {v : BitVec k'.bits}
    (hread : m.read k' b = some v) (hw : m.write k a x = some m') :
    m'.read k' b = some (ofBE k'.bits k'.bytes fun j =>
      (Store.mk k a x).apply config (b.toNat + j) (byteLE v (k'.bytes - 1 - j))) := by
  obtain ⟨block, f, hm⟩ := h.holds
  have hc := h.admissible
  have hin : InOneRegion config b.toNat k'.bytes :=
    (h.read_isSome k' b).mp (by rw [hread, Option.isSome_some])
  have hold : v = ofBE k'.bits k'.bytes fun i => f (b.toNat + i) := by
    rw [Memory.read_eq, readAs_holds hc hm k'.bits_eq k'.bytes_pos k'.bytes_lt hin,
      Option.some.injEq] at hread
    exact hread.symm
  rw [Memory.read_eq, readAs_holds hc (Serves.write_holds hc hm hw) k'.bits_eq k'.bytes_pos
    k'.bytes_lt hin, Option.some.injEq]
  refine ofBE_congr fun j hj => ?_
  rw [hold, byteLE_ofBE _ hj k'.bits_eq]

/-- Two writes at one address leave the second. -/
theorem apply_apply {config : List RegionConfig} {k : Width} {a : Word} (x y : BitVec k.bits)
    (b : Nat) (old : Byte) :
    (Store.mk k a y).apply config b ((Store.mk k a x).apply config b old) =
      (Store.mk k a y).apply config b old := by
  unfold Store.apply
  cases (List.range k.bytes).find? fun i => SameByte config (a.toNat + i) b with
  | none => rfl
  | some i => rfl

/-- A write of what is there already changes no byte. -/
theorem holds_same_write {config : List RegionConfig} {block : Backing × Word → Nat} {m : Memory}
    {f : Nat → Byte} (hc : Admissible config) (hm : Holds config block m f) {k : Width} {a : Word}
    {x : BitVec k.bits} (hr : m.read k a = some x) :
    Holds config block m fun b => (Store.mk k a x).apply config b (f b) := by
  refine ⟨hm.laid, fun r hr' b hb => ?_⟩
  have hin : InOneRegion config a.toNat k.bytes := (read_isSome hc hm k a).mp (by rw [hr]; rfl)
  have hx : x = ofBE k.bits k.bytes fun i => f (a.toNat + i) := by
    rw [Memory.read_eq, readAs_holds hc hm k.bits_eq k.bytes_pos k.bytes_lt hin,
      Option.some.injEq] at hr
    exact hr.symm
  rw [hm.bytes r hr' b hb]
  unfold Store.apply
  rcases hf : (List.range k.bytes).find? fun i => SameByte config (a.toNat + i) b with _ | i
  · rfl
  · have hi : i < k.bytes := List.mem_range.mp (List.mem_of_find?_eq_some hf)
    have hs : SameByte config (a.toNat + i) b := by simpa using List.find?_some hf
    obtain ⟨q, hq, hcov⟩ := hin
    have hsame := (byteAt_eq_iff hc hm.laid hq hr' (hcov.has hi) hb).mpr hs
    rw [← hm.bytes r hr' b hb, ← hsame, hm.bytes q hq _ (hcov.has hi)]
    simp only [Store.byte, hx]
    rw [← bswap_ofLE _ k.bits_eq, byteLE_bswap _ (by omega) k.bits_eq,
      byteLE_ofLE _ (by omega) k.bits_eq]
    congr 2
    omega

end wii_switch
