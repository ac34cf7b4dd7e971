-- DCZeroRange (include/switch_native_hle_traits.hpp). The range grows to whole cache lines
-- in 32-bit arithmetic, and the lines are zeroed when they lie in one region. The length wraps
-- when the first line begins so far before the address that the lines cover more than the
-- address space; then the first line alone may be zeroed.
import WiiSwitch.WiiLayout

namespace wii_switch

open Bytes OS

/-! ## The call -/

def kCacheLineSize : Word := 32#32

/-- `Memory::GetPointer` and, when it is not null, `memset` of the range to 0. -/
def zeroGuestRange (address length : Word) : OS Unit := fun s =>
  match s.mem.getPointer address (length.setWidth 64) with
  | none => .ret () s
  | some destination =>
    match s.mem.host.store destination length.toNat fun _ => 0#8 with
    | none => .stop (.memoryFault address) s
    | some host => .ret () (s.withMem { s.mem with host := host })

/-- `alignedAddress`. -/
def alignedAddress (address : Word) : Word := address &&& ~~~(kCacheLineSize - 1#32)

/-- `alignedLength`. -/
def alignedLength (address length : Word) : Word :=
  ((address - alignedAddress address) + length + (kCacheLineSize - 1#32)) &&&
    ~~~(kCacheLineSize - 1#32)

/-- `DCZeroRange`. The notice to the renderer is a sink. -/
def dcZeroRange (cpu : CpuPtr) : OS Unit := do
  if cpu = 0 then return ()
  let address ← getGpr cpu 3
  let length ← getGpr cpu 4
  if length = 0#32 then return ()
  if alignedLength address length = 0#32 then return ()
  zeroGuestRange (alignedAddress address) (alignedLength address length)

theorem alignedAddress_toNat (a : Word) : (alignedAddress a).toNat = a.toNat / 32 * 32 := by
  have hmask : kCacheLineSize - 1#32 = BitVec.ofNat 32 (2 ^ 5 - 1) := by decide
  rw [alignedAddress, hmask]
  exact toNat_and_not_low a 5

/-- The length of the lines, which wraps. -/
theorem alignedLength_toNat (a n : Word) :
    (alignedLength a n).toNat = (a.toNat % 32 + n.toNat + 31) % 2 ^ 32 / 32 * 32 := by
  have hmask : kCacheLineSize - 1#32 = BitVec.ofNat 32 (2 ^ 5 - 1) := by decide
  have hbase := alignedAddress_toNat a
  have ha := a.isLt
  rw [alignedLength, hmask, toNat_and_not_low]
  simp only [BitVec.toNat_add, BitVec.toNat_sub, hbase, BitVec.toNat_ofNat]
  omega

theorem dcZeroRange_apply {s : Machine Memory} {cpu : CpuPtr} (hcpu : cpu ≠ 0)
    (hlen : s.gpr cpu 4 ≠ 0#32) : dcZeroRange cpu s =
      if alignedLength (s.gpr cpu 3) (s.gpr cpu 4) = 0#32 then .ret () s
      else zeroGuestRange (alignedAddress (s.gpr cpu 3))
        (alignedLength (s.gpr cpu 3) (s.gpr cpu 4)) s := by
  unfold dcZeroRange
  rw [if_neg hcpu]
  change (if s.gpr cpu 4 = 0#32 then (pure () : OS Unit) else _) s = _
  rw [if_neg hlen]
  exact Routine.ite_apply _ _ _ s

/-! ## The lines of a range -/

/-- The byte lies in a line of 32 bytes that meets the `n` bytes at `a`, as integers. -/
def InLines (a n x : Nat) : Prop := ∃ y, a ≤ y ∧ y < a + n ∧ y / 32 = x / 32

theorem inLines_iff {a n x : Nat} (hn : 0 < n) :
    InLines a n x ↔ a / 32 * 32 ≤ x ∧ x < a / 32 * 32 + (a % 32 + n + 31) / 32 * 32 := by
  constructor
  · intro ⟨y, hlow, hhigh, hline⟩
    omega
  · intro ⟨hlow, hhigh⟩
    by_cases hx : x < a
    · exact ⟨a, Nat.le_refl a, by omega, by omega⟩
    · by_cases hend : x < a + n
      · exact ⟨x, by omega, hend, rfl⟩
      · exact ⟨a + n - 1, by omega, by omega, by omega⟩

/-- The lines lie in one region. -/
def LinesMapped (config : List RegionConfig) (a n : Nat) : Prop :=
  ∃ r ∈ config, ∀ x, InLines a n x → r.Has x

theorem linesMapped_iff {config : List RegionConfig} {a n : Nat} (hn : 0 < n) :
    LinesMapped config a n ↔ InOneRegion config (a / 32 * 32) ((a % 32 + n + 31) / 32 * 32) := by
  constructor
  · intro ⟨r, hr, hall⟩
    have hfirst := hall (a / 32 * 32) ((inLines_iff hn).mpr (by omega))
    have hlast := hall (a / 32 * 32 + (a % 32 + n + 31) / 32 * 32 - 1)
      ((inLines_iff hn).mpr (by omega))
    exact ⟨r, hr, hfirst.1, by have := hlast.2; omega⟩
  · intro ⟨r, hr, hlow, hhigh⟩
    refine ⟨r, hr, fun x hx => ?_⟩
    obtain ⟨h1, h2⟩ := (inLines_iff hn).mp hx
    exact ⟨by omega, by omega⟩

/-- The lines of the range are zero and nothing else changed, or nothing changed at all when
they do not lie in one region. -/
structure ZeroesLines (config : List RegionConfig) (a n : Nat) (m m' : Memory) : Prop where
  zeroed : LinesMapped config a n → ∀ x : Word, InLines a n x.toNat → m'.read8 x = some 0#8
  others : LinesMapped config a n → ∀ y : Word,
    (∀ x, InLines a n x → ¬SameByte config x y.toNat) → m'.read8 y = m.read8 y
  unmapped : ¬LinesMapped config a n → ∀ y : Word, m'.read8 y = m.read8 y

/-- The length of the lines wraps to one line, which is mapped and not zero. -/
def WrapsToOneLine (config : List RegionConfig) (a n : Nat) (m : Memory) : Prop :=
  2 ^ 32 < a % 32 + n ∧ InOneRegion config (a / 32 * 32) 32 ∧
    ∃ x : Word, x.toNat / 32 = a / 32 ∧ m.read8 x ≠ some 0#8

/-! ## The zeroed range -/

section

variable {config : List RegionConfig} {s : Machine Memory}

theorem holds_read8 {block : Backing × Word → Nat} {m : Memory} {f : Nat → Byte}
    (hc : Admissible config) (hm : Holds config block m f) {x : Word}
    (hin : InOneRegion config x.toNat 1) : m.read8 x = some (f x.toNat) := by
  rw [Memory.read8_eq, readAs_holds hc hm rfl (by omega) (by omega) hin]
  exact congrArg some (BitVec.eq_of_toNat_eq (by simp [ofBE, beNat]))

/-- An alias of a mapped address is mapped. -/
theorem SameByte.mapped {a b : Nat} (h : SameByte config a b) (ha : ∃ r ∈ config, r.Has a) :
    InOneRegion config b 1 := by
  have hlies : ∀ k, LiesIn config k b → InOneRegion config b 1 := by
    intro k ⟨r, hr, _, hlow, hhigh⟩
    exact ⟨r, hr, hlow, hhigh⟩
  rcases h with rfl | ⟨_, hb, _⟩ | ⟨_, hb, _⟩
  · obtain ⟨r, hr, hlow, hhigh⟩ := ha
    exact ⟨r, hr, hlow, hhigh⟩
  · exact hlies _ hb
  · exact hlies _ hb

/-- Aliases read alike. -/
theorem Serves.read8_alias {m : Memory} (hs : Serves config m) {x y : Word}
    (h : SameByte config x.toNat y.toNat) (hx : InOneRegion config x.toNat 1) :
    m.read8 y = m.read8 x := by
  obtain ⟨block, f, hm⟩ := hs.holds
  have hc := hs.admissible
  have hy : InOneRegion config y.toNat 1 := by
    obtain ⟨r, hr, hcov⟩ := hx
    exact h.mapped ⟨r, hr, hcov.has (Nat.lt_succ_self 0)⟩
  rw [holds_read8 hc hm hx, holds_read8 hc hm hy]
  obtain ⟨r, hr, hrx⟩ := hx
  obtain ⟨q, hq, hqy⟩ := hy
  have hhas := hrx.has (Nat.lt_succ_self 0)
  have hhas' := hqy.has (Nat.lt_succ_self 0)
  have hplace := (byteAt_eq_iff hc hm.laid hr hq hhas hhas').mpr h
  have hfx := hm.bytes r hr x.toNat hhas
  have hfy := hm.bytes q hq y.toNat hhas'
  rw [← hfx, ← hfy]
  exact congrArg (fun p => some (m.host.byte p)) hplace.symm

/-- The range is zero at every alias, or skipped when it does not lie in one region. -/
structure ZeroesRange (config : List RegionConfig) (a n : Nat) (m m' : Memory) : Prop where
  skipped : ¬InOneRegion config a n → m' = m
  zeroed : InOneRegion config a n → ∀ y : Word, (∃ i < n, SameByte config (a + i) y.toNat) →
    m'.read8 y = some 0#8
  kept : InOneRegion config a n → ∀ y : Word, (∀ i < n, ¬SameByte config (a + i) y.toNat) →
    m'.read8 y = m.read8 y

theorem zeroGuestRange_runs (hs : Serves config s.mem) {a n : Word} (hn : 0 < n.toNat) :
    ∃ m', zeroGuestRange a n s = .ret () (s.withMem m') ∧ Serves config m' ∧
      ZeroesRange config a.toNat n.toNat s.mem m' := by
  obtain ⟨block, f, hm⟩ := hs.holds
  have hc := hs.admissible
  have hlen : n.setWidth 64 = BitVec.ofNat 64 n.toNat := by simp [BitVec.ofNat_toNat]
  have hle : n.toNat ≤ 0x100000000 := Nat.le_of_lt n.isLt
  unfold zeroGuestRange
  rw [hlen]
  by_cases hin : InOneRegion config a.toNat n.toNat
  · have hin' := hin
    obtain ⟨r, hr, hcov⟩ := hin'
    have hp := (getPointer_laid hc hm.laid a hn hle (byteAt block r a.toNat)).mpr
      ⟨r, hr, hcov, rfl⟩
    obtain ⟨host, hstore, hlaid, hbyte⟩ := store_holds hc hm hr hcov hn fun _ => 0#8
    have hm' : Holds config block { s.mem with host := host } fun b =>
        if ∃ i < n.toNat, SameByte config (a.toNat + i) b then 0#8 else f b := by
      refine ⟨hlaid, fun q hq b hb => ?_⟩
      obtain ⟨hstored, hkept⟩ := hbyte q hq b hb
      split
      case isTrue hsame =>
        obtain ⟨i, hi, hsame⟩ := hsame
        exact hstored i hi hsame
      case isFalse hother =>
        push Not at hother
        exact hkept hother
    refine ⟨{ s.mem with host := host }, ?_, ⟨hc, block, _, hm'⟩, ?_⟩
    · rw [hp]
      simp only [hstore]
    constructor
    case skipped => exact fun h => absurd hin h
    case zeroed =>
      intro _ y hsame
      have hy : InOneRegion config y.toNat 1 := by
        obtain ⟨i, hi, hsame⟩ := hsame
        exact hsame.mapped ⟨r, hr, hcov.has hi⟩
      rw [holds_read8 hc hm' hy, if_pos hsame]
    case kept =>
      intro _ y hother
      refine read8_frame hc hm hm' y (if_neg ?_)
      push Not
      exact hother
  · have hnone : s.mem.getPointer a (BitVec.ofNat 64 n.toNat) = none := by
      rw [← Option.not_isSome_iff_eq_none, access_isSome hc hm.laid a hn hle]
      exact hin
    rw [hnone]
    exact ⟨s.mem, rfl, hs, fun _ => rfl, fun h => absurd h hin, fun h => absurd h hin⟩

/-- The lines of a range as large as the address space lie in no region. -/
theorem lines_too_long (hc : Admissible config) {a n : Nat} (hn : 0 < n)
    (hlong : 2 ^ 32 ≤ a % 32 + n + 31) : ¬LinesMapped config a n := by
  rw [linesMapped_iff hn]
  intro ⟨r, hr, hlow, hhigh⟩
  have hsize := hc.mod_add_le hr
  omega

section

variable {m m' : Memory} {a n : Nat}

/-- A zeroed range that is the lines. -/
theorem ZeroesRange.lines (hn : 0 < n)
    (h : ZeroesRange config (a / 32 * 32) ((a % 32 + n + 31) / 32 * 32) m m') :
    ZeroesLines config a n m m' := by
  constructor
  case zeroed =>
    intro hin x hx
    obtain ⟨hlow, hhigh⟩ := (inLines_iff hn).mp hx
    refine h.zeroed ((linesMapped_iff hn).mp hin) x ⟨x.toNat - a / 32 * 32, by omega, ?_⟩
    rw [Nat.add_sub_cancel' hlow]
    exact sameByte_self config _
  case others =>
    intro hin y hother
    refine h.kept ((linesMapped_iff hn).mp hin) y fun i hi => hother _ ?_
    exact (inLines_iff hn).mpr ⟨by omega, by omega⟩
  case unmapped =>
    intro hin y
    rw [h.skipped fun hrange => hin ((linesMapped_iff hn).mpr hrange)]

/-- When only the first line is zeroed it was zero already, or the lines are not treated as one
range. -/
theorem ZeroesRange.oneLine (hs : Serves config m) (hn : 0 < n) (hwrap : 2 ^ 32 < a % 32 + n)
    (h : ZeroesRange config (a / 32 * 32) 32 m m') :
    ZeroesLines config a n m m' ↔ ¬WrapsToOneLine config a n m := by
  have hlong := lines_too_long hs.admissible hn (a := a) (by omega)
  constructor
  · intro hz ⟨_, hin, x, hx, hsome⟩
    have hix : a / 32 * 32 + x.toNat % 32 = x.toNat := by omega
    have hzero := h.zeroed hin x ⟨x.toNat % 32, by omega, .inl hix⟩
    exact hsome ((hz.unmapped hlong x).symm.trans hzero)
  · intro hnot
    refine ⟨fun hin => absurd hin hlong, fun hin => absurd hin hlong, fun _ y => ?_⟩
    by_cases hin : InOneRegion config (a / 32 * 32) 32
    · by_cases hsame : ∃ i < 32, SameByte config (a / 32 * 32 + i) y.toNat
      · rw [h.zeroed hin y hsame]
        obtain ⟨i, hi, hsame⟩ := hsame
        obtain ⟨r, hr, hcov⟩ := hin
        have hhas := hcov.has hi
        have hend := hs.admissible.end_le hr
        have hword : (BitVec.ofNat 32 (a / 32 * 32 + i)).toNat = a / 32 * 32 + i := by
          rw [BitVec.toNat_ofNat]
          have := hhas.2
          omega
        have hzero : m.read8 (BitVec.ofNat 32 (a / 32 * 32 + i)) = some 0#8 := by
          by_contra hsome
          exact hnot ⟨hwrap, ⟨r, hr, hcov⟩, _, by rw [hword]; omega, hsome⟩
        rw [← hword] at hsame hhas
        rw [hs.read8_alias hsame ⟨r, hr, hhas⟩, hzero]
      · push Not at hsame
        exact h.kept hin y hsame
    · rw [h.skipped hin]

end

/-! ## The law -/

/-- A call zeroes the range of the wrapped length, if there is one. -/
theorem dcZeroRange_runs {cpu : CpuPtr} (hs : Serves config s.mem) (hcpu : cpu ≠ 0)
    (hlen : 0 < (s.gpr cpu 4).toNat) :
    ∃ m', dcZeroRange cpu s = .ret () (s.withMem m') ∧
      ((alignedLength (s.gpr cpu 3) (s.gpr cpu 4)).toNat = 0 → m' = s.mem) ∧
      ((alignedLength (s.gpr cpu 3) (s.gpr cpu 4)).toNat ≠ 0 →
        ZeroesRange config ((s.gpr cpu 3).toNat / 32 * 32)
          (alignedLength (s.gpr cpu 3) (s.gpr cpu 4)).toNat s.mem m') := by
  have hne : s.gpr cpu 4 ≠ 0#32 := by
    intro hzero
    rw [hzero] at hlen
    exact absurd hlen (by decide)
  rw [dcZeroRange_apply hcpu hne, ← alignedAddress_toNat]
  by_cases hempty : alignedLength (s.gpr cpu 3) (s.gpr cpu 4) = 0#32
  · rw [if_pos hempty, hempty]
    exact ⟨s.mem, rfl, fun _ => rfl, fun h => absurd rfl h⟩
  · rw [if_neg hempty]
    have hpos : (alignedLength (s.gpr cpu 3) (s.gpr cpu 4)).toNat ≠ 0 :=
      fun h => hempty (BitVec.eq_of_toNat_eq h)
    obtain ⟨m', hrun, _, hzeroes⟩ := zeroGuestRange_runs hs (a := alignedAddress (s.gpr cpu 3))
      (Nat.pos_of_ne_zero hpos)
    exact ⟨m', hrun, fun h => absurd h hpos, fun _ => hzeroes⟩

/-- The lines of the range are zeroed, or nothing is when they do not lie in one region, exactly
unless the length wraps to one line that is mapped and not zero. Nothing else of the machine
changes. -/
theorem dc_zero_range_zeroes_the_lines_unless_their_length_wraps {cpu : CpuPtr}
    (hs : Serves config s.mem) (hcpu : cpu ≠ 0) (hlen : 0 < (s.gpr cpu 4).toNat) :
    ∃ m', dcZeroRange cpu s = .ret () (s.withMem m') ∧
      (ZeroesLines config (s.gpr cpu 3).toNat (s.gpr cpu 4).toNat s.mem m' ↔
        ¬WrapsToOneLine config (s.gpr cpu 3).toNat (s.gpr cpu 4).toNat s.mem) := by
  obtain ⟨m', hrun, hskip, hzeroes⟩ := dcZeroRange_runs hs hcpu hlen
  refine ⟨m', hrun, ?_⟩
  have hn := (s.gpr cpu 4).isLt
  rw [alignedLength_toNat] at hskip hzeroes
  generalize (s.gpr cpu 3).toNat = a at *
  generalize (s.gpr cpu 4).toNat = n at *
  by_cases hwrap : 2 ^ 32 < a % 32 + n
  · have hline : (a % 32 + n + 31) % 2 ^ 32 / 32 * 32 = 32 := by omega
    rw [hline] at hzeroes
    exact (hzeroes (by decide)).oneLine hs hlen hwrap
  · have hnowrap : ¬WrapsToOneLine config a n s.mem := fun h => hwrap h.1
    refine ⟨fun _ => hnowrap, fun _ => ?_⟩
    by_cases hempty : (a % 32 + n + 31) % 2 ^ 32 / 32 * 32 = 0
    · have hlong := lines_too_long hs.admissible hlen (a := a) (by omega)
      rw [hskip hempty]
      exact ⟨fun h => absurd h hlong, fun h => absurd h hlong, fun _ _ => rfl⟩
    · have hlines : (a % 32 + n + 31) % 2 ^ 32 / 32 * 32 = (a % 32 + n + 31) / 32 * 32 := by
        omega
      rw [hlines] at hzeroes hempty
      exact (hzeroes hempty).lines hlen

end

/-! ## Two calls on a Wii -/

/-- A booted Wii in which the guest called with an address and a length. -/
def zeroCall (m : Memory) (address length : Word) : Machine Memory :=
  ((bootMachine m).setGpr 1 3 address).setGpr 1 4 length

theorem zeroCall_address (m : Memory) (address length : Word) :
    (zeroCall m address length).gpr 1 3 = address := rfl

theorem zeroCall_length (m : Memory) (address length : Word) :
    (zeroCall m address length).gpr 1 4 = length := rfl

/-- Two lines are zeroed. -/
theorem two_lines_are_zeroed : ∃ (m m' : Memory),
    dcZeroRange 1 (zeroCall m 0x80001010#32 0x30#32) =
      .ret () ((zeroCall m 0x80001010#32 0x30#32).withMem m') ∧
    ZeroesLines wiiDefaults 0x80001010 0x30 m m' := by
  obtain ⟨m, hm⟩ := Option.isSome_iff_exists.mp wiiBoot_isSome
  have hs : Serves wiiDefaults (zeroCall m 0x80001010#32 0x30#32).mem := wiiBoot_serves hm
  obtain ⟨m', hrun, hiff⟩ := dc_zero_range_zeroes_the_lines_unless_their_length_wraps hs
    (Nat.succ_ne_zero 0) (by rw [zeroCall_length]; decide)
  have hnowrap : ¬2 ^ 32 < 0x80001010 % 32 + 0x30 := by decide
  exact ⟨m, m', hrun, hiff.mpr fun h => hnowrap h.1⟩

/-- A length that wraps: one line is zeroed, although the lines lie in no region. -/
theorem a_wrapped_length_zeroes_one_line : ∃ (m m' : Memory),
    Serves wiiDefaults m ∧
    dcZeroRange 1 (zeroCall m 0x8000001F#32 0xFFFFFFFF#32) =
      .ret () ((zeroCall m 0x8000001F#32 0xFFFFFFFF#32).withMem m') ∧
    ¬ZeroesLines wiiDefaults 0x8000001F 0xFFFFFFFF m m' := by
  obtain ⟨m₀, hm₀⟩ := Option.isSome_iff_exists.mp wiiBoot_isSome
  have hin : ∀ n ≤ 32, InOneRegion wiiDefaults 0x80000000 n := fun n hn =>
    lowMemory_mapped (a := 0x80000000#32) (by decide) (by
      have : (0x80000000#32).toNat = 0x80000000 := rfl
      omega)
  obtain ⟨m, hw⟩ := (wiiBoot_serves hm₀).write_some (k := .w8) (a := 0x80000000#32)
    (hin 1 (by decide)) 1#8
  have hs := (wiiBoot_serves hm₀).write hw
  have hone : m.read8 0x80000000#32 = some 1#8 := (wiiBoot_serves hm₀).read_written hw
  obtain ⟨m', hrun, _, hzeroes⟩ :=
    dcZeroRange_runs (s := zeroCall m 0x8000001F#32 0xFFFFFFFF#32)
    hs (Nat.succ_ne_zero 0) (by rw [zeroCall_length]; decide)
  rw [zeroCall_address, zeroCall_length] at hzeroes
  refine ⟨m, m', hs, hrun, fun hlines => ?_⟩
  have hwraps : WrapsToOneLine wiiDefaults 0x8000001F 0xFFFFFFFF m :=
    ⟨by decide, hin 32 (by decide), 0x80000000#32, by decide, by rw [hone]; decide⟩
  exact ((hzeroes (by decide)).oneLine hs (by decide) (by decide)).mp hlines hwraps

end wii_switch
