-- DVDInit by any number of threads (include/switch_dvd_hle_traits.hpp). The part behind its
-- guards gives the machine to the translated __DVDFSInit, and until that returns any thread may
-- call DVDInit again. The static flag and the byte in low memory together let the part behind the
-- guards begin at most once.
import WiiSwitch.TitleRuns
import WiiSwitch.Lib.Pools

namespace wii_switch

open Bytes OS Routine DvdInit

/-! ## The call with its static flag -/

/-- The static flag, and how often the part behind the guards began. -/
structure DvdGlobals where
  initializing : Bool
  begun : Nat

/-- At the start of the process. -/
def DvdGlobals.start : DvdGlobals := ⟨false, 0⟩

abbrev DvdState := Machine Memory × DvdGlobals

abbrev Dvd := Routine DvdState Stop Away

namespace Dvd

/-- A routine of the machine leaves the flag, but the outside may change it. -/
def lift {α : Type} (r : OS α) : Dvd α := fun p => (r p.1).beside p.2

def enter : Dvd Unit := Routine.modify fun p => (p.1, ⟨true, p.2.begun + 1⟩)

def leave : Dvd Unit := Routine.modify fun p => (p.1, { p.2 with initializing := false })

/-- `DVDInit`. -/
def init (cpu : CpuPtr) : Dvd Unit := do
  if cpu = 0 then return ()
  unless ← lift guestBootstrapRangesAvailable do return ()
  if (← lift (read8 kDvdInitCalled)) ≠ 0 then return ()
  if ← Routine.gets fun p => p.2.initializing then return ()
  enter
  lift (bootstrap cpu)
  leave

end Dvd

/-! ## Routines that always return -/

section

variable {config : List RegionConfig} {α β : Type} {a : Word} {n : Nat}

/-- In a memory that serves the configuration the routine returns, and the memory, which still
does, is all that it changes. -/
def StoresOnly (config : List RegionConfig) (x : OS α) : Prop :=
  ∀ s : Machine Memory, Serves config s.mem →
    ∃ v m, x s = .ret v (s.withMem m) ∧ Serves config m

theorem StoresOnly.pure (v : α) : StoresOnly config (pure v : OS α) := fun s hs =>
  ⟨v, s.mem, rfl, hs⟩

theorem StoresOnly.bind {x : OS α} {f : α → OS β} (hx : StoresOnly config x)
    (hf : ∀ v, StoresOnly config (f v)) : StoresOnly config (x >>= f) := by
  intro s hs
  obtain ⟨v, m, hrun, hm⟩ := hx s hs
  obtain ⟨w, m', hrun', hm'⟩ := hf v (s.withMem m) hm
  exact ⟨w, m', by rw [Routine.bind_of hrun, hrun', Machine.withMem_withMem], hm'⟩

/-- A part behind a check may use what was checked. -/
theorem StoresOnly.bind_contains {f : Bool → OS α} (hn : 0 < n) (hn' : n ≤ 0x100000000)
    (hin : InOneRegion config a.toNat n → StoresOnly config (f true))
    (hout : StoresOnly config (f false)) :
    StoresOnly config (contains a (BitVec.ofNat 64 n) >>= f) := by
  intro s hs
  have hrun := contains_apply a (BitVec.ofNat 64 n) s
  rw [Routine.bind_of hrun]
  cases hmapped : s.mem.contains a (BitVec.ofNat 64 n) with
  | true => exact hin ((hs.contains_iff a hn hn').mp hmapped) s hs
  | false => exact hout s hs

theorem storesOnly_read32 (hin : InOneRegion config a.toNat 4) : StoresOnly config (read32 a) := by
  intro s hs
  obtain ⟨x, hx⟩ := hs.read32_some hin
  exact ⟨x, s.mem, read32_ret hx, hs⟩

theorem storesOnly_write32 (hin : InOneRegion config a.toNat 4) (x : Word) :
    StoresOnly config (write32 a x) := by
  intro s hs
  obtain ⟨m, hw⟩ := hs.write32_some hin x
  exact ⟨(), m, write32_ret hw, hs.write32 hw⟩

theorem storesOnly_write16 (hin : InOneRegion config a.toNat 2) (x : Half) :
    StoresOnly config (write16 a x) := by
  intro s hs
  obtain ⟨m, hw⟩ := hs.write16_some hin x
  exact ⟨(), m, write16_ret hw, hs.write16 hw⟩

theorem storesOnly_write8 (hin : InOneRegion config a.toNat 1) (x : Byte) :
    StoresOnly config (write8 a x) := by
  intro s hs
  obtain ⟨m, hw⟩ := hs.write_some (k := .w8) hin x
  exact ⟨(), m, write8_ret hw, hs.write (k := .w8) hw⟩

/-- In a memory that serves the configuration the routine returns, and the memory still does. -/
def Finishes (config : List RegionConfig) (x : OS α) : Prop :=
  ∀ s : Machine Memory, Serves config s.mem → ∃ a s', x s = .ret a s' ∧ Serves config s'.mem

theorem InOneRegion.part {a b n k : Nat} (h : InOneRegion config a n) (hab : a ≤ b)
    (hk : b + k ≤ a + n) : InOneRegion config b k := by
  obtain ⟨r, hr, h1, h2⟩ := h
  exact ⟨r, hr, by omega, by omega⟩

theorem Finishes.pure (a : α) : Finishes config (pure a : OS α) := fun s hs => ⟨a, s, rfl, hs⟩

theorem StoresOnly.finishes {x : OS α} (h : StoresOnly config x) : Finishes config x := by
  intro s hs
  obtain ⟨v, m, hrun, hm⟩ := h s hs
  exact ⟨v, s.withMem m, hrun, hm⟩

theorem Finishes.bind {x : OS α} {f : α → OS β} (hx : Finishes config x)
    (hf : ∀ a, Finishes config (f a)) : Finishes config (x >>= f) := by
  intro s hs
  obtain ⟨a, s', hrun, hs'⟩ := hx s hs
  obtain ⟨b, s'', hrun', hs''⟩ := hf a s' hs'
  exact ⟨b, s'', by rw [bind_of hrun, hrun'], hs''⟩

/-- A store into a part of a range that is mapped. -/
theorem finishes_write32 {a : Word} {b n : Nat} (hin : InOneRegion config b n)
    (hlow : b ≤ a.toNat) (hhigh : a.toNat + 4 ≤ b + n) (x : Word) :
    Finishes config (write32 a x) := (storesOnly_write32 (hin.part hlow hhigh) x).finishes

theorem finishes_write16 {a : Word} {b n : Nat} (hin : InOneRegion config b n)
    (hlow : b ≤ a.toNat) (hhigh : a.toNat + 2 ≤ b + n) (x : Half) :
    Finishes config (write16 a x) := (storesOnly_write16 (hin.part hlow hhigh) x).finishes

theorem finishes_write8 {a : Word} {b n : Nat} (hin : InOneRegion config b n)
    (hlow : b ≤ a.toNat) (hhigh : a.toNat + 1 ≤ b + n) (x : Byte) :
    Finishes config (write8 a x) := (storesOnly_write8 (hin.part hlow hhigh) x).finishes

theorem finishes_forEachFrom {body : Word → OS Unit} (n i : Nat)
    (hbody : ∀ j, i ≤ j → j < i + n → Finishes config (body (BitVec.ofNat 32 j))) :
    Finishes config (forEachFrom i body n) := by
  induction n generalizing i with
  | zero => exact .pure ()
  | succ n ih =>
    unfold forEachFrom
    apply Finishes.bind (hbody i (le_refl i) (by omega))
    intro _
    apply ih
    intro j hj hj'
    exact hbody j (by omega) (by omega)

/-! ## The part behind the guards -/

/-- The ranges that DVDInit asks for are mapped. -/
structure BootRanges (config : List RegionConfig) : Prop where
  header : InOneRegion config 0x80000000 7
  queues : InOneRegion config 0x80343230 0x20
  contexts : InOneRegion config 0x803434E0 0x80
  globals : InOneRegion config 0x80386664 0xC2

theorem bootRanges_iff {m : Memory} (hs : Serves config m) :
    bootstrapRanges.all (fun r => m.contains r.1 r.2) = true ↔ BootRanges config := by
  have hrange : ∀ (a : Word) {n : Nat}, 0 < n → n < 2 ^ 32 →
      (m.contains a (BitVec.ofNat 64 n) = true ↔ InOneRegion config a.toNat n) :=
    fun a n hn hlt => hs.contains_iff a hn (Nat.le_of_lt hlt)
  have h1 := hrange 0x80000000#32 (show 0 < 7 by omega) (by omega)
  have h2 := hrange 0x80343230#32 (show 0 < 0x20 by omega) (by omega)
  have h3 := hrange 0x803434E0#32 (show 0 < 0x80 by omega) (by omega)
  have h4 := hrange 0x80386664#32 (show 0 < 0xC2 by omega) (by omega)
  unfold bootstrapRanges
  simp only [List.all_cons, List.all_nil, Bool.and_true, Bool.and_eq_true]
  constructor
  · rintro ⟨g1, g2, g3, g4⟩
    exact ⟨h1.mp g1, h2.mp g2, h3.mp g3, h4.mp g4⟩
  · rintro ⟨g1, g2, g3, g4⟩
    exact ⟨h1.mpr g1, h2.mpr g2, h3.mpr g3, h4.mpr g4⟩

theorem finishes_initializeCancelState (h : BootRanges config) :
    Finishes config initializeCancelState := by
  unfold initializeCancelState initializeWaitingQueues
  apply Finishes.bind
  · apply finishes_forEachFrom
    intro j _ hj
    have hqueue : ∀ j : Fin 4,
        0x80343230 ≤ (0x80343230#32 + BitVec.ofNat 32 j.val * 8 + 0).toNat ∧
        (0x80343230#32 + BitVec.ofNat 32 j.val * 8 + 0).toNat + 4 ≤ 0x80343230 + 0x20 ∧
        0x80343230 ≤ (0x80343230#32 + BitVec.ofNat 32 j.val * 8 + 4).toNat ∧
        (0x80343230#32 + BitVec.ofNat 32 j.val * 8 + 4).toNat + 4 ≤ 0x80343230 + 0x20 := by
      decide
    obtain ⟨h1, h2, h3, h4⟩ := hqueue ⟨j, by omega⟩
    exact Finishes.bind (finishes_write32 h.queues h1 h2 _) fun _ =>
      finishes_write32 h.queues h3 h4 _
  · intro _
    apply Finishes.bind (finishes_write32 h.globals (by decide) (by decide) _)
    intro _
    apply Finishes.bind (finishes_write32 h.globals (by decide) (by decide) _)
    intro _
    apply Finishes.bind (finishes_write32 h.globals (by decide) (by decide) _)
    intro _
    apply Finishes.bind (finishes_write32 h.globals (by decide) (by decide) _)
    intro _
    apply Finishes.bind (finishes_write32 h.globals (by decide) (by decide) _)
    intro _
    exact finishes_write32 h.globals (by decide) (by decide) _

theorem finishes_initializeContexts (h : BootRanges config) :
    Finishes config initializeContexts := by
  unfold initializeContexts
  apply finishes_forEachFrom
  intro j _ hj
  have hcontext : ∀ j : Fin 4,
      0x803434E0 ≤ (0x803434E0#32 + BitVec.ofNat 32 j.val * 0x20 + 0x0C).toNat ∧
      (0x803434E0#32 + BitVec.ofNat 32 j.val * 0x20 + 0x0C).toNat + 4 ≤ 0x803434E0 + 0x80 ∧
      0x803434E0 ≤ (0x803434E0#32 + BitVec.ofNat 32 j.val * 0x20 + 0x10).toNat ∧
      (0x803434E0#32 + BitVec.ofNat 32 j.val * 0x20 + 0x10).toNat + 4 ≤ 0x803434E0 + 0x80 := by
    decide
  obtain ⟨h1, h2, h3, h4⟩ := hcontext ⟨j, by omega⟩
  exact Finishes.bind (finishes_write32 h.contexts h1 h2 _) fun _ =>
    finishes_write32 h.contexts h3 h4 _

theorem finishes_initializeDiscHeader (h : BootRanges config) :
    Finishes config initializeDiscHeader := by
  unfold initializeDiscHeader
  apply Finishes.bind
  · intro s hs
    unfold currentDiscGameCode
    rw [bind_of (contains_apply _ _ s), Routine.ite_apply]
    cases hc : s.mem.contains kDiscHeader 4#64 with
    | false => exact ⟨_, s, rfl, hs⟩
    | true =>
      rw [hs.contains32] at hc
      obtain ⟨w, hw⟩ := Option.isSome_iff_exists.mp hc
      exact ⟨discGameCode w, s, by rw [if_pos rfl, bind_of (read32_ret hw), pure_apply], hs⟩
  · intro code
    apply Finishes.bind (finishes_write32 h.header (by decide) (by decide) _)
    intro _
    apply Finishes.bind (finishes_write16 h.header (by decide) (by decide) _)
    intro _
    exact finishes_write8 h.header (by decide) (by decide) _

/-- The look for a file system table reads only what is mapped, and changes nothing. -/
theorem hasPublishedFst_ret {s : Machine Memory} (hs : Serves config s.mem) :
    ∃ b, hasPublishedFst s = .ret b s := by
  unfold hasPublishedFst
  rw [bind_of (contains_apply _ _ s), Routine.ite_apply]
  cases hlow : s.mem.contains kFstAddressLowMem 8#64 with
  | false => exact ⟨false, rfl⟩
  | true =>
    have hin : InOneRegion config kFstAddressLowMem.toNat 8 :=
      (hs.contains_iff _ (by omega) (by omega)).mp hlow
    obtain ⟨fstAddress, haddress⟩ := hs.read32_some (hin.part (k := 4) (le_refl _) (by omega))
    have hsizeAt : kFstSizeLowMem.toNat = kFstAddressLowMem.toNat + 4 := by decide
    obtain ⟨fstSize, hsize⟩ := hs.read32_some (a := kFstSizeLowMem)
      (hin.part (by omega) (by omega))
    rw [if_pos rfl, bind_of (read32_ret haddress), bind_of (read32_ret hsize), Routine.ite_apply]
    split
    · exact ⟨false, rfl⟩
    · rename_i hgood
      simp only [not_or, BitVec.not_lt] at hgood
      rw [bind_of (contains_apply _ _ s), Routine.ite_apply]
      cases hfst : s.mem.contains fstAddress (fstSize.setWidth 64) with
      | false => exact ⟨false, rfl⟩
      | true =>
        have hlen : 12 ≤ fstSize.toNat := hgood.2.1
        have hlt := fstSize.isLt
        have hsame : fstSize.setWidth 64 = BitVec.ofNat 64 fstSize.toNat := by
          apply BitVec.eq_of_toNat_eq
          simp only [BitVec.toNat_setWidth, BitVec.toNat_ofNat]
        rw [hsame] at hfst
        have hall : InOneRegion config fstAddress.toNat fstSize.toNat :=
          (hs.contains_iff _ (by omega) (by omega)).mp hfst
        obtain ⟨rootWord, hroot⟩ := hs.read32_some (hall.part (k := 4) (le_refl _) (by omega))
        have hcountAt : InOneRegion config (fstAddress + 8).toNat 4 :=
          hall.inside hs.admissible 8 (by
            change 8 + 4 ≤ fstSize.toNat
            omega) (by
            change 8 < fstSize.toNat
            omega)
        obtain ⟨entryCount, hcount⟩ := hs.read32_some hcountAt
        rw [if_pos rfl, bind_of (read32_ret hroot), bind_of (read32_ret hcount)]
        exact ⟨_, rfl⟩

/-- The stores before the file system table is looked for. -/
def prepare : OS Unit := do
  write8 0x80386724 1
  write8 0x80386725 1
  write32 0x80386720 0
  initializeCancelState
  initializeContexts
  initializeDiscHeader

theorem finishes_prepare (h : BootRanges config) : Finishes config prepare := by
  unfold prepare
  apply Finishes.bind (finishes_write8 h.globals (by decide) (by decide) _)
  intro _
  apply Finishes.bind (finishes_write8 h.globals (by decide) (by decide) _)
  intro _
  apply Finishes.bind (finishes_write32 h.globals (by decide) (by decide) _)
  intro _
  apply Finishes.bind (finishes_initializeCancelState h)
  intro _
  apply Finishes.bind (finishes_initializeContexts h)
  intro _
  exact finishes_initializeDiscHeader h

theorem bootstrap_eq (cpu : CpuPtr) : bootstrap cpu = prepare >>= fun _ => (do
    if ← hasPublishedFst then invokeIndirectCpu kDvdFsInitAddress cpu
    write8 kDvdInitCalled 1) := by
  funext s
  simp only [bootstrap, prepare, bind_apply, Coop.bind_assoc]

/-- The byte in low memory says that DVDInit was called. -/
def Called (s : Machine Memory) : Prop := ∃ x : Byte, s.mem.read8 kDvdInitCalled =
    some x ∧ x ≠ 0

/-- The last store. -/
theorem called_after {s : Machine Memory} (hs : Serves config s.mem) (h : BootRanges config) :
    ∃ s', write8 kDvdInitCalled 1 s = .ret () s' ∧ Serves config s'.mem ∧ Called s' := by
  have hin : InOneRegion config kDvdInitCalled.toNat 1 :=
    h.globals.part (by decide) (by decide)
  obtain ⟨m, hw⟩ := hs.write_some (k := .w8) hin 1
  have hread : m.read8 kDvdInitCalled = some 1 := hs.read_written (k := .w8) hw
  exact ⟨s.withMem m, write8_ret hw, hs.write (k := .w8) hw, 1, hread, by decide⟩

/-- The ways of the part behind the guards. -/
inductive BootstrapWay (config : List RegionConfig) (cpu : CpuPtr) :
    Coop (Machine Memory) Stop Away Unit → Prop
  | returns {s : Machine Memory} : Serves config s.mem → Called s →
    BootstrapWay config cpu (.ret () s)
  | misses {s : Machine Memory} :
    BootstrapWay config cpu (.stop (.boundary "INDIRECT_CALL_MISS" kDvdFsInitAddress) s)
  | dispatches {s : Machine Memory} {k : Machine Memory → Coop (Machine Memory) Stop Away Unit} :
    Serves config s.mem → hasPublishedFst s = .ret true s →
    (∀ s', ∃ s'', s''.mem = s'.mem ∧ k s' = write8 kDvdInitCalled 1 s'') →
    BootstrapWay config cpu (.call (.guest kDvdFsInitAddress cpu) s k)

theorem bootstrap_ways {s : Machine Memory} (hs : Serves config s.mem) (h : BootRanges config)
    {cpu : CpuPtr} (hcpu : cpu ≠ 0) : BootstrapWay config cpu (bootstrap cpu s) := by
  obtain ⟨_, t, hrun, ht⟩ := finishes_prepare h s hs
  obtain ⟨published, hfst⟩ := hasPublishedFst_ret ht
  rw [bootstrap_eq, bind_of hrun, bind_of hfst]
  cases published with
  | false =>
    obtain ⟨u, hlast, hu, hcalled⟩ := called_after ht h
    have hret : (do if false then invokeIndirectCpu kDvdFsInitAddress cpu
                    write8 kDvdInitCalled 1 : OS Unit) t = .ret () u := hlast
    rw [hret]
    exact .returns hu hcalled
  | true =>
    simp only [if_true, invokeIndirectCpu, tryDispatchIndirect, bind_apply, Routine.ite_apply,
      if_neg hcpu]
    cases hd : t.dispatch kDvdFsInitAddress with
    | none =>
      simp only [Routine.gets_apply, Coop.bind_ret, hd]
      exact .misses
    | some record =>
      simp only [Routine.gets_apply, Coop.bind_ret, hd, bind_apply, call_apply, Coop.bind_call]
      refine .dispatches ht hfst fun s' => ?_
      exact ⟨s'.onCpu cpu (restoreNonvolatile record (t.cpus cpu)), rfl, rfl⟩

end

/-! ## The call behind its guards -/

section

variable {config : List RegionConfig} {cpu : CpuPtr} {p : DvdState}

namespace Dvd

/-- The part behind the guards, with the flag. -/
def behind (cpu : CpuPtr) : Dvd Unit := do
  enter
  lift (bootstrap cpu)
  leave

theorem behind_apply (cpu : CpuPtr) (p : DvdState) : behind cpu p =
    ((bootstrap cpu p.1).beside ⟨true, p.2.begun + 1⟩).bind fun _ => leave := rfl

/-- A call either does nothing at all, or finds everything in place and begins. -/
theorem init_cases (hs : Serves config p.1.mem) (cpu : CpuPtr) :
    (¬TakesEffect p.2.initializing cpu p.1 ∧ init cpu p = .ret () p) ∨
    (TakesEffect p.2.initializing cpu p.1 ∧ BootRanges config ∧ init cpu p = behind cpu p) := by
  unfold init
  rw [Routine.ite_apply]
  by_cases hcpu : cpu = 0
  · rw [if_pos hcpu]
    exact Or.inl ⟨fun h => h.cpu_ne hcpu, rfl⟩
  rw [if_neg hcpu]
  have hranges : lift guestBootstrapRangesAvailable p =
      .ret (bootstrapRanges.all fun r => p.1.mem.contains r.1 r.2) p := rfl
  rw [bind_of hranges, Routine.ite_apply]
  by_cases hall : (bootstrapRanges.all fun r => p.1.mem.contains r.1 r.2) = true
  · rw [if_pos hall]
    have hboot := (bootRanges_iff hs).mp hall
    obtain ⟨called, hcalled⟩ : ∃ x : Byte, p.1.mem.read8 kDvdInitCalled = some x :=
      hs.read_some (k := .w8) (hboot.globals.part (by decide) (by decide))
    have hread : lift (read8 kDvdInitCalled) p = .ret called p := by
      unfold lift read8
      rw [hcalled]
      rfl
    rw [bind_of hread, Routine.ite_apply]
    by_cases hne : called ≠ 0
    · rw [if_pos hne]
      refine Or.inl ⟨fun h => hne ?_, rfl⟩
      exact Option.some.inj (hcalled.symm.trans h.not_called)
    · rw [if_neg hne]
      obtain rfl : called = 0 := not_not.mp hne
      rw [bind_of (Routine.gets_apply _ p), Routine.ite_apply]
      cases hflag : p.2.initializing with
      | true =>
        exact Or.inl ⟨fun h => (by cases h.not_initializing), rfl⟩
      | false => exact Or.inr ⟨⟨hcpu, hall, hcalled, rfl⟩, hboot, rfl⟩
  · rw [if_neg hall]
    exact Or.inl ⟨fun h => hall h.ranges, rfl⟩

end Dvd

end

/-! ## Runs -/

/-- The machines with which `__DVDFSInit` was called, the last one first. -/
structure DvdWorld where
  dispatched : List (Machine Memory)

instance : Preorder DvdWorld where
  le g g' := g.dispatched <:+ g'.dispatched
  le_refl _ := List.suffix_rfl
  le_trans _ _ _ h h' := h.trans h'

/-- A call of DVDInit. -/
def initCall (cpu : CpuPtr) : Coop.Operation DvdWorld DvdState Stop Away where
  code := Dvd.init cpu
  note g _ p := ⟨p.1 :: g.dispatched⟩
  grow g _ := g

/-- The process starts with the memory mapped and nothing begun. -/
structure DvdStart (config : List RegionConfig) (g : DvdWorld) (p : DvdState) : Prop where
  serves : Serves config p.1.mem
  globals : p.2 = .start
  dispatched : g.dispatched = []

/-- Any thread may call DVDInit at any time. -/
inductive BeginsInit (g : DvdWorld) (p : DvdState) :
    Coop.Operation DvdWorld DvdState Stop Away → Prop
  | init (cpu : CpuPtr) : BeginsInit g p (initCall cpu)

/-- Other code cannot reach the static flag, and does not take the byte back. -/
structure RunsBeside (config : List RegionConfig) (g : DvdWorld) (p : DvdState) (g' : DvdWorld)
    (p' : DvdState) : Prop where
  world : g' = g
  serves : Serves config p'.1.mem
  globals : p'.2 = p.2
  called : Called p.1 → Called p'.1

/-- The runs of DVDInit. Every call gives the machine to the others. -/
abbrev DvdRun (config : List RegionConfig) : Coop.Pool DvdWorld DvdState Stop Away → Prop :=
  Coop.PoolRun (fun _ => True) (fun _ _ _ => False) (DvdStart config) BeginsInit
    (RunsBeside config)

/-- What the flag and the byte come to. -/
structure BegunOnce (config : List RegionConfig) (g : DvdWorld) (p : DvdState) : Prop where
  serves : Serves config p.1.mem
  once : p.2.begun ≤ 1
  dispatched : g.dispatched.length ≤ p.2.begun
  published : ∀ s ∈ g.dispatched, hasPublishedFst s = .ret true s
  unbegun : p.2.begun = 0 → p.2.initializing = false
  guarded : p.2.begun = 1 → p.2.initializing = true ∨ Called p.1

section

variable {config : List RegionConfig} {cpu : CpuPtr} {g : DvdWorld} {p : DvdState}

/-- Once the part behind the guards began, no other call begins it. -/
theorem BegunOnce.shut (h : BegunOnce config g p) (hbegun : p.2.begun = 1) (cpu : CpuPtr) :
    ¬TakesEffect p.2.initializing cpu p.1 := by
  intro heff
  rcases h.guarded hbegun with hflag | ⟨x, hx, hne⟩
  · rw [heff.not_initializing] at hflag
    cases hflag
  · exact hne (Option.some.inj (hx.symm.trans heff.not_called))

theorem BegunOnce.fresh (h : BegunOnce config g p)
    (heff : TakesEffect p.2.initializing cpu p.1) : p.2.begun = 0 ∧ g.dispatched = [] := by
  have hzero : p.2.begun = 0 := by
    by_contra hne
    have := h.once
    exact h.shut (by omega) cpu heff
  have hlen := h.dispatched
  rw [hzero] at hlen
  exact ⟨hzero, List.length_eq_zero_iff.mp (Nat.le_zero.mp hlen)⟩

/-- A call of DVDInit keeps the law, also when it waits for `__DVDFSInit`. -/
theorem initCall_keeps (h : BegunOnce config g p) (cpu : CpuPtr) :
    (Dvd.init cpu p).MeetsIn (Coop.sharing (fun _ => True) (fun _ _ _ => False)
      (BegunOnce config) (initCall cpu).note) (fun g' _ q => BegunOnce config g' q) g := by
  rcases Dvd.init_cases h.serves cpu with ⟨_, hinit⟩ | ⟨heff, hranges, hinit⟩
  · rw [hinit]
    exact h
  obtain ⟨hzero, hnone⟩ := h.fresh heff
  have hways := bootstrap_ways h.serves hranges heff.cpu_ne
  rw [hinit, Dvd.behind_apply, hzero]
  generalize bootstrap cpu p.1 = c at hways
  cases hways with
  | returns hs hcalled =>
    exact ⟨hs, le_refl 1,
      by simp [hnone], by simp [hnone], fun _ => rfl, fun _ => Or.inr hcalled⟩
  | misses => trivial
  | @dispatches s k hs hfst hk =>
    refine ⟨fun _ => ⟨hs, le_refl 1, ?_, ?_, fun hno => absurd hno Nat.one_ne_zero,
      fun _ => Or.inl rfl⟩, ?_⟩
    · simp [initCall, hnone]
    · simpa [initCall, hnone] using hfst
    · rintro g' q (⟨_, _, hq⟩ | ⟨hno, _⟩)
      · obtain ⟨t, hmem, hrest⟩ := hk q.1
        obtain ⟨u, hlast, hu, hcalled⟩ := called_after (s := t) (hmem ▸ hq.serves) hranges
        dsimp only
        rw [hrest, hlast]
        exact ⟨hu, hq.once, hq.dispatched, hq.published, fun _ => rfl, fun _ => Or.inr hcalled⟩
      · exact absurd trivial hno

theorem DvdRun.begunOnce {P : Coop.Pool DvdWorld DvdState Stop Away} (h : DvdRun config P) :
    BegunOnce config P.world P.state := by
  refine (Coop.PoolRun.keeps (BegunOnce config) ?_ ?_ ?_ h).1
  · rintro g p ⟨hs, hglobals, hnone⟩
    refine ⟨hs, ?_, ?_, ?_, ?_, ?_⟩ <;> simp [hglobals, hnone, DvdGlobals.start]
  · rintro g p g' p' hp ⟨rfl, hs, hglobals, hcalled⟩
    refine ⟨le_rfl, hs, ?_, ?_, hp.published, ?_, ?_⟩
    · rw [hglobals]; exact hp.once
    · rw [hglobals]; exact hp.dispatched
    · rw [hglobals]; exact hp.unbegun
    · rw [hglobals]; exact fun hone => (hp.guarded hone).imp_right hcalled
  · rintro g p x hp ⟨cpu⟩
    exact ⟨⟨fun _ _ _ => List.suffix_cons _ _, fun _ _ => le_rfl⟩, initCall_keeps hp cpu⟩

/-- The rest of a call of DVDInit: it sets the byte and takes the flag back. -/
def Finishing (config : List RegionConfig) (x : Coop.Operation DvdWorld DvdState Stop Away) :
    Prop :=
  ∀ q : DvdState, Serves config q.1.mem →
    ∃ t : DvdState, x.code q = .ret () t ∧ t.2.initializing = false ∧ Called t.1

/-- A call that waits for `__DVDFSInit` has only that rest. -/
theorem initCall_rest {i : Away} {k : DvdState → Coop DvdState Stop Away Unit} {t : DvdState}
    (hs : Serves config p.1.mem)
    (h : Coop.Settles (fun _ : Away => True) (fun _ _ _ => False) (Dvd.init cpu p) t
      (some (i, k))) : Finishing config ((initCall cpu).rest k) := by
  intro q hq
  rcases Dvd.init_cases hs cpu with ⟨_, hinit⟩ | ⟨heff, hranges, hinit⟩
  · rw [hinit] at h
    cases h
  have hways := bootstrap_ways hs hranges heff.cpu_ne
  rw [hinit, Dvd.behind_apply] at h
  generalize bootstrap cpu p.1 = c at hways h
  cases hways with
  | returns => cases h
  | misses => cases h
  | dispatches _ _ hk =>
    cases h with
    | answered hi => exact absurd trivial hi
    | waits _ =>
      obtain ⟨s, hmem, hrest⟩ := hk q.1
      obtain ⟨u, hlast, _, hcalled⟩ := called_after (s := s) (hmem ▸ hq) hranges
      refine ⟨(u, { q.2 with initializing := false }), ?_, rfl, hcalled⟩
      simp only [Coop.Operation.rest]
      rw [hrest, hlast]
      rfl

/-- However many threads call DVDInit, and whenever they do: the part behind its guards begins at
most once, `__DVDFSInit` is called at most once and only with a file system table in low memory,
a call after the first one returns at once and changes nothing, even while the first one waits, no
call faults, and one that has waited returns whenever it goes on. -/
theorem dvd_init_begins_once {P : Coop.Pool DvdWorld DvdState Stop Away} (h : DvdRun config P) :
    P.state.2.begun ≤ 1 ∧ P.world.dispatched.length ≤ P.state.2.begun ∧
    (∀ s ∈ P.world.dispatched, hasPublishedFst s = .ret true s) ∧
    (P.state.2.begun = 1 → ∀ cpu, Dvd.init cpu P.state = .ret () P.state) ∧
    (∀ cpu a t, Dvd.init cpu P.state ≠ .stop (.memoryFault a) t) ∧
    ∀ x ∈ P.waiting, ∃ t : DvdState, x.code P.state = .ret () t ∧
    t.2.initializing = false ∧
      Called t.1 := by
  have hkeeps := h.begunOnce
  have hrests : ∀ x ∈ P.waiting, Finishing config x := by
    refine h.rests ?_ ?_
    · rintro Q x t i k hQ ⟨cpu⟩ hsettles
      exact initCall_rest (DvdRun.begunOnce hQ).serves hsettles
    · intro Q x t i k hQ hx hsettles
      obtain ⟨u, hret, _⟩ := hx _ (DvdRun.begunOnce hQ).serves
      rw [hret] at hsettles
      cases hsettles
  refine ⟨hkeeps.once, hkeeps.dispatched, hkeeps.published, fun hone cpu => ?_, fun cpu a t => ?_,
    fun x hx => hrests x hx _ hkeeps.serves⟩
  · rcases Dvd.init_cases hkeeps.serves cpu with ⟨_, hinit⟩ | ⟨heff, _⟩
    · exact hinit
    · exact absurd heff (hkeeps.shut hone cpu)
  · rcases Dvd.init_cases hkeeps.serves cpu with ⟨_, hinit⟩ | ⟨heff, hranges, hinit⟩
    · rw [hinit]
      simp
    · have hways := bootstrap_ways hkeeps.serves hranges heff.cpu_ne
      rw [hinit, Dvd.behind_apply]
      generalize bootstrap cpu P.state.1 = c at hways
      intro hfault
      cases hways with
      | returns => cases hfault
      | misses => cases hfault
      | dispatches => cases hfault

end

/-! ## A run on a Wii -/

/-- A Wii with a file system table of one entry, where DVDInit comes to wait. -/
def dvdBoot : Option (Memory × Memory × Memory × Memory × Memory × DvdState) := do
  let m ← wiiBoot
  let m₁ ← m.write32 kFstAddressLowMem 0x80001000#32
  let m₂ ← m₁.write32 kFstSizeLowMem 12#32
  let m₃ ← m₂.write32 0x80001000#32 0x01000000#32
  let m₄ ← m₃.write32 0x80001008#32 1#32
  let s := { bootMachine m₄ with dispatch := fun _ => some ⟨false, 0#32⟩ }
  let p ← (Dvd.init 1 (s, .start)).firstCall
  return (m, m₁, m₂, m₃, m₄, p.2)

theorem dvdBoot_waits : (dvdBoot.map fun r => decide (r.2.2.2.2.2.2.begun = 1)) = some true := by
  decide +kernel

/-- The law while the first call waits for `__DVDFSInit`: a second one returns at once. -/
theorem a_second_init_returns_at_once : ∃ P : Coop.Pool DvdWorld DvdState Stop Away,
    DvdRun wiiDefaults P ∧ P.waiting.length = 1 ∧ P.world.dispatched.length = 1 ∧
      ∀ cpu, Dvd.init cpu P.state = .ret () P.state := by
  obtain ⟨⟨_, _, _, _, _, _⟩, hsome, hread⟩ := Option.map_eq_some_iff.mp dvdBoot_waits
  have hbegun := of_decide_eq_true hread
  simp only [dvdBoot, Option.bind_eq_bind, Option.bind_eq_some_iff, Prod.exists,
    Option.pure_def, Option.some.injEq, Prod.mk.injEq] at hsome
  obtain ⟨m, hboot, m₁, h₁, m₂, h₂, m₃, h₃, m₄, h₄, i, s, globals, hleft, rfl,
    rfl, rfl, rfl, rfl,
    rfl, rfl⟩ := hsome
  have hserves : Serves wiiDefaults m₄ :=
    ((((wiiBoot_serves hboot).write32 h₁).write32 h₂).write32 h₃).write32 h₄
  obtain ⟨k, hcall⟩ := Coop.call_of_firstCall hleft
  have hstart : DvdRun wiiDefaults ⟨⟨[]⟩,
      ({ bootMachine m₄ with dispatch := fun _ => some ⟨false, 0#32⟩ }, .start), []⟩ :=
    .start ⟨hserves, rfl, rfl⟩
  have hrun := hstart.waits (.init 1) (t := (s, globals)) (i := i) (k := k) (by
    show Coop.Settles _ _ (Dvd.init 1 _) _ _
    rw [hcall]
    exact .waits trivial)
  exact ⟨_, hrun, rfl, rfl, (dvd_init_begins_once hrun).2.2.2.1 hbegun⟩

end wii_switch
