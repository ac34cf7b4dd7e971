-- The native overrides that mean to contain a memory fault
-- (include/switch_native_hle_traits.hpp, switch_thread_hle_traits.hpp,
-- switch_os_hle_traits.hpp). An access outside the mapped regions aborts the process and
-- throws nothing, so the handler around it never runs: only a preflight helps.
import WiiSwitch.ThreadBridges
import WiiSwitch.InterruptLaws

namespace wii_switch

open Bytes OS Routine

namespace OS

/-! ## The overrides -/

/-- `OSGetCurrentThread`. -/
def osGetCurrentThread (cpu : CpuPtr) : OS Unit := do
  if cpu = 0 then return ()
  setGpr cpu 3 (← read32 kOSRunningContextAddr)

/-- The loop of `EXIImm` over the bytes from an address on. -/
def clearBytes (address : Word) : Nat → OS Unit
  | 0 => return ()
  | n + 1 => do
    write8 address 0#8
    clearBytes (address + 1) n

/-- `EXIImm`. -/
def exiImm (cpu : CpuPtr) : OS Unit := do
  if cpu = 0 then return ()
  let buffer ← getGpr cpu 4
  let length ← getGpr cpu 5
  let type ← getGpr cpu 6
  onlyIf (type = 0#32 ∨ type = 2#32) do clearBytes buffer length.toNat
  setGpr cpu 3 1#32

def kQueueSize : Nat := 0x20

/-- `OS__InitMessageQueue`. -/
def osInitMessageQueue (cpu : CpuPtr) : OS Unit := do
  if cpu = 0 then return ()
  let queuePtr ← getGpr cpu 3
  if queuePtr = 0#32 then return ()
  let msgArrayPtr ← getGpr cpu 4
  let msgCount ← getGpr cpu 5
  unless ← contains queuePtr (BitVec.ofNat 64 kQueueSize) do return ()
  storeAll [.word (queuePtr + 0x00#32) 0#32, .word (queuePtr + 0x04#32) 0#32,
    .word (queuePtr + 0x08#32) 0#32, .word (queuePtr + 0x0C#32) 0#32,
    .word (queuePtr + 0x10#32) msgArrayPtr, .word (queuePtr + 0x14#32) msgCount,
    .word (queuePtr + 0x18#32) 0#32, .word (queuePtr + 0x1C#32) 0#32]

end OS

inductive ContainedCall where
  | osClearContext
  | osGetCurrentThread
  | exiImm
  | osInitMessageQueue
  | osReceiveMessage
deriving DecidableEq

namespace ContainedCall

/-- The override, with fuel for the loops of OSReceiveMessage and the bridges below it. -/
def run (fuel : Nat) : ContainedCall → CpuPtr → OS Unit
  | .osClearContext => OS.osClearContext
  | .osGetCurrentThread => OS.osGetCurrentThread
  | .exiImm => OS.exiImm
  | .osInitMessageQueue => OS.osInitMessageQueue
  | .osReceiveMessage => OS.osReceiveMessage fuel

/-- The addresses that the override touches, each with its length. -/
def touched (gpr : Fin 32 → Word) : ContainedCall → List (Word × Nat)
  | .osClearContext =>
    if gpr 3 = 0#32 then []
    else [(gpr 3 + kContextModeOffset, 2), (gpr 3 + kContextModeFlagsOffset, 2),
      (kOSExceptionContextAddr, 4)]
  | .osGetCurrentThread => [(kOSRunningContextAddr, 4)]
  | .exiImm =>
    if gpr 6 = 0#32 ∨ gpr 6 = 2#32 then
      (List.range (gpr 5).toNat).map fun i => (gpr 4 + BitVec.ofNat 32 i, 1)
    else []
  | .osInitMessageQueue => if gpr 3 = 0#32 then [] else [(gpr 3, OS.kQueueSize)]
  | .osReceiveMessage =>
    if gpr 3 = 0#32 then []
    else [(gpr 3 + kMsgQueueUsedOffset, 4)]

/-- The r3 that the override documents for a contained fault. -/
def documentedR3 : ContainedCall → Option Word
  | .osClearContext => none
  | .osGetCurrentThread => some 0#32
  | .exiImm => some 1#32
  | .osInitMessageQueue => none
  | .osReceiveMessage => some 0#32

/-- A receive does not block, and its queue is empty, if it is mapped. -/
def Covered (s : Machine Memory) (cpu : CpuPtr) (c : ContainedCall) : Prop :=
  c = .osReceiveMessage → s.gpr cpu 5 &&& 1#32 = 0#32 ∧ ∀ used,
    s.mem.read32 (s.gpr cpu 3 + kMsgQueueUsedOffset) = some used → used = 0#32

/-- Everything that the override touches is mapped. -/
def AllMapped (config : List RegionConfig) (gpr : Fin 32 → Word) (c : ContainedCall) : Prop :=
  ∀ t ∈ c.touched gpr, InOneRegion config t.1.toNat t.2

/-- The override returns to the guest, with the documented r3 when something that it
touches is not mapped. -/
def Contained (config : List RegionConfig) (fuel : Nat) (s : Machine Memory) (cpu : CpuPtr)
    (c : ContainedCall) : Prop :=
  ∃ s', c.run fuel cpu s = .ret () s' ∧
    (¬c.AllMapped config (s.gpr cpu) → ∀ x ∈ c.documentedR3, s'.gpr cpu 3 = x)

end ContainedCall

/-! ## Zero words -/

theorem byteLE_zero {w : Nat} (i : Nat) : byteLE (0#w) i = 0 := by
  apply BitVec.eq_of_getLsbD_eq
  intro j _
  simp [byteLE]

theorem byteLE_and {w : Nat} (x y : BitVec w) (i : Nat) :
    byteLE (x &&& y) i = byteLE x i &&& byteLE y i := by
  apply BitVec.eq_of_getLsbD_eq
  intro j hj
  simp [byteLE, hj]

/-- The bytes of a zero word are zeros. -/
theorem zero_bytes {config : List RegionConfig} {block : Backing × Word → Nat} {m : Memory}
    {f : Nat → Byte} (hc : Admissible config) (hm : Holds config block m f) {a : Word}
    (h : m.read32 a = some 0#32) {i : Nat} (hi : i < 4) : f (a.toNat + i) = 0 := by
  have hin : InOneRegion config a.toNat 4 := (read_isSome hc hm .w32 a).mp (by
    change (m.read32 a).isSome
    rw [h]
    rfl)
  obtain ⟨r, hr, hcov⟩ := hin
  have hsame := holds_same_write hc hm (k := .w32) h
  have hbyte := hsame.bytes r hr _ (hcov.has hi)
  rw [hm.bytes r hr _ (hcov.has hi)] at hbyte
  rw [hbyte]
  exact (apply_own (Store.mk .w32 a 0#32) hi _).trans (byteLE_zero _)

theorem read32_zero {config : List RegionConfig} {block : Backing × Word → Nat} {m : Memory}
    {f : Nat → Byte} (hc : Admissible config) (hm : Holds config block m f) {a : Word}
    (hin : InOneRegion config a.toNat 4) (h : ∀ i < 4, f (a.toNat + i) = 0) :
    m.read32 a = some 0#32 := by
  have := readAs_holds hc hm Width.w32.bits_eq (by decide) (by decide) hin
  refine Eq.trans this (congrArg some ?_)
  exact (ofBE_congr h).trans (ofBE_zero 4)

/-- A word that is 0 stays 0 when the interrupt bit of a halfword is cleared. -/
theorem Serves.zero_of_clear {config : List RegionConfig} {m m' : Memory} (hs : Serves config m)
    {a b : Word} {x : Half} (hx : m.read16 b = some x)
    (hw : m.write16 b (withInterruptBit false x) = some m') (h : m.read32 a = some 0#32) :
    m'.read32 a = some 0#32 := by
  obtain ⟨block, f, hm⟩ := hs.holds
  have hin : InOneRegion config a.toNat 4 := (hs.read32_isSome a).mp (by rw [h]; rfl)
  have hbefore := holds_same_write hs.admissible hm (k := .w16) hx
  have hafter := Serves.write_holds hs.admissible hm (k := .w16) hw
  refine read32_zero hs.admissible hafter hin fun i hi => ?_
  have hzero := zero_bytes hs.admissible hbefore h hi
  revert hzero
  unfold Store.apply
  cases (List.range Width.w16.bytes).find? fun j =>
    SameByte config (b.toNat + j) (a.toNat + i) with
  | none => exact id
  | some j =>
    intro hzero
    exact (byteLE_and _ _ _).trans ((congrArg (· &&& _) hzero).trans BitVec.zero_and)

/-! ## What decides each access -/

theorem Serves.write8 {config : List RegionConfig} {m m' : Memory} (h : Serves config m)
    {a : Word} {x : Byte} (hw : m.write8 a x = some m') : Serves config m' := h.write (k := .w8) hw

theorem Serves.write_inside8 {config : List RegionConfig} {m m' : Memory} (h : Serves config m)
    {a : Word} {x : Byte} (hw : m.write8 a x = some m') : InOneRegion config a.toNat 1 :=
  h.write_inside (k := .w8) hw

section

variable {config : List RegionConfig} {s : Machine Memory} {cpu : CpuPtr}

theorem total_read32 {Q : Word → Machine Memory → Prop} (a : Word) :
    (read32 a s).Meets .total Q ↔ ∃ x, s.mem.read32 a = some x ∧ Q x s := by
  unfold read32
  cases s.mem.read32 a with
  | none => simp [Coop.Contract.total]
  | some x => simp

theorem total_write8 {Q : Unit → Machine Memory → Prop} (a : Word) (x : Byte) :
    (write8 a x s).Meets .total Q ↔ ∃ m, s.mem.write8 a x = some m ∧ Q () (s.withMem m) := by
  unfold write8
  cases s.mem.write8 a x with
  | none => simp [Coop.Contract.total]
  | some m => simp

theorem total_write16 {Q : Unit → Machine Memory → Prop} (a : Word) (x : Half) :
    (write16 a x s).Meets .total Q ↔ ∃ m, s.mem.write16 a x = some m ∧ Q ()
    (s.withMem m) := by
  unfold write16
  cases s.mem.write16 a x with
  | none => simp [Coop.Contract.total]
  | some m => simp

theorem total_write32 {Q : Unit → Machine Memory → Prop} (a x : Word) :
    (write32 a x s).Meets .total Q ↔ ∃ m, s.mem.write32 a x = some m ∧ Q ()
    (s.withMem m) := by
  unfold write32
  cases s.mem.write32 a x with
  | none => simp [Coop.Contract.total]
  | some m => simp

/-! ## When the overrides return -/

/-- The override returns. -/
def Returns (c : Coop (Machine Memory) Stop Away Unit) : Prop := c.Meets .total fun _ _ => True

theorem returns_osClearContext (hs : Serves config s.mem) (hcpu : cpu ≠ 0) :
    Returns (osClearContext cpu s) ↔
    ContainedCall.osClearContext.AllMapped config (s.gpr cpu) := by
  unfold Returns osClearContext
  rw [Routine.ite_apply, if_neg hcpu, bind_of (getGpr_apply cpu 3 s), Routine.ite_apply]
  simp only [ContainedCall.AllMapped, ContainedCall.touched]
  by_cases hnull : s.gpr cpu 3 = 0#32
  · rw [if_pos hnull, if_pos hnull]
    exact ⟨fun _ t ht => absurd ht List.not_mem_nil, fun _ => trivial⟩
  rw [if_neg hnull, if_neg hnull]
  simp only [bind_apply, Coop.meets_bind, total_write16, total_read32, List.forall_mem_cons,
    List.not_mem_nil, false_implies, implies_true, and_true]
  constructor
  · rintro ⟨m₁, hw₁, m₂, hw₂, x, hx, _⟩
    have hs₁ := hs.write16 hw₁
    refine ⟨hs.write_inside (k := .w16) hw₁, hs₁.write_inside (k := .w16) hw₂, ?_⟩
    exact ((hs₁.write16 hw₂).read32_isSome _).mp (Option.isSome_iff_exists.mpr ⟨x, hx⟩)
  · rintro ⟨hmode, hflags, hexception⟩
    obtain ⟨m₁, hw₁⟩ := hs.write16_some hmode 0#16
    have hs₁ := hs.write16 hw₁
    obtain ⟨m₂, hw₂⟩ := hs₁.write16_some hflags 0#16
    have hs₂ := hs₁.write16 hw₂
    obtain ⟨x, hx⟩ := hs₂.read32_some hexception
    refine ⟨m₁, hw₁, m₂, hw₂, x, hx, ?_⟩
    rw [onlyIf_apply]
    split
    · obtain ⟨m₃, hw₃⟩ := hs₂.write32_some hexception 0#32
      exact (total_write32 _ _).mpr ⟨m₃, hw₃, trivial⟩
    · exact trivial

theorem returns_osGetCurrentThread (hs : Serves config s.mem) (hcpu : cpu ≠ 0) :
    Returns (osGetCurrentThread cpu s) ↔
      ContainedCall.osGetCurrentThread.AllMapped config (s.gpr cpu) := by
  unfold Returns osGetCurrentThread
  rw [Routine.ite_apply, if_neg hcpu, bind_apply, Coop.meets_bind, total_read32]
  simp only [setGpr_apply, Coop.meets_ret, and_true, ← Option.isSome_iff_exists, hs.read32_isSome,
    ContainedCall.AllMapped, ContainedCall.touched, List.mem_singleton, forall_eq]

/-- The loop of EXIImm returns exactly when every byte of the buffer is mapped. -/
theorem total_clearBytes (hs : Serves config s.mem) {Q : Machine Memory → Prop} (n : Nat)
    (a : Word) (hQ : ∀ m, Serves config m → Q (s.withMem m)) :
    ((clearBytes a n s).Meets .total fun _ t => Q t) ↔
      ∀ i < n, InOneRegion config (a + BitVec.ofNat 32 i).toNat 1 := by
  induction n generalizing a s with
  | zero => exact ⟨fun _ i hi => absurd hi (Nat.not_lt_zero i), fun _ => hQ s.mem hs⟩
  | succ n ih =>
    have hnext : ∀ i, a + 1 + BitVec.ofNat 32 i = a + BitVec.ofNat 32 (i + 1) := fun i => by
      rw [BitVec.ofNat_add, BitVec.add_comm (BitVec.ofNat 32 i), ← BitVec.add_assoc]
      rfl
    have hfirst : a + BitVec.ofNat 32 0 = a := BitVec.add_zero a
    simp only [clearBytes, bind_apply, Coop.meets_bind, total_write8,
      Nat.forall_lt_succ_left, hfirst]
    constructor
    · rintro ⟨m, hw, h⟩
      have hs' : Serves config m := hs.write8 hw
      refine ⟨hs.write_inside8 hw, fun i hi => ?_⟩
      rw [← hnext i]
      exact (ih (s := s.withMem m) hs' (a + 1) hQ).mp h i hi
    · rintro ⟨hin, h⟩
      obtain ⟨m, hw⟩ := hs.write_some (k := .w8) hin 0#8
      have hs' : Serves config m := hs.write8 hw
      refine ⟨m, hw, (ih (s := s.withMem m) hs' (a + 1) hQ).mpr fun i hi => ?_⟩
      rw [hnext i]
      exact h i hi

theorem returns_exiImm (hs : Serves config s.mem) (hcpu : cpu ≠ 0) :
    Returns (exiImm cpu s) ↔ ContainedCall.exiImm.AllMapped config (s.gpr cpu) := by
  unfold Returns exiImm
  rw [Routine.ite_apply, if_neg hcpu, bind_of (getGpr_apply cpu 4 s),
    bind_of (getGpr_apply cpu 5 s), bind_of (getGpr_apply cpu 6 s), bind_apply, Coop.meets_bind,
    onlyIf_apply]
  simp only [ContainedCall.AllMapped, ContainedCall.touched]
  by_cases h : s.gpr cpu 6 = 0#32 ∨ s.gpr cpu 6 = 2#32
  · rw [if_pos (decide_eq_true h), if_pos h]
    refine (total_clearBytes hs _ _ fun _ _ => trivial).trans ?_
    simp only [List.forall_mem_map, List.mem_range]
  · rw [if_neg (fun h' => h (of_decide_eq_true h')), if_neg h]
    exact ⟨fun _ t ht => absurd ht List.not_mem_nil, fun _ => trivial⟩

/-- The mirror of the interrupt flag touches only what is mapped, and a word that is 0
stays 0 when the flag is cleared. -/
theorem updateFlag_returns (hs : Serves config s.mem) (enabled : Bool) :
    ∃ m, updateCurrentContextInterruptFlag enabled s = .ret () (s.withMem m) ∧
    Serves config m ∧
      (enabled = false → ∀ a, s.mem.read32 a = some 0#32 → m.read32 a = some 0#32) := by
  have hnothing : ∃ m, (pure () : OS Unit) s = .ret () (s.withMem m) ∧ Serves config m ∧
      (enabled = false → ∀ a, s.mem.read32 a = some 0#32 → m.read32 a = some 0#32) :=
    ⟨s.mem, rfl, hs, fun _ _ h => h⟩
  unfold updateCurrentContextInterruptFlag
  rw [bind_of (mapped32_ret hs.initialized _), hs.contains32]
  rcases hcur : s.mem.read32 kOSCurrentContextAddr with _ | c
  · simpa using hnothing
  simp only [Option.isSome_some, if_true, bind_apply, read32_ret hcur, Coop.bind_ret]
  by_cases hc : c = 0#32
  · simpa [hc] using hnothing
  simp only [Routine.ite_apply, if_neg hc, bind_apply, contains_apply, Coop.bind_ret, hs.contains16]
  rcases hmode : s.mem.read16 (c + kContextModeFlagsOffset) with _ | x
  · simpa using hnothing
  simp only [Option.isSome_some, if_true, read16_ret hmode, Coop.bind_ret, onlyIf_apply]
  split
  · obtain ⟨m, hw⟩ := hs.write16_some ((hs.read16_isSome _).mp (by rw [hmode]; rfl))
      (withInterruptBit enabled x)
    refine ⟨m, write16_ret hw, hs.write16 hw, ?_⟩
    rintro rfl a ha
    exact hs.zero_of_clear hmode hw ha
  · exact hnothing

theorem exchangeInterrupts_returns (hs : Serves config s.mem) (cpu : CpuPtr) (enabled : Bool) :
    ∃ m, exchangeInterrupts cpu enabled s = .ret () (exchanged s cpu enabled m) ∧
    Serves config m ∧
      (enabled = false → ∀ a, s.mem.read32 a = some 0#32 → m.read32 a = some 0#32) := by
  obtain ⟨m, hrun, hm⟩ := updateFlag_returns (s := s.setInterrupts enabled) hs enabled
  refine ⟨m, ?_, hm⟩
  unfold exchangeInterrupts exchanged
  simp only [bind_apply, gets_apply, modify_apply, Coop.bind_ret, hrun, onlyIf_apply, setGpr_apply]
  by_cases h : cpu = 0
  · simp [h]
  · simp [h]

theorem restoreInterrupts_returns (hs : Serves config s.mem) (cpu : CpuPtr) (state : Word) :
    ∃ t, restoreInterrupts cpu state s = .ret () t := by
  unfold restoreInterrupts
  rw [Routine.ite_apply]
  split
  · exact ⟨s, rfl⟩
  obtain ⟨m, hrun, _⟩ := exchangeInterrupts_returns (s := s.setGpr cpu 3 state) hs cpu
    (cpu ≠ 0 ∧ (s.setGpr cpu 3 state).gpr cpu 3 ≠ 0#32)
  exact ⟨_, hrun⟩

/-- One round of a receive that does not block. -/
theorem receiveLoop_empty {m : Memory} (hm : s.mem = m) (sleepFuel fuel : Nat) (cpu : CpuPtr)
    (queuePtr outMsgPtr : Word) :
    ReceiveMessage.receiveLoop sleepFuel cpu queuePtr outMsgPtr false (fuel + 1) s =
      match m.read32 (queuePtr + kMsgQueueUsedOffset) with
      | none => .stop (.memoryFault (queuePtr + kMsgQueueUsedOffset)) s
      | some used =>
        if used ≠ 0#32 then (do
          ReceiveMessage.takeMessage cpu queuePtr outMsgPtr
          return 1#32) s
        else .ret 0#32 s := by
  subst hm
  simp only [ReceiveMessage.receiveLoop, bind_apply, read32]
  cases s.mem.read32 (queuePtr + kMsgQueueUsedOffset) with
  | none => rfl
  | some used =>
    simp only [Coop.bind_ret, Routine.ite_apply, if_true]
    rfl

theorem returns_osReceiveMessage (hs : Serves config s.mem) (hcpu : cpu ≠ 0) (fuel : Nat)
    (hcovered : ContainedCall.osReceiveMessage.Covered s cpu) :
    Returns (osReceiveMessage (fuel + 1) cpu s) ↔
      ContainedCall.osReceiveMessage.AllMapped config (s.gpr cpu) := by
  obtain ⟨hblock, hempty⟩ := hcovered rfl
  simp only [ContainedCall.AllMapped, ContainedCall.touched]
  unfold Returns osReceiveMessage
  simp only [Routine.ite_apply, if_neg hcpu, bind_apply, getGpr_apply, Coop.bind_ret]
  by_cases hnull : s.gpr cpu 3 = 0#32
  · rw [if_pos hnull, if_pos hnull]
    exact ⟨fun _ t ht => absurd ht List.not_mem_nil, fun _ => trivial⟩
  rw [if_neg hnull, if_neg hnull]
  obtain ⟨m, hdisable, hm, hzero⟩ := exchangeInterrupts_returns hs cpu false
  rw [osDisableInterrupts, hdisable]
  have hblocks : decide (s.gpr cpu 5 &&& 1#32 ≠ 0#32) = false :=
    decide_eq_false (not_not.mpr hblock)
  simp only [Coop.bind_ret, hblocks]
  rw [receiveLoop_empty (exchanged_mem s cpu false m)]
  have hmapped := hm.read32_isSome (s.gpr cpu 3 + kMsgQueueUsedOffset)
  simp only [List.mem_singleton, forall_eq]
  rcases hread : m.read32 (s.gpr cpu 3 + kMsgQueueUsedOffset) with _ | used
  · rw [hread] at hmapped
    exact ⟨False.elim, fun h => absurd (hmapped.mpr h) (by decide)⟩
  · rw [hread] at hmapped
    have hin := hmapped.mp rfl
    obtain ⟨used₀, hread₀⟩ := hs.read32_some hin
    have hused₀ := hempty used₀ hread₀
    subst hused₀
    have hused := hzero rfl _ hread₀
    rw [hread] at hused
    cases hused
    simp only [ne_eq, not_true_eq_false, if_false, Coop.bind_ret]
    obtain ⟨t, ht⟩ := restoreInterrupts_returns (s := exchanged s cpu false m)
      ((exchanged_mem s cpu false m).symm ▸ hm) cpu
      (stateWord (decide ((exchanged s cpu false m).gpr cpu 3 ≠ 0#32)))
    rw [ht]
    exact ⟨fun _ => hin, fun _ => trivial⟩

/-- Stores of words at mapped addresses. -/
theorem storeAll_returns (hs : Serves config s.mem) (stores : List (Word × Word))
    (h : ∀ t ∈ stores, InOneRegion config t.1.toNat 4) :
    Returns (storeAll (stores.map fun t => .word t.1 t.2) s) := by
  induction stores generalizing s with
  | nil => exact trivial
  | cons t stores ih =>
    obtain ⟨m, hw⟩ := hs.write32_some (h t List.mem_cons_self) t.2
    have hstore : store (.word t.1 t.2) s = .ret () (s.withMem m) := write32_ret hw
    unfold Returns
    rw [List.map_cons, storeAll, bind_of hstore]
    exact ih (s := s.withMem m) (hs.write32 hw) fun u hu => h u (List.mem_cons_of_mem t hu)

theorem returns_osInitMessageQueue (hs : Serves config s.mem) :
    Returns (osInitMessageQueue cpu s) := by
  unfold Returns osInitMessageQueue
  simp only [Routine.ite_apply, bind_apply, getGpr_apply, Coop.bind_ret, contains_apply]
  split
  · exact trivial
  split
  · exact trivial
  split
  · rename_i hmapped
    have hin := (hs.contains_iff _ (by decide) (by decide)).mp hmapped
    refine storeAll_returns hs [(_ + 0x00#32, 0#32), (_ + 0x04#32, 0#32), (_ + 0x08#32, 0#32),
      (_ + 0x0C#32, 0#32), (_ + 0x10#32, _), (_ + 0x14#32, _), (_ + 0x18#32, 0#32),
      (_ + 0x1C#32, 0#32)] ?_
    simp only [List.forall_mem_cons, List.not_mem_nil, false_implies, implies_true, and_true]
    refine ⟨?_, ?_, ?_, ?_, ?_, ?_, ?_, ?_⟩
    all_goals exact hin.inside hs.admissible _ (by decide) (by decide)
  · exact trivial

/-- Which override returns, and when. -/
theorem returns_iff (hs : Serves config s.mem) (hcpu : cpu ≠ 0) (fuel : Nat) {c : ContainedCall}
    (hcovered : c.Covered s cpu) : Returns (c.run (fuel + 1) cpu s) ↔
      c = .osInitMessageQueue ∨ c.AllMapped config (s.gpr cpu) := by
  cases c with
  | osClearContext => simpa [ContainedCall.run] using returns_osClearContext hs hcpu
  | osGetCurrentThread => simpa [ContainedCall.run] using returns_osGetCurrentThread hs hcpu
  | exiImm => simpa [ContainedCall.run] using returns_exiImm hs hcpu
  | osInitMessageQueue => exact ⟨fun _ => Or.inl rfl, fun _ => returns_osInitMessageQueue hs⟩
  | osReceiveMessage =>
    simpa [ContainedCall.run] using returns_osReceiveMessage hs hcpu fuel hcovered

/-- An override contains a fault only where a preflight keeps it from the access: it
returns exactly when what it touches is mapped, and OS__InitMessageQueue always. -/
theorem only_a_preflight_contains_a_fault (hs : Serves config s.mem) (hcpu : cpu ≠ 0) (fuel : Nat)
    (c : ContainedCall) (hcovered : c.Covered s cpu) :
    c.Contained config (fuel + 1) s cpu ↔
      c = .osInitMessageQueue ∨ c.AllMapped config (s.gpr cpu) := by
  have hreturns := returns_iff hs hcpu fuel hcovered
  constructor
  · rintro ⟨s', hrun, _⟩
    exact hreturns.mp (Coop.meets_total.mpr ⟨(), s', hrun, trivial⟩)
  · intro h
    obtain ⟨_, s', hrun, _⟩ := Coop.meets_total.mp (hreturns.mpr h)
    refine ⟨s', hrun, fun hfault x hx => ?_⟩
    rcases h with rfl | h
    · cases hx
    · exact absurd h hfault

end

/-- A receive from the zeros of a booted Wii, which are an empty queue. -/
theorem an_empty_queue_gives_no_message : ∃ m, wiiBoot = some m ∧
    ContainedCall.osReceiveMessage.Contained wiiDefaults 1
      ((bootMachine m).setGpr 1 3 0x80400000#32) 1 := by
  have hread : (wiiBoot.map fun m => m.read32 0x8040001C#32) = some (some 0#32) := by
    decide +kernel
  obtain ⟨m, hm, hused⟩ := Option.map_eq_some_iff.mp hread
  have hcovered : ContainedCall.osReceiveMessage.Covered
      ((bootMachine m).setGpr 1 3 0x80400000#32) 1 := by
    intro _
    constructor
    · rw [Machine.setGpr_gpr]
      exact BitVec.zero_and
    · intro used h
      exact (Option.some.inj (hused.symm.trans h)).symm
  refine ⟨m, hm, (only_a_preflight_contains_a_fault
    (s := (bootMachine m).setGpr 1 3 0x80400000#32) (wiiBoot_serves hm) Nat.one_ne_zero 0 _
    hcovered).mpr (Or.inr ?_)⟩
  intro t ht
  cases List.mem_singleton.mp ht
  exact lowMemory_mapped (a := 0x8040001C#32) (n := 4) (by decide) (by decide)

/-- OSClearContext of a context that no region holds: the process ends in the store. -/
theorem an_unmapped_context_ends_the_process : ∃ m, wiiBoot = some m ∧
    ¬ContainedCall.osClearContext.Contained wiiDefaults 1
      ((bootMachine m).setGpr 1 3 0x40000000#32) 1 := by
  have hrun : (wiiBoot.map fun m => (ContainedCall.osClearContext.run 1 1
      ((bootMachine m).setGpr 1 3 0x40000000#32)).ended.isSome) = some false := by
    decide +kernel
  obtain ⟨m, hm, hended⟩ := Option.map_eq_some_iff.mp hrun
  refine ⟨m, hm, ?_⟩
  rintro ⟨s', hret, _⟩
  rw [hret] at hended
  cases hended

end wii_switch
