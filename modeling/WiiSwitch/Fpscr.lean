-- FPSCR over any history of mtfsf and mtfsb1, on any register files
-- (source/ppc_indirect_link_helpers_bridge.cpp, ppc_fpu_helpers_bridge.cpp). Each bit is a cell:
-- it has the value of the last call that covers it, and the two summary bits never change.
import WiiSwitch.InterruptLaws
import WiiSwitch.Lib.Cells

namespace wii_switch

open OS Routine

def kFpscrReadOnlySummaryMask : Word := 0x60000000#32

/-- FPSCR[NI], bit 29 from the left. -/
def niBit (fpscr : Word) : Bool := fpscr.getLsbD 2

def Machine.setFlushMode {M : Type} (s : Machine M) (mode : Bool) : Machine M :=
  { s with flushMode := mode }

/-! ## The pinned runtime -/

/-- What the helpers call of the pinned runtime, which the repository does not hold. A double is
its bits. -/
structure PinnedRuntime where
  /-- `MkwApplyHostNiMode`: the mode after a call with an FPSCR, and the mode before. -/
  applyHostNiMode : Word → Bool → Bool
  /-- `PPC_FprLowWordInline`. -/
  fprLowWord : Word64 → Word
  /-- `PpcBitCastToDoubleInline`. -/
  bitCastToDouble : Word64 → Word64
  /-- What `TryGetCpuContext` answers in a `CpuContextScope` of a register file, and its answer
  outside. -/
  scopedCpu : CpuPtr → CpuPtr → CpuPtr

/-- The functions do what they are called for. -/
structure PinnedRuntime.AsNamed (runtime : PinnedRuntime) : Prop where
  applyHostNiMode : ∀ fpscr mode, runtime.applyHostNiMode fpscr mode = niBit fpscr
  fprLowWord : ∀ source, runtime.fprLowWord source = source.setWidth 32
  bitCastToDouble : ∀ bits, runtime.bitCastToDouble bits = bits
  scopedCpu : ∀ cpu outer, runtime.scopedCpu cpu outer = cpu

def plainRuntime : PinnedRuntime :=
  ⟨fun fpscr _ => niBit fpscr, fun source => source.setWidth 32, id, fun cpu _ => cpu⟩

theorem plainRuntime_asNamed : plainRuntime.AsNamed :=
  ⟨fun _ _ => rfl, fun _ => rfl, fun _ => rfl, fun _ _ => rfl⟩

/-! ## The calls -/

namespace OS

/-- `MkwApplyHostNiMode(cpu->fpscr)`. -/
def applyHostNiMode (runtime : PinnedRuntime) (cpu : CpuPtr) : OS Unit :=
  Routine.modify fun s =>
    s.setFlushMode (runtime.applyHostNiMode (s.cpus cpu).fpscr s.flushMode)

/-- The bits of FPSCR that a field covers; two bits of field 0 are read-only. -/
def fieldBits (field : Nat) : Word :=
  let mask := 0xF#32 <<< ((7 - field) * 4)
  if field = 0 then mask &&& ~~~kFpscrReadOnlySummaryMask else mask

/-- One round of the loop of `PPC_Mtfsf`. -/
def mtfsfField (fieldMask incoming fpscr : Word) (field : Nat) : Word :=
  if fieldMask &&& (1#32 <<< (7 - field)) = 0#32 then fpscr
  else (fpscr &&& ~~~fieldBits field) ||| (incoming &&& fieldBits field)

/-- `PPC_Mtfsf`; `cpu` is the answer of `TryGetCpuContext`. -/
def ppcMtfsf (runtime : PinnedRuntime) (cpu : CpuPtr) (fieldMask : Word) (source : Word64) :
    OS Unit := do
  if cpu = 0 then return ()
  let fieldMask := fieldMask &&& 0xFF#32
  if fieldMask = 0#32 then return ()
  let incoming := runtime.fprLowWord source
  if fieldMask = 0xFF#32 then
    onCpu cpu fun c =>
      { c with fpscr := (c.fpscr &&& kFpscrReadOnlySummaryMask) |||
          (incoming &&& ~~~kFpscrReadOnlySummaryMask) }
    return ← applyHostNiMode runtime cpu
  onCpu cpu fun c =>
    { c with fpscr := (List.range 8).foldl (mtfsfField fieldMask incoming) c.fpscr }
  applyHostNiMode runtime cpu

/-- `PPC_Mtfsb1`. -/
def ppcMtfsb1 (runtime : PinnedRuntime) (cpu : CpuPtr) (bit : Word) : OS Unit := do
  if cpu = 0 then return ()
  let bit := bit &&& 31#32
  if bit = 1#32 ∨ bit = 2#32 then return ()
  onCpu cpu fun c => { c with fpscr := c.fpscr ||| (1#32 <<< (31#32 - bit)) }
  applyHostNiMode runtime cpu

/-- `PPC_Mffs`. -/
def ppcMffs (runtime : PinnedRuntime) (cpu : CpuPtr) : OS Word64 := do
  if cpu = 0 then return runtime.bitCastToDouble 0#64
  Routine.gets fun s => runtime.bitCastToDouble ((s.cpus cpu).fpscr.setWidth 64)

end OS

/-- A call that writes FPSCR. -/
inductive FpscrCall where
  | mtfsf (fieldMask : Word) (source : Word64)
  | mtfsb1 (bit : Word)

def FpscrCall.code (runtime : PinnedRuntime) (cpu : CpuPtr) : FpscrCall → OS Unit
  | .mtfsf fieldMask source => ppcMtfsf runtime cpu fieldMask source
  | .mtfsb1 bit => ppcMtfsb1 runtime cpu bit

/-- A history of calls, newest first, each with the register file it is made on. -/
def fpscrRun (runtime : PinnedRuntime) : List (CpuPtr × FpscrCall) → OS Unit
  | [] => pure ()
  | c :: past => do
    fpscrRun runtime past
    c.2.code runtime c.1

/-! ## One call -/

/-- The call gets as far as FPSCR. -/
def FpscrCall.Writes : FpscrCall → Prop
  | .mtfsf fieldMask _ => fieldMask &&& 0xFF#32 ≠ 0#32
  | .mtfsb1 bit => bit &&& 31#32 ≠ 1#32 ∧ bit &&& 31#32 ≠ 2#32

instance (c : FpscrCall) : Decidable c.Writes :=
  match c with
  | .mtfsf _ _ => inferInstanceAs (Decidable (_ ≠ _))
  | .mtfsb1 _ => inferInstanceAs (Decidable (_ ∧ _))

/-- FPSCR after the call. -/
def FpscrCall.value (fpscr : Word) : FpscrCall → Word
  | .mtfsf fieldMask source =>
    let incoming := source.setWidth 32
    if fieldMask &&& 0xFF#32 = 0xFF#32 then
      (fpscr &&& kFpscrReadOnlySummaryMask) ||| (incoming &&& ~~~kFpscrReadOnlySummaryMask)
    else (List.range 8).foldl (mtfsfField (fieldMask &&& 0xFF#32) incoming) fpscr
  | .mtfsb1 bit => fpscr ||| (1#32 <<< (31#32 - (bit &&& 31#32)))

/-- The machine after the call. -/
def FpscrCall.step (c : CpuPtr × FpscrCall) (s : Machine Memory) : Machine Memory :=
  if c.1 = 0 ∨ ¬c.2.Writes then s
  else
    (s.onCpu c.1 fun file => { file with fpscr := c.2.value file.fpscr }).setFlushMode
      (niBit (c.2.value (s.cpus c.1).fpscr))

theorem FpscrCall.code_apply {runtime : PinnedRuntime} (hr : runtime.AsNamed) (cpu : CpuPtr)
    (c : FpscrCall) (s : Machine Memory) :
    c.code runtime cpu s = .ret () (FpscrCall.step (cpu, c) s) := by
  have hmode : applyHostNiMode runtime cpu =
      Routine.modify fun s => s.setFlushMode (niBit (s.cpus cpu).fpscr) := by
    unfold applyHostNiMode
    simp only [hr.applyHostNiMode]
  unfold FpscrCall.step
  by_cases hcpu : cpu = 0
  · cases c <;> simp [FpscrCall.code, ppcMtfsf, ppcMtfsb1, hcpu]
  · cases c with
    | mtfsf fieldMask source =>
      unfold FpscrCall.code ppcMtfsf FpscrCall.Writes FpscrCall.value
      rw [hmode]
      by_cases hnone : fieldMask &&& 0xFF#32 = 0#32
      · simp [hcpu, hnone]
      · by_cases hall : fieldMask &&& 0xFF#32 = 0xFF#32
        · simp [hcpu, hall, hr.fprLowWord, Machine.onCpu]
        · simp [hcpu, hnone, hall, hr.fprLowWord, Machine.onCpu]
    | mtfsb1 bit =>
      unfold FpscrCall.code ppcMtfsb1 FpscrCall.Writes FpscrCall.value
      rw [hmode]
      by_cases hsummary : bit &&& 31#32 = 1#32 ∨ bit &&& 31#32 = 2#32
      · rcases hsummary with h | h <;> simp [hcpu, h]
      · rw [not_or] at hsummary
        simp [hcpu, hsummary, Machine.onCpu]

theorem fpscrRun_apply {runtime : PinnedRuntime} (hr : runtime.AsNamed)
    (past : List (CpuPtr × FpscrCall)) (s : Machine Memory) :
    fpscrRun runtime past s = .ret () (past.foldr FpscrCall.step s) := by
  induction past with
  | nil => rfl
  | cons c past ih =>
    unfold fpscrRun
    rw [Routine.bind_of ih, FpscrCall.code_apply hr]
    rfl

/-! ## The bits -/

/-- FEX and VX. -/
def Summary (i : Fin 32) : Prop := i = 29 ∨ i = 30

instance (i : Fin 32) : Decidable (Summary i) := inferInstanceAs (Decidable (_ ∨ _))

/-- What a call puts in the bits of FPSCR, counted from the right. -/
def FpscrCall.fill : FpscrCall → Cells.Fill (Fin 32) Bool
  | .mtfsf fieldMask source => fun i =>
    if fieldMask.getLsbD (i / 4) ∧ ¬Summary i then some (source.getLsbD i) else none
  | .mtfsb1 bit => fun i =>
    if (i : Nat) = 31 - bit.toNat % 32 ∧ ¬Summary i then some true else none

theorem FpscrCall.fill_mtfsf (fieldMask : Word) (source : Word64) (i : Fin 32) :
    (FpscrCall.mtfsf fieldMask source).fill i =
      if fieldMask.getLsbD (i / 4) ∧ ¬Summary i then some (source.getLsbD i) else none := rfl

theorem FpscrCall.fill_mtfsb1 (bit : Word) (i : Fin 32) : (FpscrCall.mtfsb1 bit).fill i =
    if (i : Nat) = 31 - bit.toNat % 32 ∧ ¬Summary i then some true else none := rfl

/-- The round for a field takes bit `i` from the source. -/
def takes (fieldMask : Word) (i : Fin 32) (field : Nat) : Bool :=
  fieldMask.getLsbD (7 - field) && (fieldBits field).getLsbD i

theorem and_shifted_eq_zero (x : Word) {k : Nat} (hk : k < 32) :
    x &&& (1#32 <<< k) = 0#32 ↔ x.getLsbD k = false := by
  rw [← BitVec.twoPow_eq, BitVec.and_twoPow]
  cases x.getLsbD k with
  | false => simp
  | true =>
    simp only [if_true, Bool.true_eq_false, iff_false]
    intro hzero
    have hbit : (BitVec.twoPow 32 k).getLsbD k = true := by simp [hk]
    rw [hzero] at hbit
    simp at hbit

theorem mtfsfField_bit (fieldMask incoming fpscr : Word) (field : Nat) (i : Fin 32) :
    (mtfsfField fieldMask incoming fpscr field).getLsbD i =
      if takes fieldMask i field then incoming.getLsbD i else fpscr.getLsbD i := by
  unfold mtfsfField takes
  by_cases hmask : fieldMask &&& (1#32 <<< (7 - field)) = 0#32
  · rw [if_pos hmask]
    rw [and_shifted_eq_zero _ (by omega)] at hmask
    simp [hmask]
  · rw [if_neg hmask]
    rw [and_shifted_eq_zero _ (by omega), Bool.not_eq_false] at hmask
    simp only [BitVec.getLsbD_or, BitVec.getLsbD_and, BitVec.getLsbD_not, i.isLt, hmask]
    cases (fieldBits field).getLsbD i <;> simp

/-- The rounds together take the bits that one of them takes. -/
theorem foldl_mtfsfField_bit (fieldMask incoming fpscr : Word) (fields : List Nat) (i : Fin 32) :
    (fields.foldl (mtfsfField fieldMask incoming) fpscr).getLsbD i =
      if fields.any (takes fieldMask i) then incoming.getLsbD i else fpscr.getLsbD i := by
  induction fields generalizing fpscr with
  | nil => simp
  | cons field fields ih =>
    rw [List.foldl_cons, ih, mtfsfField_bit, List.any_cons]
    cases takes fieldMask i field <;> simp

/-- A bit is in one field, if it is not a summary. -/
theorem fieldBits_bit : ∀ (field : Fin 8) (i : Fin 32), (fieldBits field).getLsbD i =
    decide (7 - (field : Nat) = i / 4 ∧ ¬Summary i) := by
  decide

theorem rounds_take (fieldMask : Word) (i : Fin 32) :
    (List.range 8).any (takes fieldMask i) =
      decide (fieldMask.getLsbD (i / 4) = true ∧ ¬Summary i) := by
  rw [Bool.eq_iff_iff, List.any_eq_true, decide_eq_true_eq]
  unfold takes
  constructor
  · rintro ⟨field, hfield, htakes⟩
    rw [List.mem_range] at hfield
    rw [Bool.and_eq_true, fieldBits_bit ⟨field, hfield⟩ i, decide_eq_true_eq] at htakes
    exact ⟨htakes.2.1 ▸ htakes.1, htakes.2.2⟩
  · rintro ⟨hmask, hsummary⟩
    have hfield : 7 - (i : Nat) / 4 < 8 := by omega
    have hsame : 7 - (7 - (i : Nat) / 4) = i / 4 := by omega
    refine ⟨7 - i / 4, List.mem_range.mpr hfield, ?_⟩
    rw [Bool.and_eq_true, fieldBits_bit ⟨7 - i / 4, hfield⟩ i, decide_eq_true_eq, hsame]
    exact ⟨hmask, rfl, hsummary⟩

theorem readOnly_bit : ∀ i : Fin 32,
    kFpscrReadOnlySummaryMask.getLsbD i = decide (Summary i) := by
  decide

/-- A mask of all fields. -/
theorem allFields_bit : ∀ i : Fin 32, (0xFF#32).getLsbD (i / 4) = true := by
  decide

theorem fieldMask_bit (fieldMask : Word) (i : Fin 32) :
    (fieldMask &&& 0xFF#32).getLsbD (i / 4) = fieldMask.getLsbD (i / 4) := by
  rw [BitVec.getLsbD_and, allFields_bit, Bool.and_true]

/-- The fast path for all fields takes the same bits as the rounds. -/
theorem mtfsf_all_bit (incoming fpscr : Word) (i : Fin 32) :
    ((fpscr &&& kFpscrReadOnlySummaryMask) |||
      (incoming &&& ~~~kFpscrReadOnlySummaryMask)).getLsbD i =
      if ¬Summary i then incoming.getLsbD i else fpscr.getLsbD i := by
  simp only [BitVec.getLsbD_or, BitVec.getLsbD_and, BitVec.getLsbD_not, i.isLt, readOnly_bit]
  by_cases hsummary : Summary i <;> simp [hsummary]

/-- The number of a bit, counted from the left. -/
theorem bit_toNat (bit : Word) : (bit &&& 31#32).toNat = bit.toNat % 32 := by
  rw [BitVec.toNat_and]
  exact Nat.and_two_pow_sub_one_eq_mod bit.toNat 5

/-- A bit set by mtfsb1. -/
theorem mtfsb1_bit (bit fpscr : Word) (i : Fin 32) :
    (fpscr ||| (1#32 <<< (31#32 - (bit &&& 31#32)))).getLsbD i =
      (fpscr.getLsbD i || decide ((i : Nat) = 31 - bit.toNat % 32)) := by
  have hlt : bit.toNat % 32 < 32 := Nat.mod_lt _ (by omega)
  have hshift : (31#32 - (bit &&& 31#32)).toNat = 31 - bit.toNat % 32 := by
    rw [BitVec.toNat_sub, bit_toNat, BitVec.toNat_ofNat]
    omega
  rw [BitVec.getLsbD_or, BitVec.shiftLeft_eq', hshift, ← BitVec.twoPow_eq, BitVec.getLsbD_twoPow]
  have hin : 31 - bit.toNat % 32 < 32 := by omega
  simp [hin, eq_comm]

theorem FpscrCall.value_bit (c : FpscrCall) (hc : c.Writes) (fpscr : Word) (i : Fin 32) :
    (c.value fpscr).getLsbD i = (c.fill i).getD (fpscr.getLsbD i) := by
  cases c with
  | mtfsf fieldMask source =>
    have hlow : (source.setWidth 32).getLsbD i = source.getLsbD i := by
      simp
    rw [FpscrCall.fill_mtfsf]
    unfold FpscrCall.value
    by_cases hall : fieldMask &&& 0xFF#32 = 0xFF#32
    · have hmask : fieldMask.getLsbD (i / 4) = true := by
        rw [← fieldMask_bit, hall, allFields_bit]
      simp only [if_pos hall, mtfsf_all_bit, hlow, hmask, true_and]
      by_cases hsummary : Summary i <;> simp [hsummary]
    · simp only [if_neg hall, foldl_mtfsfField_bit, rounds_take, fieldMask_bit, hlow,
        decide_eq_true_eq]
      by_cases htakes : fieldMask.getLsbD (i / 4) = true ∧ ¬Summary i <;> simp [htakes]
  | mtfsb1 bit =>
    have hone : bit.toNat % 32 ≠ 1 := fun h =>
      hc.1 (BitVec.eq_of_toNat_eq ((bit_toNat bit).trans h))
    have htwo : bit.toNat % 32 ≠ 2 := fun h =>
      hc.2 (BitVec.eq_of_toNat_eq ((bit_toNat bit).trans h))
    rw [FpscrCall.fill_mtfsb1]
    unfold FpscrCall.value
    simp only [mtfsb1_bit]
    by_cases hi : (i : Nat) = 31 - bit.toNat % 32
    · have hsummary : ¬Summary i := by
        unfold Summary
        omega
      simp [hi, hsummary]
    · simp [hi]

/-- The fast path of mtfsf for all fields does what the eight rounds do. -/
theorem mtfsf_fast_path (fpscr incoming : Word) :
    (fpscr &&& kFpscrReadOnlySummaryMask) ||| (incoming &&& ~~~kFpscrReadOnlySummaryMask) =
      (List.range 8).foldl (mtfsfField 0xFF#32 incoming) fpscr := by
  apply BitVec.eq_of_getLsbD_eq
  intro i hi
  have hall := mtfsf_all_bit incoming fpscr ⟨i, hi⟩
  have hrounds := foldl_mtfsfField_bit 0xFF#32 incoming fpscr (List.range 8) ⟨i, hi⟩
  rw [rounds_take, allFields_bit] at hrounds
  rw [hall, hrounds]
  by_cases hsummary : Summary ⟨i, hi⟩ <;> simp [hsummary]

/-! ## A history -/

/-- What a call puts in the bits of all register files. -/
def callFill (c : CpuPtr × FpscrCall) : Cells.Fill (CpuPtr × Fin 32) Bool := fun k =>
  if c.1 ≠ 0 ∧ k.1 = c.1 then c.2.fill k.2 else none

def fpscrBits (s : Machine Memory) (k : CpuPtr × Fin 32) : Bool := (s.cpus k.1).fpscr.getLsbD k.2

theorem FpscrCall.fill_of_not_writes {c : FpscrCall} (hc : ¬c.Writes) (i : Fin 32) :
    c.fill i = none := by
  cases c with
  | mtfsf fieldMask source =>
    have hc : fieldMask &&& 0xFF#32 = 0#32 := by simpa [FpscrCall.Writes] using hc
    have hbit : fieldMask.getLsbD (i / 4) = false := by
      rw [← fieldMask_bit, hc]
      simp
    simp [FpscrCall.fill_mtfsf, hbit]
  | mtfsb1 bit =>
    have hsummary : bit.toNat % 32 = 1 ∨ bit.toNat % 32 = 2 := by
      have hc : ¬(bit &&& 31#32 ≠ 1#32 ∧ bit &&& 31#32 ≠ 2#32) := hc
      rw [not_and_or, not_not, not_not] at hc
      rw [← bit_toNat]
      rcases hc with h | h <;> simp [h]
    have hnot : ¬((i : Nat) = 31 - bit.toNat % 32 ∧ ¬Summary i) := by
      unfold Summary
      omega
    exact if_neg hnot

/-- A call that gets as far as FPSCR changes one register file. -/
theorem FpscrCall.step_cpus {c : CpuPtr × FpscrCall} (hnull : c.1 ≠ 0) (hwrites : c.2.Writes)
    (s : Machine Memory) : (FpscrCall.step c s).cpus = Function.update s.cpus c.1
      { s.cpus c.1 with fpscr := c.2.value (s.cpus c.1).fpscr } := by
  unfold FpscrCall.step
  rw [if_neg (by simp [hnull, hwrites])]
  rfl

theorem FpscrCall.step_skipped {c : CpuPtr × FpscrCall} (h : ¬(c.1 ≠ 0 ∧ c.2.Writes))
    (s : Machine Memory) : FpscrCall.step c s = s := by
  unfold FpscrCall.step
  rw [not_and_or, not_not] at h
  exact if_pos h

/-- Each call is one write of the bits. -/
theorem fpscr_steps : Cells.Steps fpscrBits FpscrCall.step callFill := by
  constructor
  intro c s
  funext k
  unfold Cells.Fill.on callFill fpscrBits
  by_cases hwrites : c.1 ≠ 0 ∧ c.2.Writes
  · rw [FpscrCall.step_cpus hwrites.1 hwrites.2]
    by_cases hk : k.1 = c.1
    · rw [hk, Function.update_self, if_pos ⟨hwrites.1, rfl⟩]
      exact c.2.value_bit hwrites.2 (s.cpus c.1).fpscr k.2
    · rw [Function.update_of_ne hk, if_neg (by simp [hk])]
      rfl
  · rw [FpscrCall.step_skipped hwrites]
    by_cases hnull : c.1 ≠ 0 ∧ k.1 = c.1
    · rw [if_pos hnull, FpscrCall.fill_of_not_writes fun h => hwrites ⟨hnull.1, h⟩]
      rfl
    · rw [if_neg hnull]
      rfl

/-- The newest call that got as far as FPSCR. -/
def lastWriter (past : List (CpuPtr × FpscrCall)) : Option (CpuPtr × FpscrCall) :=
  past.find? fun c => decide (c.1 ≠ 0 ∧ c.2.Writes)

/-- The host flush mode behind a history. -/
def modeAfter (past : List (CpuPtr × FpscrCall)) (s s' : Machine Memory) : Bool :=
  match lastWriter past with
  | none => s.flushMode
  | some c => niBit (s'.cpus c.1).fpscr

/-- A machine that differs from another in FPSCR and in the flush mode at most. -/
structure FpscrFrame (s s' : Machine Memory) : Prop where
  files : ∀ cpu, s'.cpus cpu = { s.cpus cpu with fpscr := (s'.cpus cpu).fpscr }
  rest : s' = { s with cpus := s'.cpus, flushMode := s'.flushMode }

theorem FpscrFrame.refl (s : Machine Memory) : FpscrFrame s s := ⟨fun _ => rfl, rfl⟩

theorem FpscrFrame.step {s u : Machine Memory} (h : FpscrFrame s u) (c : CpuPtr × FpscrCall) :
    FpscrFrame s (FpscrCall.step c u) := by
  by_cases hwrites : c.1 ≠ 0 ∧ c.2.Writes
  · constructor
    · intro cpu
      rw [FpscrCall.step_cpus hwrites.1 hwrites.2]
      by_cases hcpu : cpu = c.1
      · subst hcpu
        rw [Function.update_self, h.files c.1]
      · rw [Function.update_of_ne hcpu]
        exact h.files cpu
    · unfold FpscrCall.step
      rw [h.rest]
      split <;> rfl
  · rw [FpscrCall.step_skipped hwrites]
    exact h

/-- What a history of calls does to a machine. -/
structure FpscrLaw (runtime : PinnedRuntime) (past : List (CpuPtr × FpscrCall))
    (s s' : Machine Memory) : Prop where
  bits : ∀ cpu (i : Fin 32), (s'.cpus cpu).fpscr.getLsbD i =
    (Cells.last (past.map callFill) (cpu, i)).getD ((s.cpus cpu).fpscr.getLsbD i)
  summaries : ∀ cpu (i : Fin 32), Summary i →
    (s'.cpus cpu).fpscr.getLsbD i = (s.cpus cpu).fpscr.getLsbD i
  mode : s'.flushMode = modeAfter past s s'
  frame : FpscrFrame s s'
  restores : ∀ cpu, cpu ≠ 0 → ∃ saved u, ppcMffs runtime cpu s = .ret saved s ∧
    ppcMtfsf runtime cpu 0xFF#32 saved s' = .ret () u ∧
    (u.cpus cpu).fpscr = (s.cpus cpu).fpscr

theorem callFill_summary (c : CpuPtr × FpscrCall) (cpu : CpuPtr) {i : Fin 32} (hi : Summary i) :
    callFill c (cpu, i) = none := by
  unfold callFill
  split
  · cases c.2 <;> simp [FpscrCall.fill_mtfsf, FpscrCall.fill_mtfsb1, hi]
  · rfl

theorem lastWriter_cons {c : CpuPtr × FpscrCall} (h : c.1 ≠ 0 ∧ c.2.Writes)
    (past : List (CpuPtr × FpscrCall)) : lastWriter (c :: past) = some c :=
  List.find?_cons_of_pos (decide_eq_true h)

theorem lastWriter_skips {c : CpuPtr × FpscrCall} (h : ¬(c.1 ≠ 0 ∧ c.2.Writes))
    (past : List (CpuPtr × FpscrCall)) : lastWriter (c :: past) = lastWriter past :=
  List.find?_cons_of_neg (by simpa using h)

theorem modeAfter_run (past : List (CpuPtr × FpscrCall)) (s : Machine Memory) :
    (past.foldr FpscrCall.step s).flushMode = modeAfter past s (past.foldr FpscrCall.step s) := by
  induction past with
  | nil => rfl
  | cons c past ih =>
    unfold modeAfter at ih ⊢
    rw [List.foldr_cons]
    by_cases hwrites : c.1 ≠ 0 ∧ c.2.Writes
    · rw [lastWriter_cons hwrites]
      dsimp only
      rw [FpscrCall.step_cpus hwrites.1 hwrites.2, Function.update_self]
      unfold FpscrCall.step
      rw [if_neg (by simp [hwrites.1, hwrites.2])]
      rfl
    · rw [lastWriter_skips hwrites, FpscrCall.step_skipped hwrites]
      exact ih

/-- The saved word comes back whole: the summary bits are still what they were. -/
theorem mtfsf_restores {runtime : PinnedRuntime} (hr : runtime.AsNamed) {cpu : CpuPtr}
    (hcpu : cpu ≠ 0) {s s' : Machine Memory}
    (hsummaries : ∀ i, Summary i → (s'.cpus cpu).fpscr.getLsbD i =
      (s.cpus cpu).fpscr.getLsbD i) :
    ∃ saved u, ppcMffs runtime cpu s = .ret saved s ∧
      ppcMtfsf runtime cpu 0xFF#32 saved s' = .ret () u ∧
      (u.cpus cpu).fpscr = (s.cpus cpu).fpscr := by
  have hwrites : FpscrCall.Writes (.mtfsf 0xFF#32 ((s.cpus cpu).fpscr.setWidth 64)) := by
    simp [FpscrCall.Writes]
  refine ⟨(s.cpus cpu).fpscr.setWidth 64, _, by simp [ppcMffs, hcpu, hr.bitCastToDouble],
    FpscrCall.code_apply hr cpu (.mtfsf 0xFF#32 ((s.cpus cpu).fpscr.setWidth 64)) s', ?_⟩
  rw [FpscrCall.step_cpus hcpu hwrites, Function.update_self]
  apply BitVec.eq_of_getLsbD_eq
  intro i hi
  refine (FpscrCall.value_bit _ hwrites (s'.cpus cpu).fpscr ⟨i, hi⟩).trans ?_
  rw [FpscrCall.fill_mtfsf]
  by_cases hsummary : Summary ⟨i, hi⟩
  · simp only [hsummary, not_true, and_false, if_false, Option.getD_none]
    exact hsummaries ⟨i, hi⟩ hsummary
  · rw [if_pos ⟨allFields_bit ⟨i, hi⟩, hsummary⟩, Option.getD_some,
      BitVec.getLsbD_setWidth]
    have hwide : i < 64 := by omega
    simp [hwide]

/-- Any history of calls on any register files: each bit is that of the last call that covers it,
FEX and VX stay, the host follows the last call, and a word saved before comes back whole. -/
theorem fpscr_keeps_the_last_writes {runtime : PinnedRuntime} (hr : runtime.AsNamed)
    (past : List (CpuPtr × FpscrCall)) (s : Machine Memory) :
    ∃ s', fpscrRun runtime past s = .ret () s' ∧ FpscrLaw runtime past s s' := by
  have hbits := fpscr_steps.run past s
  have hsummaries : ∀ cpu i, Summary i →
      ((past.foldr FpscrCall.step s).cpus cpu).fpscr.getLsbD i = (s.cpus cpu).fpscr.getLsbD i := by
    intro cpu i hi
    have hnone : Cells.last (past.map callFill) (cpu, i) = none := by
      rw [Cells.last_eq_none]
      intro w hw
      obtain ⟨c, _, rfl⟩ := List.mem_map.mp hw
      exact callFill_summary c cpu hi
    have hbit := congrFun hbits (cpu, i)
    unfold Cells.Fill.on at hbit
    rw [hnone] at hbit
    exact hbit
  refine ⟨past.foldr FpscrCall.step s, fpscrRun_apply hr past s, ?_⟩
  constructor
  case bits => exact fun cpu i => congrFun hbits (cpu, i)
  case summaries => exact hsummaries
  case mode => exact modeAfter_run past s
  case frame =>
    clear hbits hsummaries
    induction past with
    | nil => exact .refl s
    | cons c past ih => exact ih.step c
  case restores => exact fun cpu hcpu => mtfsf_restores hr hcpu (hsummaries cpu)

/-- The law for a Wii that sets NI and then writes field 0 alone. -/
theorem ni_outlasts_field_zero : ∃ (mem : Memory) (s' : Machine Memory),
    fpscrRun plainRuntime [(1, .mtfsf 0x80#32 0x80000000#64), (1, .mtfsb1 29#32)]
      (bootMachine mem) =
      .ret () s' ∧
    FpscrLaw plainRuntime [(1, .mtfsf 0x80#32 0x80000000#64), (1, .mtfsb1 29#32)]
      (bootMachine mem) s' := by
  obtain ⟨mem, _⟩ : ∃ mem, wiiBoot = some mem :=
    Option.isSome_iff_exists.mp (by decide +kernel)
  exact ⟨mem, fpscr_keeps_the_last_writes plainRuntime_asNamed _ _⟩

-- A mask of no fields leaves FPSCR, and mtfsb1 leaves FEX and VX.
example : ¬FpscrCall.Writes (.mtfsf 0x100#32 0#64) ∧ ¬FpscrCall.Writes (.mtfsb1 33#32) := by
  decide

end wii_switch
