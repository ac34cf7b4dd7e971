-- The register contract of translated calls (include/abi_bridge.h,
-- source/switch_indirect_dispatch.cpp). A caller guards only the nonvolatile registers that its
-- callee writes itself. This is enough: in every tree of calls, direct, indirect and by jumps,
-- each call comes back with all nonvolatile floating-point registers of its caller.
import WiiSwitch.Dispatch
import WiiSwitch.Lib.Procedures

namespace wii_switch

open OS Routine

/-! ## What is kept -/

/-- The nonvolatile floating-point registers are as before, less those that are allowed to
change, and the tables are the same. -/
structure Kept (allowed : CpuPtr → Fin 32 → Prop) (s s' : Machine Memory) : Prop where
  fpr : ∀ c (i : Fin 32), 14 ≤ i.val → ¬ allowed c i → (s'.cpus c).fpr i = (s.cpus c).fpr i
  translated : s'.translated = s.translated
  dispatch : s'.dispatch = s.dispatch

/-- The registers of one register file in a mask. -/
def onlyOn (cpu : CpuPtr) (mask : Word) (c : CpuPtr) (i : Fin 32) : Prop :=
  c = cpu ∧ mask.getLsbD i = true

/-- All nonvolatile registers are as before. -/
abbrev KeptAll : Machine Memory → Machine Memory → Prop := Kept fun _ _ => False

/-- The masks of the tables cover what each function writes. -/
structure Machine.Covers (s : Machine Memory) (writes : Word → Word) : Prop where
  translated : ∀ t mask (i : Fin 32), s.translated t = some mask → 14 ≤ i.val →
    (writes t).getLsbD i = true → mask.getLsbD i = true
  dispatch : ∀ t record (i : Fin 32), s.dispatch t = some record → 14 ≤ i.val →
    (writes t).getLsbD i = true → record.nonvolatileFprWriteMask.getLsbD i = true

section

variable {allowed allowed' : CpuPtr → Fin 32 → Prop} {s s' s'' left : Machine Memory}
  {writes : Word → Word} {cpu : CpuPtr}

theorem Kept.refl (s : Machine Memory) : Kept allowed s s := ⟨fun _ _ _ _ => rfl, rfl, rfl⟩

theorem Kept.trans (h : Kept allowed s s') (h' : Kept allowed s' s'') : Kept allowed s s'' :=
  ⟨fun c i hi hn => (h'.fpr c i hi hn).trans (h.fpr c i hi hn), h'.translated.trans h.translated,
    h'.dispatch.trans h.dispatch⟩

theorem Kept.mono (h : Kept allowed s s') (hsub : ∀ c i, allowed c i → allowed' c i) :
    Kept allowed' s s' :=
  ⟨fun c i hi hn => h.fpr c i hi fun ha => hn (hsub c i ha), h.translated, h.dispatch⟩

theorem KeptAll.kept (h : KeptAll s s') : Kept allowed s s' := h.mono fun _ _ hn => hn.elim

theorem Kept.covers (h : Kept allowed s s') (hs : s.Covers writes) : s'.Covers writes := by
  constructor
  · rw [h.translated]
    exact hs.translated
  · rw [h.dispatch]
    exact hs.dispatch

/-- Behind the guard of a mask that covers the writes everything is kept. -/
theorem Kept.restored {w mask : Word} (h : Kept (onlyOn cpu w) s left)
    (hmask : ∀ i : Fin 32, 14 ≤ i.val → w.getLsbD i = true → mask.getLsbD i = true)
    (gprs : Bool) :
    KeptAll s (left.onCpu cpu (restoreNonvolatile ⟨gprs, mask⟩ (s.cpus cpu))) := by
  refine ⟨fun c i hi _ => ?_, h.translated, h.dispatch⟩
  unfold Machine.onCpu
  by_cases hc : c = cpu
  · subst hc
    simp only [Function.update_self, restoreNonvolatile, nonvolatile_mask mask i hi]
    split
    · rfl
    · rename_i hout
      apply h.fpr c i hi
      rintro ⟨_, hw⟩
      exact hout ⟨hi, hmask i hi hw⟩
  · simp only [Function.update_of_ne hc]
    exact h.fpr c i hi fun hin => hc hin.1

/-- The guard of the exact mask leaves the same machine as the guard of all registers. -/
theorem Kept.exact_guard {w mask : Word} (h : Kept (onlyOn cpu w) s left)
    (hmask : ∀ i : Fin 32, 14 ≤ i.val → w.getLsbD i = true → mask.getLsbD i = true)
    (gprs : Bool) :
    left.onCpu cpu (restoreNonvolatile ⟨gprs, mask⟩ (s.cpus cpu)) =
      left.onCpu cpu (restoreNonvolatile ⟨gprs, 0xFFFFC000#32⟩ (s.cpus cpu)) := by
  have hall : ∀ i : Fin 32, 14 ≤ i.val → (0xFFFFC000#32).getLsbD i = true := by decide
  have hfile : restoreNonvolatile ⟨gprs, mask⟩ (s.cpus cpu) (left.cpus cpu) =
      restoreNonvolatile ⟨gprs, 0xFFFFC000#32⟩ (s.cpus cpu) (left.cpus cpu) := by
    unfold restoreNonvolatile
    congr 1
    funext i
    by_cases hi : 14 ≤ i.val
    · rw [nonvolatile_mask mask i hi, nonvolatile_mask _ i hi, hall i hi]
      simp only [hi, and_self, if_true, true_and]
      split
      · rfl
      · rename_i hout
        apply h.fpr cpu i hi
        rintro ⟨_, hw⟩
        exact hout (hmask i hi hw)
    · rw [if_neg fun hin => hi hin.1, if_neg fun hin => hi hin.1]
  unfold Machine.onCpu
  rw [hfile]

end

/-! ## Functions that write their masks -/

/-- The contract of a call, before the guard: the callee writes the nonvolatile registers of
its own mask at most, and a switch of host stacks writes none. -/
def guarding (writes : Word → Word) : Coop.Contract (Machine Memory) Stop Away where
  rely
    | .guest target cpu => Kept (onlyOn cpu (writes target))
    | .jump target cpu => Kept (onlyOn cpu (writes target))
    | .host _ => KeptAll
  guar _ s := s.Covers writes
  stops _ _ := True

/-- The routine changes the allowed registers at most, when its calls keep the contract. -/
def MayWrite {α : Type} (writes : Word → Word)
    (allowed : CpuPtr → Fin 32 → Prop) (x : OS α) :
    Prop :=
  ∀ s, s.Covers writes → (x s).Meets (guarding writes) fun _ s' => Kept allowed s s'

section

variable {writes : Word → Word} {allowed : CpuPtr → Fin 32 → Prop} {α β : Type}

theorem mayWrite_pure (a : α) : MayWrite writes allowed (pure a : OS α) := fun s _ => .refl s

theorem mayWrite_modify {f : Machine Memory → Machine Memory} (h : ∀ s, Kept allowed s (f s)) :
    MayWrite writes allowed (Routine.modify f) := fun s _ => h s

theorem mayWrite_bind {x : OS α} {y : α → OS β} (hx : MayWrite writes allowed x)
    (hy : ∀ a, MayWrite writes allowed (y a)) : MayWrite writes allowed (x >>= y) := by
  intro s hs
  refine Coop.meets_bind.mpr ((hx s hs).mono ?_)
  intro a s' hs'
  exact (hy a s' (hs'.covers hs)).mono fun _ _ h => hs'.trans h

/-- Instructions that change registers of the mask. -/
theorem mayWrite_onCpu {cpu : CpuPtr} {mask : Word} {f : CpuContext → CpuContext}
    (h : ∀ c (i : Fin 32), 14 ≤ i.val → mask.getLsbD i = false → (f c).fpr i = c.fpr i) :
    MayWrite writes (onlyOn cpu mask) (onCpu cpu f) := by
  refine mayWrite_modify fun s => ⟨fun c i hi hn => ?_, rfl, rfl⟩
  unfold Machine.onCpu
  by_cases hc : c = cpu
  · subst hc
    simp only [Function.update_self]
    exact h _ i hi (Bool.eq_false_iff.mpr fun hin => hn ⟨rfl, hin⟩)
  · simp only [Function.update_of_ne hc]

/-- A direct call keeps all nonvolatile registers. -/
theorem invokeTranslatedCpu_keeps (target : Word) (cpu : CpuPtr) (s : Machine Memory)
    (hs : s.Covers writes) :
    (invokeTranslatedCpu target cpu s).Meets (guarding writes) fun _ s' => KeptAll s s' := by
  unfold invokeTranslatedCpu
  rw [bind_of (Routine.gets_apply _ s)]
  cases hmask : s.translated target with
  | none => trivial
  | some mask =>
    refine ⟨hs, fun left hleft => ?_⟩
    exact Kept.restored hleft (fun i hi hw => hs.translated target mask i hmask hi hw) false

theorem tryDispatchIndirect_keeps {away : Word → CpuPtr → Away}
    (haway : away = .guest ∨ away = .jump) (target : Word) (cpu : CpuPtr) (s : Machine Memory)
    (hs : s.Covers writes) : (tryDispatchIndirect away target cpu s).Meets (guarding writes)
      fun _ s' => KeptAll s s' := by
  unfold tryDispatchIndirect
  rw [Routine.ite_apply]
  split
  · exact .refl s
  rw [bind_of (Routine.gets_apply _ s)]
  cases hrecord : s.dispatch target with
  | none => exact .refl s
  | some record =>
    have hmask := fun i hi hw => hs.dispatch target record i hrecord hi hw
    refine ⟨hs, fun left hleft => ?_⟩
    rcases haway with rfl | rfl
    · exact Kept.restored hleft hmask record.preserveNonvolatileGprs
    · exact Kept.restored hleft hmask record.preserveNonvolatileGprs

/-- And so do an indirect call and an indirect jump, found or not. -/
theorem invokeIndirectCpu_keeps (target : Word) (cpu : CpuPtr) (s : Machine Memory)
    (hs : s.Covers writes) :
    (invokeIndirectCpu target cpu s).Meets (guarding writes) fun _ s' => KeptAll s s' := by
  refine Coop.meets_bind.mpr ((tryDispatchIndirect_keeps (Or.inl rfl) target cpu s hs).mono ?_)
  intro found s' hs'
  cases found with
  | true => exact hs'
  | false => trivial

theorem invokeIndirectJump_keeps (target : Word) (cpu : CpuPtr) (s : Machine Memory)
    (hs : s.Covers writes) :
    (invokeIndirectJump target cpu s).Meets (guarding writes) fun _ s' => KeptAll s s' := by
  refine Coop.meets_bind.mpr ((tryDispatchIndirect_keeps (Or.inr rfl) target cpu s hs).mono ?_)
  intro found s' hs'
  cases found with
  | true => exact hs'
  | false => trivial

theorem mayWrite_invokeTranslatedCpu (target : Word) (cpu : CpuPtr) :
    MayWrite writes allowed (invokeTranslatedCpu target cpu) := fun s hs =>
  (invokeTranslatedCpu_keeps target cpu s hs).mono fun _ _ h => h.kept

end

/-! ## Programs -/

/-- A program of guest functions. Each writes the nonvolatile registers of its own mask at
most, outside the calls that it makes; its callees count with their own masks. -/
structure WritesItsMasks (writes : Word → Word) (body : Away → OS Unit) : Prop where
  guest : ∀ t c, MayWrite writes (onlyOn c (writes t)) (body (.guest t c))
  jump : ∀ t c, MayWrite writes (onlyOn c (writes t)) (body (.jump t c))
  host : ∀ h, MayWrite writes (fun _ _ => False) (body (.host h))

section

variable {writes : Word → Word} {body : Away → OS Unit} {s s' : Machine Memory}

theorem WritesItsMasks.meets (h : WritesItsMasks writes body) (i : Away) (s : Machine Memory)
    (hs : (guarding writes).guar i s) :
    (body i s).Meets (guarding writes) fun _ s' => (guarding writes).rely i s s' := by
  cases i with
  | guest t c => exact h.guest t c s hs
  | jump t c => exact h.jump t c s hs
  | host x => exact h.host x s hs

/-- What the function leaves behind, before the guard of its caller. -/
theorem WritesItsMasks.leaves (h : WritesItsMasks writes body) (hs : s.Covers writes) {i : Away}
    {target : Word} {cpu : CpuPtr} (hi : i = .guest target cpu ∨ i = .jump target cpu)
    {left : Machine Memory} (hrun : Coop.Completes body (body i s) () left) :
    Kept (onlyOn cpu (writes target)) s left := by
  refine hrun.meets (Q := fun _ left => Kept (onlyOn cpu (writes target)) s left) h.meets ?_
  rcases hi with rfl | rfl
  · exact h.guest target cpu s hs
  · exact h.jump target cpu s hs

/-- In every run of a program whose tables cover what its functions write themselves, each
call comes back with all nonvolatile floating-point registers, however deep the calls below it
go. The guard of the exact mask, of a direct call and of a record for calls and jumps, leaves the
machine that the guard of all registers would. -/
theorem calls_keep_the_nonvolatile_registers (h : WritesItsMasks writes body)
    (hs : s.Covers writes) (target : Word) (cpu : CpuPtr) :
    (Coop.Completes body (invokeTranslatedCpu target cpu s) () s' → KeptAll s s') ∧
    (Coop.Completes body (invokeIndirectCpu target cpu s) () s' → KeptAll s s') ∧
    (Coop.Completes body (invokeIndirectJump target cpu s) () s' → KeptAll s s') ∧
    (∀ mask left, s.translated target = some mask →
      Coop.Completes body (body (.guest target cpu) s) () left →
      left.onCpu cpu (restoreNonvolatile ⟨false, mask⟩ (s.cpus cpu)) =
        left.onCpu cpu (restoreNonvolatile ⟨false, 0xFFFFC000#32⟩ (s.cpus cpu))) ∧
    ∀ i record left, i = .guest target cpu ∨ i = .jump target cpu →
      s.dispatch target = some record → Coop.Completes body (body i s) () left →
      left.onCpu cpu (restoreNonvolatile record (s.cpus cpu)) =
        left.onCpu cpu (restoreNonvolatile
          { record with nonvolatileFprWriteMask := 0xFFFFC000#32 } (s.cpus cpu)) := by
  refine ⟨fun hrun => ?_, fun hrun => ?_, fun hrun => ?_, fun mask left hmask hrun => ?_,
    fun i record left hi hrecord hrun => ?_⟩
  · exact hrun.meets (Q := fun _ s' => KeptAll s s') h.meets
      (invokeTranslatedCpu_keeps target cpu s hs)
  · exact hrun.meets (Q := fun _ s' => KeptAll s s') h.meets
      (invokeIndirectCpu_keeps target cpu s hs)
  · exact hrun.meets (Q := fun _ s' => KeptAll s s') h.meets
      (invokeIndirectJump_keeps target cpu s hs)
  · have hleft := h.leaves hs (Or.inl rfl) hrun
    exact hleft.exact_guard (fun i hi hw => hs.translated target mask i hmask hi hw) false
  · have hleft := h.leaves hs hi hrun
    exact hleft.exact_guard (fun i hi hw => hs.dispatch target record i hrecord hi hw)
      record.preserveNonvolatileGprs

end

/-! ## A call in a call -/

def CpuContext.setFpr (i : Fin 32) (x : PairedSingle) (c : CpuContext) : CpuContext :=
  { c with fpr := Function.update c.fpr i x }

/-- Each of the two functions writes one nonvolatile register. -/
def nestedWrites (t : Word) : Word :=
  if t = 0x80001000#32 then 0x8000#32 else if t = 0x80002000#32 then 0x4000#32 else 0#32

/-- The first function changes f15 and calls the second, which changes f14. -/
def nestedFunction (t : Word) (cpu : CpuPtr) : OS Unit :=
  if t = 0x80001000#32 then do
    onCpu cpu (CpuContext.setFpr 15 ⟨1, 1⟩)
    invokeTranslatedCpu 0x80002000#32 cpu
  else if t = 0x80002000#32 then onCpu cpu (CpuContext.setFpr 14 ⟨1, 1⟩)
  else pure ()

def nestedBody : Away → OS Unit
  | .guest t cpu => nestedFunction t cpu
  | .jump t cpu => nestedFunction t cpu
  | .host _ => pure ()

def nestedMachine : Machine Memory :=
  { bareMachine with
    translated := fun t =>
      if t = 0x80001000#32 then some 0x8000#32 else if t = 0x80002000#32 then some 0x4000#32
      else none }

theorem setFpr_outside {mask : Word} {i : Fin 32} (h : mask.getLsbD i = true) (x : PairedSingle)
    (c : CpuContext) (j : Fin 32) (hj : mask.getLsbD j = false) :
    (CpuContext.setFpr i x c).fpr j = c.fpr j := by
  unfold CpuContext.setFpr
  apply Function.update_of_ne
  rintro rfl
  rw [h] at hj
  cases hj

theorem nestedFunction_writes (t : Word) (cpu : CpuPtr) :
    MayWrite nestedWrites (onlyOn cpu (nestedWrites t)) (nestedFunction t cpu) := by
  unfold nestedFunction
  split
  · rename_i ht
    have hwrites : nestedWrites t = 0x8000#32 := if_pos ht
    rw [hwrites]
    apply mayWrite_bind
    · exact mayWrite_onCpu fun c i _ hi => setFpr_outside (by decide) _ c i hi
    · exact fun _ => mayWrite_invokeTranslatedCpu _ _
  · rename_i hne
    split
    · rename_i ht
      have hwrites : nestedWrites t = 0x4000#32 := (if_neg hne).trans (if_pos ht)
      rw [hwrites]
      exact mayWrite_onCpu fun c i _ hi => setFpr_outside (by decide) _ c i hi
    · exact mayWrite_pure ()

theorem nestedBody_honest : WritesItsMasks nestedWrites nestedBody :=
  ⟨nestedFunction_writes, nestedFunction_writes, fun _ => mayWrite_pure ()⟩

theorem nestedMachine_covers : nestedMachine.Covers nestedWrites := by
  constructor
  · intro t mask i hmask _ hw
    unfold nestedWrites at hw
    simp only [nestedMachine] at hmask
    split at hmask
    · rename_i ht
      rw [if_pos ht] at hw
      obtain rfl := Option.some.inj hmask
      exact hw
    · rename_i hne
      rw [if_neg hne] at hw
      split at hmask
      · rename_i ht
        rw [if_pos ht] at hw
        obtain rfl := Option.some.inj hmask
        exact hw
      · cases hmask
  · intro t record i hrecord
    cases hrecord

/-- The law at these functions: f14 and f15 are both kept. -/
theorem a_call_in_a_call_keeps_f14 : ∃ s',
    Coop.Completes nestedBody (invokeTranslatedCpu 0x80001000#32 1 nestedMachine) () s' ∧
      KeptAll nestedMachine s' := by
  have hrun : ∃ s', Coop.Completes nestedBody
      (invokeTranslatedCpu 0x80001000#32 1 nestedMachine) () s' :=
    ⟨_, .call (.call (.ret () _) (.ret () _)) (.ret () _)⟩
  obtain ⟨s', hrun⟩ := hrun
  exact ⟨s', hrun, (calls_keep_the_nonvolatile_registers nestedBody_honest nestedMachine_covers
    0x80001000#32 1).1 hrun⟩

end wii_switch
