-- How a created thread starts. Its fiber starts from the registers that `create` seeds and
-- from four words of the OSContext, OSLoadContext from the OSContext alone. The context
-- of a video decoder thread has quantization registers that the seed does not have, and the
-- guard of the stack may lie over the context.
import WiiSwitch.CreatedContext
import WiiSwitch.HostStacks

namespace wii_switch

open OS Routine CreateThread

/-! ## The context of a thread -/

/-- A word of the context of a thread. -/
def contextWord (m : Memory) (t off : Word) : Word := (m.read32 (t + off)).getD 0#32

/-- The registers that the context of a thread has for its start, apart from r0. -/
def contextStart (m : Memory) (t : Word) : CpuContext :=
  { CpuContext.zero with
    gpr := fun i => if i = 0 then 0#32 else contextWord m t (BitVec.ofNat 32 (4 * i))
    gqr := fun i =>
      if i = 0 then 0#32 else contextWord m t (kContextGqrOffset + BitVec.ofNat 32 (4 * i))
    cr := contextWord m t kContextCrOffset
    lr := contextWord m t kContextLrOffset
    xer := contextWord m t kContextXerOffset
    srr0 := contextWord m t kContextSrr0Offset
    pc := contextWord m t kContextSrr0Offset }

/-- Two register files start a thread alike. -/
structure SameStart (x y : CpuContext) : Prop where
  gpr : ∀ i : Fin 32, i ≠ 0 → x.gpr i = y.gpr i
  gqr : ∀ i : Fin 8, x.gqr i = y.gqr i
  cr : x.cr = y.cr
  lr : x.lr = y.lr
  xer : x.xer = y.xer
  srr0 : x.srr0 = y.srr0
  pc : x.pc = y.pc

theorem SameStart.symm {x y : CpuContext} (h : SameStart x y) : SameStart y x :=
  ⟨fun i hi => (h.gpr i hi).symm, fun i => (h.gqr i).symm, h.cr.symm, h.lr.symm, h.xer.symm,
    h.srr0.symm, h.pc.symm⟩

theorem SameStart.trans {x y z : CpuContext} (h : SameStart x y) (h' : SameStart y z) :
    SameStart x z :=
  ⟨fun i hi => (h.gpr i hi).trans (h'.gpr i hi), fun i => (h.gqr i).trans (h'.gqr i),
    h.cr.trans h'.cr, h.lr.trans h'.lr, h.xer.trans h'.xer, h.srr0.trans h'.srr0,
    h.pc.trans h'.pc⟩

/-- The registers that the switch takes for the thread, and its fiber does not load, are those
of the context; so are the argument and the entry of the fiber. -/
structure StartsFrom (a : Arguments) (word : StartWord → Word) (taken : CpuContext) : Prop where
  arg : word .arg = a.entryArg
  entry : word .entry = a.entryFunc
  cr : taken.cr = word .cr
  xer : taken.xer = word .xer
  gpr : ∀ i, (StartWord.gpr i).Counts → taken.gpr i = word (.gpr i)
  gqr : ∀ i, taken.gqr i = if i = 0 then 0#32 else word (.gqr i)

theorem startsFrom_congr {a : Arguments} {word word' : StartWord → Word} {taken : CpuContext}
    (heq : ∀ w : StartWord, w.Counts → word w = word' w) :
    StartsFrom a word taken ↔ StartsFrom a word' taken := by
  have hgqr : ∀ i : Fin 8, (if i = 0 then 0#32 else word (.gqr i)) =
      if i = 0 then 0#32 else word' (.gqr i) := by
    intro i
    by_cases hi : i = 0
    · rw [if_pos hi, if_pos hi]
    · rw [if_neg hi, if_neg hi, heq (.gqr i) hi]
  constructor
  · intro h
    exact ⟨heq .arg trivial ▸ h.arg, heq .entry trivial ▸ h.entry, heq .cr trivial ▸ h.cr,
      heq .xer trivial ▸ h.xer, fun i hi => heq (.gpr i) hi ▸ h.gpr i hi,
      fun i => (h.gqr i).trans (hgqr i)⟩
  · intro h
    exact ⟨(heq .arg trivial).trans h.arg, (heq .entry trivial).trans h.entry,
      h.cr.trans (heq .cr trivial).symm, h.xer.trans (heq .xer trivial).symm,
      fun i hi => (h.gpr i hi).trans (heq (.gpr i) hi).symm,
      fun i => (h.gqr i).trans (hgqr i).symm⟩

/-- Contexts with the same registers have the same words. -/
theorem contextWord_kept {m m' : Memory} {t : Word} (h : contextStart m t = contextStart m' t)
    {w : StartWord} (hw : w.Counts) : contextWord m t w.offset = contextWord m' t w.offset := by
  cases w with
  | arg => exact congrFun (congrArg CpuContext.gpr h) 3
  | entry => exact congrArg CpuContext.srr0 h
  | cr => exact congrArg CpuContext.cr h
  | xer => exact congrArg CpuContext.xer h
  | gpr i =>
    have hne : ∀ i : Fin 32, i ∉ ([0, 1, 2, 3, 13] : List (Fin 32)) → i ≠ 0 := by decide
    have heq := congrFun (congrArg CpuContext.gpr h) i
    simp only [contextStart, if_neg (hne i hw)] at heq
    exact heq
  | gqr i =>
    have hne : i ≠ 0 := hw
    have heq := congrFun (congrArg CpuContext.gqr h) i
    simp only [contextStart, if_neg hne] at heq
    exact heq

/-- With the seeded registers the entry is no video decoder, and the guard has left the words. -/
theorem startsFrom_seeded {config : List RegionConfig} {a : Arguments} {top hid2 : Word} :
    StartsFrom a (guarded config a) (seededCpu a.entryFunc a.entryArg top hid2) ↔
      isThpVideoDecoderEntry a.entryFunc = false ∧
        ∀ w : StartWord, w.Counts → guarded config a w = w.value a := by
  have hseeded : ∀ i, (StartWord.gpr i).Counts →
      (seededCpu a.entryFunc a.entryArg top hid2).gpr i = 0#32 := by
    intro i hi
    simp only [StartWord.Counts, List.mem_cons, List.not_mem_nil, or_false, not_or] at hi
    simp [seededCpu, CpuContext.setGpr, CpuContext.zero, hi]
  constructor
  · intro h
    have hgqr : ∀ i : Fin 8, i ≠ 0 → guarded config a (.gqr i) = 0#32 := by
      intro i hi
      have heq := h.gqr i
      rw [if_neg hi] at heq
      exact heq.symm
    have hthp : isThpVideoDecoderEntry a.entryFunc = false := by
      rw [Bool.eq_false_iff]
      exact fun hthp => guarded_thp hthp (hgqr 2 (by decide))
    refine ⟨hthp, fun w hw => ?_⟩
    cases w with
    | arg => exact h.arg
    | entry => exact h.entry
    | cr => exact h.cr.symm
    | xer => exact h.xer.symm
    | gpr i => exact (h.gpr i hw).symm.trans (hseeded i hw)
    | gqr i =>
      rw [hgqr i hw]
      simp [StartWord.value, startGqr, hthp]
  · rintro ⟨hthp, hvalue⟩
    refine ⟨hvalue .arg trivial, hvalue .entry trivial, (hvalue .cr trivial).symm,
      (hvalue .xer trivial).symm, fun i hi => ?_, fun i => ?_⟩
    · exact (hseeded i hi).trans (hvalue (.gpr i) hi).symm
    · by_cases hi : i = 0
      · rw [if_pos hi]
        rfl
      · rw [if_neg hi, hvalue (.gqr i) hi]
        simp [StartWord.value, startGqr, hthp, seededCpu, CpuContext.setGpr, CpuContext.zero]

/-! ## OSLoadContext -/

section Load

variable {config : List RegionConfig} {t : Word}

/-- One register more from a list. -/
theorem update_from_list {n : Nat} (w g : Fin n → Word) (i : Fin n) (rest : List (Fin n)) :
    (fun j => if j ∈ rest then w j else Function.update g i (w i) j) =
      fun j => if j ∈ i :: rest then w j else g j := by
  funext j
  by_cases hj : j ∈ rest
  · rw [if_pos hj, if_pos (List.mem_cons_of_mem _ hj)]
  · rw [if_neg hj]
    by_cases hji : j = i
    · rw [hji, Function.update_self, if_pos List.mem_cons_self]
    · rw [Function.update_of_ne hji, if_neg (List.not_mem_cons_of_ne_of_not_mem hji hj)]

/-- The registers of the list come from the words of the context. -/
theorem loadGprs_runs (cpu : CpuPtr) {w : Fin 32 → Word} {is : List (Fin 32)} {s : Machine Memory}
    (h : ∀ i ∈ is, s.mem.read32 (t + BitVec.ofNat 32 (4 * i)) = some (w i)) :
    loadGprs cpu t is s =
      .ret ()
        (s.onCpu cpu fun c => { c with gpr := fun i => if i ∈ is then w i else c.gpr i }) := by
  induction is generalizing s with
  | nil => simp [loadGprs, Machine.onCpu]
  | cons i rest ih =>
    rw [loadGprs, bind_of (read32_ret (h i List.mem_cons_self)), bind_of (setGpr_apply ..), ih]
    · unfold Machine.setGpr CpuContext.setGpr
      rw [onCpu_onCpu]
      simp only [update_from_list]
    · exact fun j hj => h j (List.mem_cons_of_mem _ hj)

/-- The same for the quantization registers. -/
theorem loadGqrs_runs (cpu : CpuPtr) {w : Fin 8 → Word} (is : List (Fin 8)) {s : Machine Memory}
    (h : ∀ i ∈ is,
      s.mem.read32 (t + kContextGqrOffset + BitVec.ofNat 32 (4 * i)) = some (w i)) :
    loadGqrs cpu t is s =
      .ret ()
        (s.onCpu cpu fun c => { c with gqr := fun i => if i ∈ is then w i else c.gqr i }) := by
  induction is generalizing s with
  | nil => simp [loadGqrs, Machine.onCpu]
  | cons i rest ih =>
    rw [loadGqrs, bind_of (read32_ret (h i List.mem_cons_self)), setGqr, bind_of (onCpu_apply ..),
      ih]
    · rw [onCpu_onCpu]
      simp only [update_from_list]
    · exact fun j hj => h j (List.mem_cons_of_mem _ hj)

theorem read32_onCpu {s : Machine Memory} {cpu : CpuPtr} {w x : Word}
    {f : CpuContext → CpuContext} (h : s.mem.read32 w = some x) :
    read32 w (s.onCpu cpu f) = .ret x (s.onCpu cpu f) := read32_ret (s := s.onCpu cpu f) h

theorem clearExceptionBit_runs {s : Machine Memory} (hs : Serves config s.mem)
    (hin : MemRange.Mapped config (t + kContextModeFlagsOffset, 2)) :
    ∃ m, clearExceptionBit t s = .ret () (s.withMem m) ∧ Serves config m := by
  have hstores : StoresIn config {(t + kContextModeFlagsOffset, 2)} (clearExceptionBit t) :=
    storesIn_bind (storesIn_read16 hin) fun _ =>
      storesIn_onlyIf fun _ => storesIn_write16 hin (Set.mem_singleton _) _
  obtain ⟨_, m, hrun, hm⟩ := hstores s hs
  exact ⟨m, hrun, hm.serves⟩

/-- A dispatched target gets the machine as it stands. -/
theorem tryDispatchIndirect_call {s : Machine Memory} {cpu : CpuPtr} {target : Word}
    {record : RawDispatchRecord} (away : Word → CpuPtr → Away) (hcpu : cpu ≠ 0)
    (hd : s.dispatch target = some record) :
    ∃ k, tryDispatchIndirect away target cpu s = .call (away target cpu) s k := by
  unfold tryDispatchIndirect
  simp only [bind_apply, Routine.ite_apply, if_neg hcpu, gets_apply, Coop.bind_ret, hd]
  exact ⟨_, rfl⟩

/-- No other target gets it. -/
theorem tryDispatchIndirect_none {s : Machine Memory} {cpu : CpuPtr} {target : Word}
    (away : Word → CpuPtr → Away) (hcpu : cpu ≠ 0) (hd : s.dispatch target = none) :
    tryDispatchIndirect away target cpu s = .ret false s := by
  unfold tryDispatchIndirect
  simp only [bind_apply, Routine.ite_apply, if_neg hcpu, gets_apply, Coop.bind_ret, hd]
  rfl

end Load

section LoadThread

variable {config : List RegionConfig} {s : Machine Memory} {t : Word}

/-- The words of a mapped context can be read. -/
theorem contextWord_read (hs : Serves config s.mem) (hblock : (threadRange t).Mapped config)
    {off : Word} (hoff : off.toNat + 4 ≤ kThreadSize) :
    s.mem.read32 (t + off) = some (contextWord s.mem t off) := by
  obtain ⟨x, hx⟩ := hs.read32_some
    ((part_inside hs.admissible hblock (by decide) hoff).mapped hblock)
  unfold contextWord
  rw [hx, Option.getD_some]

/-- The load of the context. -/
theorem loadContextRegisters_runs (cpu : CpuPtr) (hs : Serves config s.mem)
    (hblock : (threadRange t).Mapped config) :
    ∃ s', loadContextRegisters cpu t (contextStart s.mem t).srr0 s = .ret () s' ∧
      s'.dispatch = s.dispatch ∧ SameStart (s'.cpus cpu) (contextStart s.mem t) := by
  have hc := hs.admissible
  have hword : ∀ off : Word, off.toNat + 4 ≤ kThreadSize →
      s.mem.read32 (t + off) = some (contextWord s.mem t off) :=
    fun off hoff => contextWord_read hs hblock hoff
  have hflags : MemRange.Mapped config (t + kContextModeFlagsOffset, 2) :=
    (part_inside hc hblock (by decide) (by decide)).mapped hblock
  have hgprs : ∀ i ∈ List.finRange 32, s.mem.read32 (t + BitVec.ofNat 32 (4 * i)) =
      some (contextWord s.mem t (BitVec.ofNat 32 (4 * i))) := by
    have hin : ∀ i : Fin 32, (BitVec.ofNat 32 (4 * i)).toNat + 4 ≤ kThreadSize := by decide
    exact fun i _ => hword _ (hin i)
  have hgqr : ∀ i : Fin 8,
      s.mem.read32 (t + kContextGqrOffset + BitVec.ofNat 32 (4 * i)) =
        some (contextWord s.mem t (kContextGqrOffset + BitVec.ofNat 32 (4 * i))) := by
    have hin : ∀ i : Fin 8,
        (kContextGqrOffset + BitVec.ofNat 32 (4 * i)).toNat + 4 ≤ kThreadSize := by decide
    intro i
    rw [BitVec.add_assoc]
    exact hword _ (hin i)
  have hgqrs := fun f => loadGqrs_runs cpu [1, 2, 3, 4, 5, 6, 7] (s := s.onCpu cpu f)
    fun i _ => hgqr i
  have hsrr : MemRange.Mapped config (t + kContextSrr1Offset, 4) :=
    (part_inside hc hblock (by decide) (by decide)).mapped hblock
  unfold loadContextRegisters setGqr
  rw [bind_of (loadGprs_runs cpu hgprs),
    bind_of (read32_onCpu (hword kContextCrOffset (by decide))),
    bind_of (read32_onCpu (hword kContextLrOffset (by decide))),
    bind_of (read32_onCpu (hword kContextCtrOffset (by decide))),
    bind_of (read32_onCpu (hword kContextXerOffset (by decide))), bind_of (onCpu_apply ..),
    bind_of (onCpu_apply ..), onCpu_onCpu, onCpu_onCpu, bind_of (hgqrs _), onCpu_onCpu]
  obtain ⟨m, hclear, hm⟩ := clearExceptionBit_runs (s := s.onCpu cpu _) hs hflags
  obtain ⟨srr1, hsrr1⟩ := hm.read32_some hsrr
  rw [bind_of hclear, bind_of (read32_ret hsrr1), onCpu_apply]
  refine ⟨_, rfl, rfl, ?_⟩
  simp only [onCpu_cpus, Machine.withMem_cpus, Function.update_self]
  refine ⟨fun i hi => ?_, fun i => ?_, rfl, rfl, rfl, rfl, rfl⟩
  · simp [contextStart, hi]
  · by_cases hi : i ∈ ([1, 2, 3, 4, 5, 6, 7] : List (Fin 8))
    · have hne : i ≠ 0 := by
        rintro rfl
        exact absurd hi (by decide)
      simp only [if_pos hi, contextStart, if_neg hne]
    · have hzero : i = 0 := by
        revert i
        decide
      rw [hzero]
      rfl

/-- OSLoadContext goes to the entry that the context has, or nowhere. -/
theorem osLoadContext_jumps {ctx : CpuPtr} (hs : Serves config s.mem)
    (hblock : (threadRange t).Mapped config) (ht : t ≠ 0#32) (hr3 : s.gpr (cpuOf ctx) 3 = t)
    {entry : Word} {cpu : CpuPtr} {s' : Machine Memory}
    {k : Machine Memory → Coop (Machine Memory) Stop Away Unit}
    (hcall : osLoadContext ctx s = .call (.jump entry cpu) s' k) :
    entry = (contextStart s.mem t).srr0 := by
  have hsrr0 : s.mem.read32 (t + kContextSrr0Offset) = some (contextStart s.mem t).srr0 :=
    contextWord_read hs hblock (by decide)
  obtain ⟨s₁, hload, _, _⟩ := loadContextRegisters_runs (cpuOf ctx) hs hblock
  unfold osLoadContext at hcall
  rw [bind_of (getGpr_apply ..), hr3, Routine.ite_apply, if_neg ht, bind_of (read32_ret hsrr0),
    Routine.ite_apply] at hcall
  split at hcall
  · cases hcall
  rw [bind_of hload, bind_apply, invokeIndirectJump, bind_apply] at hcall
  cases hd : s₁.dispatch (contextStart s.mem t).srr0 with
  | none =>
    rw [tryDispatchIndirect_none .jump (cpuOf_ne_zero ctx) hd] at hcall
    cases hcall
  | some record =>
    obtain ⟨k', hjump⟩ := tryDispatchIndirect_call .jump (cpuOf_ne_zero ctx) hd
    rw [hjump] at hcall
    cases hcall
    rfl

/-- OSLoadContext enters a thread with the registers of its context. -/
theorem osLoadContext_enters {ctx : CpuPtr} {record : RawDispatchRecord}
    (hs : Serves config s.mem) (hblock : (threadRange t).Mapped config) (ht : t ≠ 0#32)
    (he : (contextStart s.mem t).srr0 ≠ 0#32) (hr3 : s.gpr (cpuOf ctx) 3 = t)
    (hd : s.dispatch (contextStart s.mem t).srr0 = some record) :
    ∃ s' k, osLoadContext ctx s =
        .call (.jump (contextStart s.mem t).srr0 (cpuOf ctx)) s' k ∧
      SameStart (s'.cpus (cpuOf ctx)) (contextStart s.mem t) := by
  obtain ⟨s', hload, hd', hfrom⟩ := loadContextRegisters_runs (cpuOf ctx) hs hblock
  obtain ⟨k, hjump⟩ := tryDispatchIndirect_call .jump (cpuOf_ne_zero ctx)
    ((congrFun hd' _).trans hd)
  have hsrr0 : s.mem.read32 (t + kContextSrr0Offset) = some (contextStart s.mem t).srr0 :=
    contextWord_read hs hblock (by decide)
  unfold osLoadContext
  rw [bind_of (getGpr_apply ..), hr3, Routine.ite_apply, if_neg ht, bind_of (read32_ret hsrr0),
    Routine.ite_apply, if_neg he, bind_of hload, bind_apply, invokeIndirectJump, bind_apply, hjump]
  exact ⟨s', _, rfl, hfrom⟩

end LoadThread

/-! ## GuestFiberEntry -/

section Fiber

variable {config : List RegionConfig} {s : Machine Memory} {a : Arguments}

/-- GuestFiberEntry with the words of a context makes the rest. -/
theorem sameStart_enter {record : GuestFiberRecord} {m : Memory} {x : CpuContext}
    (hentry : record.entryPoint = a.entryFunc) (harg : record.entryArg = a.entryArg) :
    SameStart (record.enter (contextWord m a.threadPtr kContextR1Offset)
        (contextWord m a.threadPtr kContextR2Offset) (contextWord m a.threadPtr kContextR13Offset)
        (contextWord m a.threadPtr kContextLrOffset) x) (contextStart m a.threadPtr) ↔
      StartsFrom a (fun w => contextWord m a.threadPtr w.offset) x := by
  have hother : ∀ r1 r2 r13 lr, ∀ i : Fin 32, i ∉ ([0, 1, 2, 3, 13] : List (Fin 32)) →
      (record.enter r1 r2 r13 lr x).gpr i = x.gpr i := by
    intro r1 r2 r13 lr i hi
    simp only [List.mem_cons, List.not_mem_nil, or_false, not_or] at hi
    simp [GuestFiberRecord.enter, CpuContext.setGpr, hi]
  have hne : ∀ i : Fin 32, i ∉ ([0, 1, 2, 3, 13] : List (Fin 32)) → i ≠ 0 := by decide
  constructor
  · intro h
    refine ⟨(h.gpr 3 (by decide)).symm.trans harg, h.srr0.symm.trans hentry, h.cr, h.xer,
      fun i hi => ?_, h.gqr⟩
    have heq := h.gpr i (hne i hi)
    rw [hother _ _ _ _ i hi] at heq
    simp only [contextStart, if_neg (hne i hi)] at heq
    exact heq
  · intro h
    refine ⟨fun i hi => ?_, h.gqr, h.cr, rfl, h.xer, hentry.trans h.entry.symm,
      hentry.trans h.entry.symm⟩
    by_cases hmem : i ∈ ([0, 1, 2, 3, 13] : List (Fin 32))
    · simp only [List.mem_cons, List.not_mem_nil, or_false] at hmem
      rcases hmem with rfl | rfl | rfl | rfl | rfl
      · exact absurd rfl hi
      · rfl
      · rfl
      · exact harg.trans h.arg.symm
      · rfl
    · rw [hother _ _ _ _ i hmem]
      simp only [contextStart, if_neg hi]
      exact h.gpr i hmem

/-- GuestFiberEntry enters a thread with the registers that the switch has loaded, and the words
of the context over them. -/
theorem guestFiberEntry_enters {i : Fin 64} {record : RawDispatchRecord} {r1 r2 r13 lr : Word}
    (hr1 : s.mem.read32 (a.threadPtr + kContextR1Offset) = some r1)
    (hr2 : s.mem.read32 (a.threadPtr + kContextR2Offset) = some r2)
    (hr13 : s.mem.read32 (a.threadPtr + kContextR13Offset) = some r13)
    (hlr : s.mem.read32 (a.threadPtr + kContextLrOffset) = some lr)
    (hfind : s.fibers.find a.threadPtr = some i)
    (hentry : (s.fibers.records i).entryPoint = a.entryFunc)
    (hd : s.dispatch a.entryFunc = some record) :
    ∃ s' k, guestFiberEntry a.threadPtr s =
        .call (.guest a.entryFunc (cpuOf s.fibers.activeCpu)) s' k ∧
      s'.cpus (cpuOf s.fibers.activeCpu) =
        (s.fibers.records i).enter r1 r2 r13 lr (s.cpus (cpuOf s.fibers.activeCpu)) := by
  obtain ⟨k, hcall⟩ := tryDispatchIndirect_call (s := s.onCpu (cpuOf s.fibers.activeCpu)
    ((s.fibers.records i).enter r1 r2 r13 lr)) .guest (cpuOf_ne_zero s.fibers.activeCpu) hd
  unfold guestFiberEntry
  rw [bind_of (getFibers_apply s)]
  simp only [hfind, bind_apply, setGpr_apply, Machine.setGpr, onCpu_apply, Coop.bind_ret,
    onCpu_onCpu, read32_ret hr1, read32_onCpu hr2, read32_onCpu hr13, read32_onCpu hlr]
  change ∃ s' k, (invokeIndirectCpu (s.fibers.records i).entryPoint _ (s.onCpu _
    ((s.fibers.records i).enter r1 r2 r13 lr))).bind _ = _ ∧ _
  rw [hentry, invokeIndirectCpu, bind_apply, hcall]
  exact ⟨_, _, rfl, Function.update_self ..⟩

end Fiber

/-! ## The fiber that `create` makes -/

section Create

variable {f : GuestFibers} {t : Word} {i : Fin 64} {r : GuestFiberRecord}

/-- The slot of a thread stays its slot, and a first slot becomes it. -/
theorem find_setRecord (ht : t ≠ 0#32) (hstate : r.state ≠ .empty) (hthread : r.guestThread = t)
    (hfind : f.find t = some i ∨ f.find t = none) : (f.setRecord i r).find t = some i := by
  have hslot : ∀ j, j ≠ i → (f.setRecord i r).records j = f.records j :=
    fun j hj => Function.update_of_ne hj ..
  have hself : (f.setRecord i r).records i = r := Function.update_self ..
  unfold GuestFibers.find at hfind ⊢
  rw [if_neg ht] at hfind ⊢
  obtain ⟨before, behind, hsplit, hnot⟩ : ∃ before behind,
    List.finRange 64 = before ++ i :: behind ∧
      ∀ j ∈ before, j ≠ i ∧
      ¬ ((f.records j).state ≠ .empty ∧ (f.records j).guestThread = t) := by
    rcases hfind with hfind | hfind
    · obtain ⟨hi, before, behind, hsplit, hnot⟩ := List.find?_eq_some_iff_append.mp hfind
      simp only [Bool.not_eq_true', decide_eq_false_iff_not] at hnot
      refine ⟨before, behind, hsplit, fun j hj => ⟨?_, hnot j hj⟩⟩
      rintro rfl
      exact hnot j hj (of_decide_eq_true hi)
    · obtain ⟨before, behind, hsplit, hi⟩ := List.eq_append_cons_of_mem (List.mem_finRange i)
      refine ⟨before, behind, hsplit, fun j hj => ⟨fun h => hi (h ▸ hj), ?_⟩⟩
      simpa using List.find?_eq_none.mp hfind j (List.mem_finRange j)
  apply List.find?_eq_some_iff_append.mpr
  refine ⟨by simp [hself, hstate, hthread], before, behind, hsplit, fun j hj => ?_⟩
  rw [hslot j (hnot j hj).1, Bool.not_eq_true', decide_eq_false_iff_not]
  exact (hnot j hj).2

/-- The slot that a thread gets. -/
theorem allocate_some {f' : GuestFibers} (h : f.allocate t = some (i, f')) :
    (f.find t = some i ∨ f.find t = none) ∧ ∀ r, f'.setRecord i r = f.setRecord i r := by
  unfold GuestFibers.allocate at h
  cases hfind : f.find t with
  | some j =>
    rw [hfind] at h
    cases h
    exact ⟨Or.inl rfl, fun _ => rfl⟩
  | none =>
    rw [hfind] at h
    obtain ⟨j, _, hj⟩ := Option.map_eq_some_iff.mp h
    cases hj
    refine ⟨Or.inr rfl, fun r => ?_⟩
    simp [GuestFibers.setRecord]

/-- The scheduler host does not matter for the slot. -/
theorem allocate_schedulerHost (h : Handle) (hslot : (f.allocate t).isSome) :
    ∃ i f', ({ f with schedulerHost := h } : GuestFibers).allocate t = some (i, f') := by
  have hsame : ({ f with schedulerHost := h } : GuestFibers).find t = f.find t := rfl
  unfold GuestFibers.allocate at hslot ⊢
  rw [hsame]
  cases hfind : f.find t with
  | some j => exact ⟨j, _, rfl⟩
  | none =>
    rw [hfind, Option.isSome_map] at hslot
    obtain ⟨j, hj⟩ := Option.isSome_iff_exists.mp hslot
    simp only [hj, Option.map_some, Option.some.injEq, Prod.mk.injEq]
    exact ⟨j, _, rfl, rfl⟩

/-- `create` can make a fiber for the thread. -/
structure Machine.GrantsFiber (s : Machine Memory) (a : Arguments) : Prop where
  current : s.hosts.current ≠ 0
  next : s.hosts.next ≠ 0
  granted : s.hosts.grants s.hosts.next = true
  entry : a.entryFunc ≠ 0#32
  slot : (s.fibers.allocate a.threadPtr).isSome

/-- The fiber of a new thread, in the slot `i`. -/
structure Machine.NewFiber (s : Machine Memory) (a : Arguments) (i : Fin 64) : Prop where
  found : s.fibers.find a.threadPtr = some i
  host_ne : (s.fibers.records i).host ≠ 0
  argument : s.hosts.argument (s.fibers.records i).host = a.threadPtr
  entryPoint : (s.fibers.records i).entryPoint = a.entryFunc
  entryArg : (s.fibers.records i).entryArg = a.entryArg
  seeded : ∃ hid2, (s.fibers.records i).savedCpu =
    seededCpu a.entryFunc a.entryArg (a.alignedStack - 8#32) hid2

theorem ensureSchedulerHost_runs {s : Machine Memory} (hcurrent : s.hosts.current ≠ 0) :
    ∃ h ≠ 0, ensureSchedulerHost s =
      .ret true (s.withFibers { s.fibers with schedulerHost := h }) := by
  unfold ensureSchedulerHost initializeFromCurrentHost
  rw [bind_of (getFibers_apply s), Routine.ite_apply]
  by_cases hhost : s.fibers.schedulerHost = 0
  · refine ⟨s.hosts.current, hcurrent, ?_⟩
    rw [if_neg (not_not.mpr hhost), bind_of (gets_apply ..), bind_of (getFibers_apply s),
      Routine.ite_apply, if_neg (not_not.mpr hhost), bind_of (modify_apply ..),
      decide_eq_true hcurrent]
    rfl
  · rw [if_pos hhost]
    exact ⟨s.fibers.schedulerHost, hhost, rfl⟩

theorem hostDestroy_runs (context : Handle) (s : Machine Memory) :
    ∃ live, hostDestroy context s = .ret () (s.withHosts { s.hosts with live := live }) := by
  unfold hostDestroy
  rw [bind_of (gets_apply ..), Routine.ite_apply]
  split
  · exact ⟨s.hosts.live, rfl⟩
  · exact ⟨_, rfl⟩

theorem destroyed_runs (c : Bool) (context : Handle) (s : Machine Memory) :
    ∃ live, onlyIf c (hostDestroy context) s =
      .ret () (s.withHosts { s.hosts with live := live }) := by
  rw [onlyIf_apply]
  split
  · exact hostDestroy_runs context s
  · exact ⟨s.hosts.live, rfl⟩

theorem hostCreate_runs (argument : Word) {host : Handle} {s : Machine Memory}
    (hcurrent : s.hosts.current ≠ 0) (hnext : s.hosts.next = host)
    (hgranted : s.hosts.grants host = true) :
    ∃ hosts, hostCreate argument s = .ret host (s.withHosts hosts) ∧
      hosts.argument host = argument := by
  subst hnext
  unfold hostCreate
  rw [bind_of (gets_apply ..), Routine.ite_apply, if_neg hcurrent, bind_of (modify_apply ..),
    Routine.ite_apply, if_pos hgranted, bind_of (modify_apply ..)]
  exact ⟨_, rfl, Function.update_self ..⟩

/-- `create` leaves the fiber of the new thread. -/
theorem createFiber_made {s : Machine Memory} {a : Arguments} (cpu : CpuPtr)
    (hgrant : s.GrantsFiber a) (ht : a.threadPtr ≠ 0#32) :
    ∃ s' i, createFiber a.threadPtr a.entryFunc a.entryArg (a.alignedStack - 8#32) cpu s =
      .ret true s' ∧ s'.NewFiber a i := by
  obtain ⟨h, hh, hensure⟩ := ensureSchedulerHost_runs hgrant.current
  obtain ⟨i, f', halloc⟩ := allocate_schedulerHost h hgrant.slot
  obtain ⟨hfind, hset⟩ := allocate_some halloc
  unfold createFiber
  have havailable : (s.withFibers { s.fibers with schedulerHost := h }).fibersAvailable = true :=
    decide_eq_true ⟨hh, hgrant.current⟩
  rw [bind_of hensure, if_pos rfl, bind_of (gets_apply ..), Routine.ite_apply,
    if_pos havailable, Routine.ite_apply, if_neg (not_or.mpr ⟨ht, hgrant.entry⟩),
    bind_of (getFibers_apply _)]
  have hallocated : GuestFibers.allocate
      (s.withFibers { s.fibers with schedulerHost := h }).fibers a.threadPtr = some (i, f') :=
        halloc
  rw [hallocated]
  obtain ⟨live, hdestroy⟩ := destroyed_runs
    ((f'.records i).host ≠ 0 ∧ (f'.records i).schedulerHost = false) (f'.records i).host
    (s.withFibers f')
  obtain ⟨hosts, hcreate, hargument⟩ := hostCreate_runs a.threadPtr
    (s := (s.withFibers f').withHosts { (s.withFibers f').hosts with live := live })
    hgrant.current (rfl : _ = s.hosts.next) hgrant.granted
  have hfibers : setFibers f' (s.withFibers { s.fibers with schedulerHost := h }) =
      .ret () (s.withFibers f') := rfl
  simp only
  rw [bind_of hfibers, bind_of hdestroy, bind_of hcreate, Routine.ite_apply, if_neg hgrant.next,
    seedHid2, bind_of (gets_apply ..), setFiberRecord, bind_of (modify_apply ..)]
  refine ⟨_, i, rfl, ?_⟩
  have hself : ∀ r : GuestFiberRecord, (f'.setRecord i r).records i = r :=
    fun r => Function.update_self ..
  constructor
  · change (f'.setRecord i _).find a.threadPtr = some i
    rw [hset]
    exact find_setRecord ht (fun h => FiberState.noConfusion h) rfl hfind
  · change ((f'.setRecord i _).records i).host ≠ 0
    rw [hself]
    exact hgrant.next
  · change hosts.argument ((f'.setRecord i _).records i).host = _
    rw [hself]
    exact hargument
  · change ((f'.setRecord i _).records i).entryPoint = _
    rw [hself]
  · change ((f'.setRecord i _).records i).entryArg = _
    rw [hself]
  · exact ⟨_, congrArg GuestFiberRecord.savedCpu (hself _)⟩

end Create

/-! ## OSCreateThread -/

/-- The routine leaves the fibers and the host contexts. -/
abbrev KeepsFibers {α : Type} (x : OS α) : Prop :=
  Keeps (fun s : Machine Memory => (s.fibers, s.hosts)) x

theorem KeepsMachine.keepsFibers {α : Type} {x : OS α} (h : KeepsMachine x) : KeepsFibers x :=
  fun s => (h s).mono fun _ _ ht => congrArg (fun u : Machine Unit => (u.fibers, u.hosts)) ht

theorem keepsFibers_setGpr (cpu : CpuPtr) (i : Fin 32) (x : Word) :
    KeepsFibers (setGpr cpu i x) := keeps_modify fun _ => rfl

theorem keepsFibers_exchangeInterrupts (cpu : CpuPtr) (enabled : Bool) :
    KeepsFibers (exchangeInterrupts cpu enabled) := by
  unfold exchangeInterrupts
  apply keeps_bind (keeps_gets _)
  intro old
  apply keeps_bind
  · exact keeps_modify fun _ => rfl
  intro _
  apply keeps_bind (keepsMachine_updateFlag enabled).keepsFibers
  intro _
  exact keeps_onlyIf _ (keepsFibers_setGpr _ _ _)

theorem keepsFibers_restoreInterrupts (cpu : CpuPtr) (state : Word) :
    KeepsFibers (restoreInterrupts cpu state) := by
  unfold restoreInterrupts osRestoreInterrupts
  apply keeps_ite (keeps_pure _)
  apply keeps_bind (keepsFibers_setGpr _ _ _)
  intro _
  apply keeps_bind (keeps_gets _)
  intro _
  exact keepsFibers_exchangeInterrupts _ _

theorem keepsMachine_linkActiveThread (thread : Word) : KeepsMachine (linkActiveThread thread) := by
  unfold linkActiveThread linkBehind
  apply keeps_bind (keepsMachine_read32 _)
  intro tail
  apply keeps_bind
  · apply keeps_ite (keeps_pure _)
    exact keeps_bind (keepsMachine_write32 _ _) fun _ => keepsMachine_read32 _
  intro head
  apply keeps_bind (keepsMachine_write32 _ _)
  intro _
  apply keeps_bind (keepsMachine_write32 _ _)
  intro _
  apply keeps_bind (keepsMachine_write32 _ _)
  intro _
  exact keepsMachine_write32 _ _

/-- The fiber of a registered thread. -/
theorem registerThread_fiber (cpu : CpuPtr) {s : Machine Memory} {a : Arguments}
    (hgrant : s.GrantsFiber a) (ht : a.threadPtr ≠ 0#32) :
    (registerThread cpu a s).Meets .any fun _ t => ∃ i, t.NewFiber a i := by
  have hleads : Leads (fun t : Machine Memory => (t.fibers, t.hosts) = (s.fibers, s.hosts))
      (registerThread cpu a) fun _ t => ∃ i, t.NewFiber a i := by
    unfold registerThread
    apply leads_bind ((keepsMachine_initializeBlock cpu a).keepsFibers.leads (· = _))
    intro _
    apply leads_bind ((keepsFibers_exchangeInterrupts cpu false).leads (· = _))
    intro _
    have hget : KeepsFibers (getGpr cpu 3) := keeps_gets _
    apply leads_bind (hget.leads (· = _))
    intro irqState
    apply leads_bind ((keepsMachine_linkActiveThread a.threadPtr).keepsFibers.leads (· = _))
    intro _
    apply leads_bind ((keepsFibers_restoreInterrupts cpu irqState).leads (· = _))
    intro _ t h
    obtain ⟨hfibers, hhosts⟩ := Prod.mk.inj h
    have hgrant' : t.GrantsFiber a := by
      constructor
      · exact hhosts ▸ hgrant.current
      · exact hhosts ▸ hgrant.next
      · exact hhosts ▸ hgrant.granted
      · exact hgrant.entry
      · exact hfibers ▸ hgrant.slot
    obtain ⟨t', i, hrun, hnew⟩ := createFiber_made cpu hgrant' ht
    rw [bind_of hrun, setGpr_apply]
    exact ⟨i, hnew.found, hnew.host_ne, hnew.argument, hnew.entryPoint,
      hnew.entryArg, hnew.seeded⟩
  exact hleads s rfl

/-- What a call of OSCreateThread that gives 1 has done. -/
theorem osCreateThread_done {config : List RegionConfig} {ctx : CpuPtr} {s s' : Machine Memory}
    {a : Arguments} (hs : Serves config s.mem) (hargs : arguments (s.cpus (cpuOf ctx)) = a)
    (hrun : osCreateThread ctx s = .ret () s') (hr3 : s'.gpr (cpuOf ctx) 3 = 1#32) :
    (threadRange a.threadPtr).Mapped config ∧ a.threadPtr ≠ 0#32 ∧
      (s.GrantsFiber a → ∃ i, s'.NewFiber a i) := by
  obtain ⟨hacc, hzero, hreg⟩ := osCreateThread_registers hs hargs hrun hr3
  refine ⟨hacc.block, hzero, fun hgrant => ?_⟩
  have hmeets := registerThread_fiber (cpuOf ctx) hgrant hzero
  rw [hreg] at hmeets
  exact hmeets

/-! ## The two ways into a thread -/

/-- The switch leaves the slot of the thread. -/
theorem loaded_find {s : Machine Memory} {t : Word} {i : Fin 64} (c : CpuPtr)
    (hfind : s.fibers.find t = some i) : (s.loaded t c i).fibers.find t = some i := by
  have ht : t ≠ 0#32 := by
    rintro rfl
    cases hfind
  have hthread : (s.fibers.records i).guestThread = t := by
    unfold GuestFibers.find at hfind
    rw [if_neg ht] at hfind
    have hslot := List.find?_some hfind
    exact (of_decide_eq_true hslot).2
  have hsaved : ({ s.fibers with records := s.recordAtSwitch c } : GuestFibers).find t = some i :=
    hfind
  exact find_setRecord (r := { s.recordAtSwitch c i with state := .running }) ht
    (fun h => FiberState.noConfusion h) hthread (Or.inl hsaved)

/-- A new thread that has not been entered: its context is what it was when the thread had been
created, and its entry is dispatched. -/
structure AwaitsStart (config : List RegionConfig) (a : Arguments) (created : Memory)
    (s : Machine Memory) : Prop where
  serves : Serves config s.mem
  kept : contextStart s.mem a.threadPtr = contextStart created a.threadPtr
  dispatched : (s.dispatch a.entryFunc).isSome

/-- The thread has the same fiber in both machines, whatever is in its saved registers. -/
structure SameFiber (t : Word) (i : Fin 64) (s s' : Machine Memory) : Prop where
  found : s'.fibers.find t = some i
  host : (s'.fibers.records i).host = (s.fibers.records i).host
  argument :
    s'.hosts.argument (s.fibers.records i).host = s.hosts.argument (s.fibers.records i).host
  entryPoint : (s'.fibers.records i).entryPoint = (s.fibers.records i).entryPoint
  entryArg : (s'.fibers.records i).entryArg = (s.fibers.records i).entryArg

/-- A switch to the fiber of a new thread goes to its host, which enters the thread. -/
theorem switchTo_enters {config : List RegionConfig} {a : Arguments} {created : Memory}
    {s : Machine Memory} {c : CpuPtr} {i : Fin 64} (h : AwaitsStart config a created s)
    (hblock : (threadRange a.threadPtr).Mapped config) (hgoes : s.Switches a.threadPtr c i)
    (hhost : (s.fibers.records i).host ≠ s.hosts.current)
    (hargument : s.hosts.argument (s.fibers.records i).host = a.threadPtr)
    (hentry : (s.fibers.records i).entryPoint = a.entryFunc)
    (harg : (s.fibers.records i).entryArg = a.entryArg) :
    ∃ s₁ k₁ s₂ k₂, switchTo a.threadPtr c s =
      .call (.host (s.fibers.records i).host) s₁ k₁ ∧
      guestFiberEntry (s₁.hosts.argument s₁.hosts.current) s₁ =
        .call (.guest a.entryFunc c) s₂ k₂ ∧
      (SameStart (s₂.cpus c) (contextStart created a.threadPtr) ↔
        StartsFrom a (fun w => contextWord created a.threadPtr w.offset)
          (s.savedAtSwitch c i)) := by
  obtain ⟨record, hd⟩ := Option.isSome_iff_exists.mp h.dispatched
  have hc : cpuOf c = c := by
    unfold cpuOf
    rw [if_pos hgoes.cpu_ne]
  have hself : ((s.loaded a.threadPtr c i).fibers.records i) =
      { s.recordAtSwitch c i with state := .running } := Function.update_self ..
  have hentry' : ((s.loaded a.threadPtr c i).fibers.records i).entryPoint = a.entryFunc := by
    rw [hself]
    exact hentry
  have harg' : ((s.loaded a.threadPtr c i).fibers.records i).entryArg = a.entryArg := by
    rw [hself]
    exact harg
  have hword : ∀ off : Word, off.toNat + 4 ≤ kThreadSize →
      s.mem.read32 (a.threadPtr + off) = some (contextWord s.mem a.threadPtr off) :=
    fun off hoff => contextWord_read h.serves hblock hoff
  obtain ⟨s₂, k₂, henter, hcpu⟩ := guestFiberEntry_enters
    (s := (s.loaded a.threadPtr c i).onHost (s.fibers.records i).host)
    (hword kContextR1Offset (by decide)) (hword kContextR2Offset (by decide))
    (hword kContextR13Offset (by decide)) (hword kContextLrOffset (by decide))
    (loaded_find c hgoes.found) hentry' hd
  have hactive :
    cpuOf ((s.loaded a.threadPtr c i).onHost (s.fibers.records i).host).fibers.activeCpu
      = c := hc
  rw [hactive] at henter hcpu
  rw [switchTo_apply hgoes, if_neg hhost]
  refine ⟨_, _, s₂, k₂, rfl, ?_, ?_⟩
  · rw [← henter]
    exact congrArg (guestFiberEntry · _) hargument
  · have htaken : ((s.loaded a.threadPtr c i).onHost (s.fibers.records i).host).cpus c =
        s.savedAtSwitch c i := Function.update_self ..
    rw [hcpu, htaken, ← h.kept]
    exact (sameStart_enter hentry' harg').trans (startsFrom_congr fun w hw =>
      contextWord_kept h.kept hw)

/-- The fiber of the thread, on the host `host`, and the load of its context enter it, with the
same registers. -/
def EntersAlike (a : Arguments) (host : Handle) (c ctx : CpuPtr)
    (s₂ s₃ : Machine Memory) : Prop :=
  ∃ m₁ k₁ m₂ k₂ m₃ k₃,
    switchTo a.threadPtr c s₂ = .call (.host host) m₁ k₁ ∧
    guestFiberEntry (m₁.hosts.argument m₁.hosts.current) m₁ =
      .call (.guest a.entryFunc c) m₂ k₂ ∧
    osLoadContext ctx s₃ = .call (.jump a.entryFunc (cpuOf ctx)) m₃ k₃ ∧
    SameStart (m₂.cpus c) (m₃.cpus (cpuOf ctx))

section Both

variable {config : List RegionConfig} {s₁ s₂ s₃ : Machine Memory} {a : Arguments} {i : Fin 64}

/-- Both ways enter a thread whose context has its entry. -/
theorem both_ways (ctx c : CpuPtr) (hblock : (threadRange a.threadPtr).Mapped config)
    (hzero : a.threadPtr ≠ 0#32) (hentry : a.entryFunc ≠ 0#32) (hnew : s₁.NewFiber a i)
    (h₂ : AwaitsStart config a s₁.mem s₂) (hfiber : SameFiber a.threadPtr i s₁ s₂)
    (havailable : s₂.fibersAvailable = true) (hc : c ≠ 0)
    (hhost : (s₁.fibers.records i).host ≠ s₂.hosts.current)
    (h₃ : AwaitsStart config a s₁.mem s₃) (hr3 : s₃.gpr (cpuOf ctx) 3 = a.threadPtr)
    (hsrr0 : (contextStart s₁.mem a.threadPtr).srr0 = a.entryFunc) :
    ∃ m₁ k₁ m₂ k₂ m₃ k₃,
      switchTo a.threadPtr c s₂ = .call (.host (s₁.fibers.records i).host) m₁ k₁ ∧
      guestFiberEntry (m₁.hosts.argument m₁.hosts.current) m₁ =
        .call (.guest a.entryFunc c) m₂ k₂ ∧
      osLoadContext ctx s₃ = .call (.jump a.entryFunc (cpuOf ctx)) m₃ k₃ ∧
      (SameStart (m₂.cpus c) (m₃.cpus (cpuOf ctx)) ↔
        StartsFrom a (fun w => contextWord s₁.mem a.threadPtr w.offset)
          (s₂.savedAtSwitch c i)) := by
  obtain ⟨record, hd⟩ := Option.isSome_iff_exists.mp h₃.dispatched
  have hgoes : s₂.Switches a.threadPtr c i :=
    ⟨hfiber.found, havailable, hfiber.host ▸ hnew.host_ne, hc⟩
  obtain ⟨m₁, k₁, m₂, k₂, hswitch, henter, hiff⟩ := switchTo_enters h₂ hblock hgoes
    (hfiber.host ▸ hhost) (hfiber.host ▸ hfiber.argument.trans hnew.argument)
    (hfiber.entryPoint.trans hnew.entryPoint) (hfiber.entryArg.trans hnew.entryArg)
  rw [hfiber.host] at hswitch
  rw [← h₃.kept] at hsrr0
  obtain ⟨m₃, k₃, hjump, hstart⟩ := osLoadContext_enters h₃.serves hblock hzero
    (hsrr0 ▸ hentry) hr3 (hsrr0 ▸ hd)
  rw [hsrr0] at hjump
  rw [h₃.kept] at hstart
  refine ⟨m₁, k₁, m₂, k₂, m₃, k₃, hswitch, henter, hjump, ?_⟩
  rw [← hiff]
  exact ⟨fun h => h.trans hstart, fun h => h.trans hstart.symm⟩

/-- Both ways enter a thread alike exactly when the fiber starts from what the context has. -/
theorem both_enter (ctx c : CpuPtr) (hblock : (threadRange a.threadPtr).Mapped config)
    (hzero : a.threadPtr ≠ 0#32) (hentry : a.entryFunc ≠ 0#32) (hnew : s₁.NewFiber a i)
    (h₂ : AwaitsStart config a s₁.mem s₂) (hfiber : SameFiber a.threadPtr i s₁ s₂)
    (havailable : s₂.fibersAvailable = true) (hc : c ≠ 0)
    (hhost : (s₁.fibers.records i).host ≠ s₂.hosts.current)
    (h₃ : AwaitsStart config a s₁.mem s₃) (hr3 : s₃.gpr (cpuOf ctx) 3 = a.threadPtr) :
    EntersAlike a (s₁.fibers.records i).host c ctx s₂ s₃ ↔
      StartsFrom a (fun w => contextWord s₁.mem a.threadPtr w.offset)
        (s₂.savedAtSwitch c i) := by
  have hways := both_ways ctx c hblock hzero hentry hnew h₂ hfiber havailable hc hhost h₃ hr3
  constructor
  · rintro ⟨n₁, l₁, n₂, l₂, n₃, l₃, hswitch', henter', hjump', hsame⟩
    have hsrr0 : a.entryFunc = (contextStart s₃.mem a.threadPtr).srr0 :=
      osLoadContext_jumps h₃.serves hblock hzero hr3 hjump'
    rw [h₃.kept] at hsrr0
    obtain ⟨m₁, k₁, m₂, k₂, m₃, k₃, hswitch, henter, hjump, hiff⟩ :=
      hways hsrr0.symm
    rw [hswitch] at hswitch'
    cases hswitch'
    rw [henter] at henter'
    cases henter'
    rw [hjump] at hjump'
    cases hjump'
    exact hiff.mp hsame
  · intro h
    obtain ⟨m₁, k₁, m₂, k₂, m₃, k₃, hswitch, henter, hjump, hiff⟩ := hways h.entry
    exact ⟨m₁, k₁, m₂, k₂, m₃, k₃, hswitch, henter, hjump, hiff.mpr h⟩

end Both

/-- What the context holds when the call has returned. -/
theorem startsFrom_created {config : List RegionConfig} {ctx : CpuPtr} {s s₁ : Machine Memory}
    {a : Arguments} {taken : CpuContext} (hs : Serves config s.mem)
    (hargs : arguments (s.cpus (cpuOf ctx)) = a) (hrun : osCreateThread ctx s = .ret () s₁)
    (hdone : s₁.gpr (cpuOf ctx) 3 = 1#32) (hstores : StoresApart config s.mem a) :
    StartsFrom a (fun w => contextWord s₁.mem a.threadPtr w.offset) taken ↔
      StartsFrom a (guarded config a) taken := by
  apply startsFrom_congr
  intro w hw
  unfold contextWord
  rw [osCreateThread_word hs hargs hrun hdone hstores hw, Option.getD_some]

/-- The fiber of a created thread and the load of its context enter it with the same registers
exactly when the registers that the switch takes for it are those that its context has. When
the later stores of the call are apart from the context but for the guard, and the registers are
those that `create` seeds, that is when the thread is no video decoder and the guard of its
stack leaves the words of its context. -/
theorem the_two_starts_agree_unless_thp {config : List RegionConfig} {ctx ctx' c : CpuPtr}
    {s s₁ s₂ s₃ : Machine Memory} {a : Arguments} {i : Fin 64} (hs : Serves config s.mem)
    (hargs : arguments (s.cpus (cpuOf ctx)) = a) (hgrant : s.GrantsFiber a)
    (hrun : osCreateThread ctx s = .ret () s₁) (hdone : s₁.gpr (cpuOf ctx) 3 = 1#32)
    (h₂ : AwaitsStart config a s₁.mem s₂) (hfiber : SameFiber a.threadPtr i s₁ s₂)
    (hi : s₁.fibers.find a.threadPtr = some i) (havailable : s₂.fibersAvailable = true)
    (hc : c ≠ 0) (hhost : (s₁.fibers.records i).host ≠ s₂.hosts.current)
    (h₃ : AwaitsStart config a s₁.mem s₃) (hr3 : s₃.gpr (cpuOf ctx') 3 = a.threadPtr) :
    (EntersAlike a (s₁.fibers.records i).host c ctx' s₂ s₃ ↔
      StartsFrom a (fun w => contextWord s₁.mem a.threadPtr w.offset)
        (s₂.savedAtSwitch c i)) ∧
    (StoresApart config s.mem a →
      (EntersAlike a (s₁.fibers.records i).host c ctx' s₂ s₃ ↔
        StartsFrom a (guarded config a) (s₂.savedAtSwitch c i)) ∧
      (s₂.savedAtSwitch c i = (s₁.fibers.records i).savedCpu →
        (EntersAlike a (s₁.fibers.records i).host c ctx' s₂ s₃ ↔
          isThpVideoDecoderEntry a.entryFunc = false ∧
            ∀ w : StartWord, w.Counts → guarded config a w = w.value a))) := by
  obtain ⟨hblock, hzero, hcreate⟩ := osCreateThread_done hs hargs hrun hdone
  obtain ⟨j, hnew⟩ := hcreate hgrant
  obtain rfl : i = j := Option.some_inj.mp (hi.symm.trans hnew.found)
  have hiff :=
    both_enter ctx' c hblock hzero hgrant.entry hnew h₂ hfiber havailable hc hhost h₃ hr3
  refine ⟨hiff, fun hstores => ?_⟩
  have hcreated := hiff.trans (startsFrom_created hs hargs hrun hdone hstores)
  refine ⟨hcreated, fun htaken => ?_⟩
  obtain ⟨hid2, hseeded⟩ := hnew.seeded
  rw [hcreated, htaken, hseeded]
  exact startsFrom_seeded

/-! ## Threads of a Wii -/

/-- The thread of `pageThread`, with another entry. -/
def startThread (entry : Word) : Arguments := { pageThread with entryFunc := entry }

/-- A booted Wii on its first host stack, about to create the thread. -/
def startMachine (entry : Word) (m : Memory) : Machine Memory :=
  { createMachine m with
    cpus := fun c => ((createMachine m).cpus c).setGpr 4 entry
    hosts := ⟨1, 2, fun _ => 0#32, fun _ => false, fun _ => true⟩
    dispatch := fun _ => some ⟨false, 0#32⟩ }

/-- After its creation the switch has what it needs. -/
def awaitsSwitch (entry : Word) : Option Bool :=
  wiiBoot.bind fun m => (osCreateThread 1 (startMachine entry m)).ended.map fun r =>
    decide (r.2.fibers.find 0x80400000#32 = some 0 ∧
      (r.2.fibers.records 0).host ≠ r.2.hosts.current ∧ r.2.fibersAvailable = true ∧
      (r.2.dispatch entry).isSome ∧ r.2.fibers.find r.2.fibers.currentGuestThread = none)

theorem awaitsSwitch_eq : awaitsSwitch 0x80500000#32 = some true ∧
    awaitsSwitch 0x805529A8#32 = some true := by decide +kernel

/-- A created thread of a Wii that awaits its start. -/
structure Started (entry : Word) (s s' : Machine Memory) : Prop where
  serves : Serves wiiDefaults s.mem
  args : arguments (s.cpus (cpuOf 1)) = startThread entry
  grants : s.GrantsFiber (startThread entry)
  runs : osCreateThread 1 s = .ret () s'
  done : s'.gpr (cpuOf 1) 3 = 1#32
  apart : StoresApart wiiDefaults s.mem (startThread entry)
  awaits : AwaitsStart wiiDefaults (startThread entry) s'.mem s'
  found : s'.fibers.find (startThread entry).threadPtr = some 0
  available : s'.fibersAvailable = true
  host_ne : (s'.fibers.records 0).host ≠ s'.hosts.current
  seeded : s'.savedAtSwitch 1 0 = (s'.fibers.records 0).savedCpu

/-- Without a current context and without threads there is little to store over. -/
theorem startThread_apart {entry : Word} {m : Memory}
    (hcur : m.read32 kOSCurrentContextAddr = some 0#32)
    (htail : m.read32 kThreadListTailAddr = some 0#32) :
    StoresApart wiiDefaults m (startThread entry) := by
  have hlink : ∀ r, r ∉ linkRange m := by
    rintro r ⟨tail, hread, hne, _⟩
    exact hne (Option.some_inj.mp (hread.symm.trans htail))
  have hmirror : ∀ r, r ∉ mirrorRange wiiDefaults m := by
    rintro r ⟨c, hread, hne, _⟩
    exact hne (Option.some_inj.mp (hread.symm.trans hcur))
  have hglobals : ∀ p ∈ createGlobals, MemRange.Off wiiDefaults
      (threadRange (startThread entry).threadPtr) (p, 4) :=
    pageThread_fresh.globals _ List.mem_cons_self
  constructor
  · intro p hp
    have hglobal : p ∈ createGlobals := by
      simp only [pointerWords, List.mem_cons, List.not_mem_nil, or_false] at hp
      rcases hp with rfl | rfl
      · simp [createGlobals]
      · simp [createGlobals]
    refine ⟨hglobals p hglobal, fun r hr => ?_, fun r hr => ?_⟩
    · exact pageThread_fresh.stackGlobals r hr p hglobal
    · exact hr.elim (fun h => absurd h (hlink r)) fun h => absurd h (hmirror r)
  · rintro w hw r (hr | hr | hr)
    · have hglobal : ∃ g ∈ createGlobals, r = (g, 4) := by
        simp only [List.mem_cons, List.not_mem_nil, or_false] at hr
        rcases hr with rfl | rfl | rfl
        · exact ⟨_, by simp [createGlobals], rfl⟩
        · exact ⟨_, by simp [createGlobals], rfl⟩
        · exact ⟨_, by simp [createGlobals], rfl⟩
      obtain ⟨g, hg, rfl⟩ := hglobal
      have hblock : (threadRange (startThread entry).threadPtr).Mapped wiiDefaults :=
        pageThread_accepted.block
      have hin := part_inside wiiDefaults_admissible hblock (by decide) (w.inside hw)
      exact (hin.off (hglobals g hg)).symm
    · exact absurd hr (hlink r)
    · exact absurd hr (hmirror r)

theorem exists_started {entry : Word} (hentry : entry ≠ 0#32)
    (heq : awaitsSwitch entry = some true) : ∃ s s', Started entry s s' := by
  unfold awaitsSwitch at heq
  obtain ⟨m, hm, heq⟩ := Option.bind_eq_some_iff.mp heq
  obtain ⟨⟨_, s'⟩, hended, heq⟩ := Option.map_eq_some_iff.mp heq
  obtain ⟨hfind, hhost, havailable, hdispatch, hnone⟩ := of_decide_eq_true heq
  have hs : Serves wiiDefaults (startMachine entry m).mem := wiiBoot_serves hm
  have hrun : osCreateThread 1 (startMachine entry m) = .ret () s' := Coop.ret_of_ended hended
  have hread : ∀ a : Word, 0x80000000 ≤ a.toNat → a.toNat + 4 ≤ 0x81800000 →
      m.read32 a = some 0#32 := fun a hlow hhigh =>
      wiiBoot_read hm .w32 (lowMemory_mapped hlow hhigh)
  have hpointer : m.read32 kOSCurrentContextAddr = some 0#32 := hread _ (by decide) (by decide)
  have htail : m.read32 kThreadListTailAddr = some 0#32 := hread _ (by decide) (by decide)
  have helse : MirrorElsewhere wiiDefaults m [] (startThread entry) := by
    rintro r ⟨c, hc, hne, _⟩
    exact absurd (Option.some_inj.mp (hc.symm.trans hpointer)) hne
  have hfresh : FreshThread wiiDefaults [] (startThread entry) :=
    ⟨pageThread_fresh.blocks, pageThread_fresh.globals, pageThread_fresh.stackBlocks,
      pageThread_fresh.stackGlobals⟩
  have hacc : Accepts wiiDefaults (startThread entry) :=
    ⟨pageThread_accepted.priority, pageThread_accepted.block, pageThread_accepted.aligned,
      pageThread_accepted.top, pageThread_accepted.size, pageThread_accepted.bottom⟩
  have hlist : ActiveThreads wiiDefaults m [] := noThreads (hread _ (by decide) (by decide)) htail
  have hargs : arguments ((startMachine entry m).cpus (cpuOf 1)) = startThread entry := rfl
  obtain ⟨b, hcheck, hb⟩ := check_iff hs hfresh hlist
  have hpass := hb.mpr hacc
  have hzero : (startThread entry).threadPtr ≠ 0#32 := (by decide : 0x80400000#32 ≠ 0#32)
  obtain ⟨s'', hrun', hdone, hserves, _⟩ :=
    registerThread_runs hacc hfresh hzero (cpuOf_ne_zero 1)
    hs hlist helse
  have hsame : s' = s'' := by
    have heq := osCreateThread_eq hargs hcheck
    rw [hrun, if_pos ⟨hpass.2, hpass.1⟩, hrun'] at heq
    cases heq
    rfl
  have hgrants : (startMachine entry m).GrantsFiber (startThread entry) :=
    ⟨(by decide : (1 : Handle) ≠ 0), (by decide : (2 : Handle) ≠ 0), rfl, hentry, rfl⟩
  refine ⟨startMachine entry m, s', hs, hargs, hgrants, hrun, hsame ▸ hdone,
    startThread_apart hpointer htail, ⟨hsame ▸ hserves, rfl, hdispatch⟩, hfind,
    havailable, hhost,
    ?_⟩
  unfold Machine.savedAtSwitch
  rw [hnone]
  rfl

/-- The machine after the creation, about to load the context. -/
theorem Started.loads {entry : Word} {s s' : Machine Memory} (h : Started entry s s') :
    AwaitsStart wiiDefaults (startThread entry) s'.mem
      (s'.setGpr 1 3 (startThread entry).threadPtr) :=
  ⟨h.awaits.serves, h.awaits.kept, h.awaits.dispatched⟩

/-- The guard of a page below the top is apart from the block. -/
theorem startThread_guarded (entry : Word) {w : StartWord} (hw : w.Counts) :
    guarded wiiDefaults (startThread entry) w = w.value (startThread entry) := by
  apply guarded_off
  have hblock : (threadRange (startThread entry).threadPtr).Mapped wiiDefaults :=
    pageThread_accepted.block
  apply (part_inside wiiDefaults_admissible hblock (by decide) (w.inside hw)).off_right
  exact pageThread_fresh.stackBlocks _ (List.mem_cons_of_mem _ List.mem_cons_self) _
    List.mem_cons_self

/-- A thread that is no video decoder starts alike. -/
theorem a_created_thread_starts_alike : ∃ s s', Started 0x80500000#32 s s' ∧
    EntersAlike (startThread 0x80500000#32) (s'.fibers.records 0).host 1 1 s'
      (s'.setGpr 1 3 0x80400000#32) := by
  obtain ⟨s, s', h⟩ := exists_started (by decide) awaitsSwitch_eq.1
  have hcpu : (1 : CpuPtr) ≠ 0 := by decide
  have hr3 : (s'.setGpr 1 3 0x80400000#32).gpr (cpuOf 1) 3 = 0x80400000#32 := by simp [cpuOf]
  obtain ⟨_, hapart⟩ := the_two_starts_agree_unless_thp h.serves h.args h.grants h.runs h.done
    h.awaits ⟨h.found, rfl, rfl, rfl, rfl⟩ h.found h.available hcpu h.host_ne h.loads hr3
  exact ⟨s, s', h, ((hapart h.apart).2 h.seeded).mpr
    ⟨(by decide : isThpVideoDecoderEntry 0x80500000#32 = false),
      fun w hw => startThread_guarded _ hw⟩⟩

/-- A video decoder thread has other quantization registers in its fiber than in its context. -/
theorem a_video_decoder_starts_differently : ∃ s s' m₁ k₁ m₂ k₂ m₃ k₃,
    Started 0x805529A8#32 s s' ∧
    switchTo 0x80400000#32 1 s' = .call (.host (s'.fibers.records 0).host) m₁ k₁ ∧
    guestFiberEntry (m₁.hosts.argument m₁.hosts.current) m₁ =
      .call (.guest 0x805529A8#32 1) m₂ k₂ ∧
    osLoadContext 1 (s'.setGpr 1 3 0x80400000#32) = .call (.jump 0x805529A8#32 1) m₃ k₃ ∧
    ¬ SameStart (m₂.cpus 1) (m₃.cpus 1) := by
  obtain ⟨s, s', h⟩ := exists_started (by decide) awaitsSwitch_eq.2
  obtain ⟨hblock, hzero, hcreate⟩ := osCreateThread_done h.serves h.args h.runs h.done
  obtain ⟨i, hnew⟩ := hcreate h.grants
  obtain rfl : 0 = i := Option.some_inj.mp (h.found.symm.trans hnew.found)
  obtain ⟨hid2, hseeded⟩ := hnew.seeded
  have hword := osCreateThread_word h.serves h.args h.runs h.done h.apart (w := .entry) trivial
  rw [startThread_guarded (w := .entry) _ trivial] at hword
  have hsrr0 : (contextStart s'.mem (startThread 0x805529A8#32).threadPtr).srr0 = 0x805529A8#32 :=
    congrArg (Option.getD · 0#32) hword
  obtain ⟨m₁, k₁, m₂, k₂, m₃, k₃, hswitch, henter, hload, hiff⟩ :=
    both_ways 1 1 hblock hzero
    h.grants.entry hnew h.awaits ⟨h.found, rfl, rfl, rfl, rfl⟩ h.available (by decide) h.host_ne
    h.loads (by simp [cpuOf]) hsrr0
  refine ⟨s, s', m₁, k₁, m₂, k₂, m₃, k₃, h, hswitch, henter, hload, fun hsame => ?_⟩
  have hstarts := hiff.mp hsame
  rw [startsFrom_created h.serves h.args h.runs h.done h.apart, h.seeded, hseeded] at hstarts
  exact absurd (startsFrom_seeded.mp hstarts).1 (by decide)

end wii_switch
