-- OSCreateThread either registers the thread or changes nothing. Between the initialized
-- block and the list it clears the interrupt flag and sets it back, and each time the mode
-- flags of the current context follow the flag.
import WiiSwitch.Registration

namespace wii_switch

open Bytes OS CreateThread

/-! ## The mirror of the interrupt flag -/

/-- The mode flags of the current context, where the interrupt flag is mirrored. -/
def mirrorRange (config : List RegionConfig) (m : Memory) : Set MemRange :=
  {r | ∃ c, m.read32 kOSCurrentContextAddr = some c ∧ c ≠ 0#32 ∧
    r = (c + kContextModeFlagsOffset, 2) ∧ r.Mapped config}

section

variable {config : List RegionConfig} {s : Machine Memory} {ts : List Word} {a : Arguments}

theorem updateFlag_stores (hs : Serves config s.mem) (enabled : Bool) :
    ∃ m, updateCurrentContextInterruptFlag enabled s = .ret () (s.withMem m) ∧
      Leaves config (mirrorRange config s.mem) s.mem m := by
  have hnothing : ∃ m, (pure () : OS Unit) s = .ret () (s.withMem m) ∧
      Leaves config (mirrorRange config s.mem) s.mem m := ⟨s.mem, rfl, .refl hs⟩
  unfold updateCurrentContextInterruptFlag
  rw [Routine.bind_of (mapped32_ret hs.initialized _), hs.contains32]
  cases hcur : s.mem.read32 kOSCurrentContextAddr with
  | none => exact hnothing
  | some c =>
    rw [Option.isSome_some, if_pos rfl, Routine.bind_of (read32_ret hcur), Routine.ite_apply]
    by_cases hc : c = 0#32
    · rw [if_pos hc]
      exact hnothing
    · rw [if_neg hc, Routine.bind_of (contains_apply _ _ s), Routine.ite_apply, hs.contains16]
      cases hmode : s.mem.read16 (c + kContextModeFlagsOffset) with
      | none => exact hnothing
      | some x =>
        rw [Option.isSome_some, if_pos rfl, Routine.bind_of (read16_ret hmode), onlyIf_apply]
        split
        · have hin := (hs.read16_isSome _).mp (by rw [hmode, Option.isSome_some])
          obtain ⟨m, hw⟩ := hs.write16_some hin (withInterruptBit enabled x)
          have hleaves : Leaves config {(c + kContextModeFlagsOffset, 2)} s.mem m :=
            .write (k := .w16) hs hw
          refine ⟨m, write16_ret hw, hleaves.mono ?_⟩
          exact Set.singleton_subset_iff.mpr ⟨c, hcur, hc, rfl, hin⟩
        · exact hnothing

theorem exchangeInterrupts_stores (hs : Serves config s.mem) (cpu : CpuPtr) (enabled : Bool) :
    ∃ m, exchangeInterrupts cpu enabled s = .ret () (exchanged s cpu enabled m) ∧
      Leaves config (mirrorRange config s.mem) s.mem m := by
  obtain ⟨m, hrun, hm⟩ := updateFlag_stores (s := s.setInterrupts enabled) hs enabled
  refine ⟨m, ?_, hm⟩
  unfold exchangeInterrupts exchanged
  simp only [Routine.bind_apply, Routine.gets_apply, Routine.modify_apply, Coop.bind_ret, hrun,
    onlyIf_apply, setGpr_apply]
  by_cases h : cpu = 0
  · simp [h]
  · simp [h]

theorem mirrorRange_congr {m m' : Memory}
    (h : m'.read32 kOSCurrentContextAddr = m.read32 kOSCurrentContextAddr) :
    mirrorRange config m' = mirrorRange config m := by
  unfold mirrorRange
  rw [h]

/-! ## The check -/

theorem containsThreadAndStack_apply (hs : Serves config s.mem) (threadPtr alignedStack stackTop
    stackSize : Word) :
    containsThreadAndStack threadPtr alignedStack stackTop stackSize s =
      .ret (decide (¬ (threadPtr = 0#32 ∨ alignedStack < 8#32 ∨ stackTop < stackSize) ∧
        s.mem.contains threadPtr (BitVec.ofNat 64 kThreadSize) ∧
        s.mem.contains (alignedStack - 8#32) 8#64 ∧ s.mem.contains (stackTop - stackSize) 4#64 ∧
        s.mem.contains kThreadListHeadAddr 4#64 ∧
        s.mem.contains kThreadListTailAddr 4#64)) s := by
  unfold containsThreadAndStack
  rw [Routine.bind_of (isInitialized_apply s), hs.initialized, if_pos rfl, Routine.ite_apply]
  by_cases h : threadPtr = 0#32 ∨ alignedStack < 8#32 ∨ stackTop < stackSize
  · rw [if_pos h]
    simp [h]
  · rw [if_neg h]
    simp [h]

/-- A thread at address 0 would lie over the words of the list. -/
theorem FreshThread.ne_zero (hc : Admissible config) (hfresh : FreshThread config ts a)
    (hblock : (threadRange a.threadPtr).Mapped config)
    (hhead : MemRange.Mapped config (kThreadListHeadAddr, 4)) : a.threadPtr ≠ 0#32 := by
  intro hz
  have hoff := hfresh.globals a.threadPtr List.mem_cons_self kThreadListHeadAddr
    (by simp [createGlobals])
  obtain ⟨r, hr, hlow, hhigh⟩ := hblock
  obtain ⟨q, hq, hlow', hhigh'⟩ := hhead
  rw [hz] at hoff
  simp only [threadRange, hz] at hlow hhigh
  simp only [kThreadListHeadAddr, kThreadSize] at hlow' hhigh' hhigh
  have hbase : r.baseAddress = 0#32 := by bv_omega
  simp only [BitVec.toNat_ofNat] at hlow hhigh hlow' hhigh'
  have hwindow := hc.inside q hq 4
  have hcached : inWindow kMem1CachedBase kMem1Size q.baseAddress := by
    unfold inWindow kMem1CachedBase kMem1Size
    bv_omega
  have hlow1 : LiesIn config .mem1 (0 + 0xDC) := by
    refine ⟨r, hr, ?_, ?_, ?_⟩
    · rw [hbase]
      decide
    · omega
    · omega
  have hhead1 : LiesIn config .mem1 (0x800000DC + 0) := by
    refine ⟨q, hq, ?_, ?_, ?_⟩
    · unfold classifyBacking
      rw [if_pos (Or.inr (Or.inl hcached))]
    · omega
    · omega
  exact hoff 0xDC (by decide) 0 (by decide) (Or.inr (Or.inl ⟨hlow1, hhead1, by decide⟩))

/-- The check passes for what is accepted, and for nothing else. -/
theorem check_iff (hs : Serves config s.mem) (hfresh : FreshThread config ts a)
    (hlist : ActiveThreads config s.mem ts) :
    ∃ b, containsThreadAndStack a.threadPtr a.alignedStack a.stackTop a.stackSize s = .ret b s ∧
      (b = true ∧ validPriority a.priority = true ↔ Accepts config a) := by
  obtain ⟨fd, bk, _, hwords⟩ := hlist.linked
  have hread : ∀ w : ListWord, w.Of ts → (s.mem.read32 w.address).isSome := by
    intro w hw
    rw [hwords w hw, Option.isSome_some]
  have hhead := (hs.read32_isSome _).mp (hread .head trivial)
  have htail := (hs.read32_isSome _).mp (hread .tail trivial)
  have hcontains := fun (r : Word) {n : Nat} (hn : 0 < n) (hn' : n ≤ 0x100000000) =>
    hs.contains_iff r hn hn'
  refine ⟨_, containsThreadAndStack_apply hs _ _ _ _, ?_⟩
  rw [decide_eq_true_iff, hcontains _ (by decide) (by decide),
    hcontains (n := 8) _ (by decide) (by decide), hcontains (n := 4) _ (by decide) (by decide),
    hcontains (n := 4) _ (by decide) (by decide), hcontains (n := 4) _ (by decide) (by decide)]
  unfold validPriority
  rw [decide_eq_true_iff]
  constructor
  · rintro ⟨⟨hsize, hblock, htop, hbottom, _, _⟩, hpriority⟩
    simp only [not_or, BitVec.not_lt] at hsize
    exact ⟨hpriority, hblock, hsize.2.1, htop, hsize.2.2, hbottom⟩
  · intro hacc
    have hzero := hfresh.ne_zero hs.admissible hacc.block hhead
    refine ⟨⟨?_, hacc.block, hacc.top, hacc.bottom, hhead, htail⟩, hacc.priority⟩
    simp only [not_or, BitVec.not_lt]
    exact ⟨hzero, hacc.aligned, hacc.size⟩

end

/-! ## The fiber -/

section Fiber

open Routine

theorem total_hostDestroy (context : Handle) : Total (hostDestroy context) :=
  total_bind (total_gets _) fun _ => total_ite (total_pure _) (total_modify _)

theorem total_hostCreate (argument : Word) : Total (hostCreate argument) := by
  apply total_bind (total_gets _)
  intro h
  apply total_ite (total_pure _)
  apply total_bind (total_modify _)
  intro _
  apply total_ite
  · exact total_bind (total_modify _) fun _ => total_pure _
  · exact total_pure _

theorem total_ensureSchedulerHost : Total ensureSchedulerHost := by
  apply total_bind (total_gets _)
  intro f
  apply total_ite (total_pure _)
  apply total_bind (total_gets _)
  intro current
  apply total_bind (total_gets _)
  intro f
  apply total_ite (total_pure _)
  exact total_bind (total_modify _) fun _ => total_pure _

/-- The fiber of a new thread is always tried. -/
theorem total_createFiber (t entry arg top : Word) (cpu : CpuPtr) :
    Total (createFiber t entry arg top cpu) := by
  unfold createFiber
  apply total_bind total_ensureSchedulerHost
  intro ready
  apply total_ite _ (total_pure _)
  apply total_bind (total_gets _)
  intro available
  apply total_ite _ (total_pure _)
  apply total_ite (total_pure _)
  apply total_bind (total_gets _)
  intro f
  cases f.allocate t with
  | none => exact total_pure _
  | some slot =>
    apply total_bind (total_modify _)
    intro _
    apply total_bind
    · exact total_ite (total_hostDestroy _) (total_pure _)
    intro _
    apply total_bind (total_hostCreate _)
    intro host
    apply total_ite
    · exact total_bind (total_modify _) fun _ => total_pure _
    · exact total_bind (total_gets _) fun _ => total_bind (total_modify _) fun _ => total_pure _

/-- And it changes nothing that the guest sees. -/
theorem createFiber_runs (t entry arg top : Word) (cpu : CpuPtr) (s : Machine Memory) :
    ∃ b s', createFiber t entry arg top cpu s = .ret b s' ∧ s'.mem = s.mem ∧
      s'.interruptsEnabled = s.interruptsEnabled := by
  obtain ⟨b, s', hrun⟩ := total_createFiber t entry arg top cpu s
  have hkeep := keepsGuest_createFiber t entry arg top cpu s
  rw [hrun] at hkeep
  have hguest : s'.guestPart = s.guestPart := hkeep
  have hmem : s'.guestPart.mem = s.guestPart.mem := by rw [hguest]
  have hflag : s'.guestPart.interruptsEnabled = s.guestPart.interruptsEnabled := by rw [hguest]
  exact ⟨b, s', hrun, hmem, hflag⟩

end Fiber

/-! ## The registration -/

/-- The words that the mirror of the flag must not touch: the list with the new thread, the
pointer to the current context, and the fields of the new thread. -/
def registeredWords (ts : List Word) (a : Arguments) : Set MemRange :=
  {r | r ∈ listWords (a.threadPtr :: ts) ∨ r = (kOSCurrentContextAddr, 4) ∨
    r = (a.threadPtr + kThreadStateOffset, 0x34)}

/-- The mode flags of the current context lie elsewhere. -/
def MirrorElsewhere (config : List RegionConfig) (m : Memory) (ts : List Word)
    (a : Arguments) : Prop :=
  ∀ r ∈ mirrorRange config m, ∀ w ∈ registeredWords ts a, r.Off config w

/-- All that a registration may write. -/
def createRanges (config : List RegionConfig) (m : Memory) (ts : List Word)
    (a : Arguments) : Set MemRange :=
  {r | r ∈ blockRanges a ∨ r ∈ listWords (a.threadPtr :: ts) ∨ r ∈ mirrorRange config m}

/-- The thread is registered. -/
structure Registered (config : List RegionConfig) (ts : List Word) (a : Arguments)
    (s s' : Machine Memory) : Prop where
  list : ActiveThreads config s'.mem (ts ++ [a.threadPtr])
  state : s'.mem.read16 (a.threadPtr + kThreadStateOffset) = some kThreadStateReady
  suspend : s'.mem.read32 (a.threadPtr + kThreadSuspendOffset) = some 1#32
  basePriority : s'.mem.read32 (a.threadPtr + kThreadBasePriorityOffset) = some a.priority
  priority : s'.mem.read32 (a.threadPtr + kThreadPriorityOffset) = some a.priority
  joinHead : s'.mem.read32 (a.threadPtr + kThreadJoinQueueOffset) = some 0#32
  joinTail : s'.mem.read32 (a.threadPtr + (kThreadJoinQueueOffset + 4#32)) = some 0#32
  mutex : s'.mem.read32 (a.threadPtr + kThreadMutexOffset) = some 0#32
  mutexHead : s'.mem.read32 (a.threadPtr + kThreadMutexQueueOffset) = some 0#32
  mutexTail : s'.mem.read32 (a.threadPtr + kThreadMutexTailOffset) = some 0#32
  flag : s'.interruptsEnabled = s.interruptsEnabled
  frame : ∀ (k : Width) (addr : Word),
    (∀ r ∈ createRanges config s.mem ts a, r.Off config (addr, k.bytes)) →
    s'.mem.read k addr = s.mem.read k addr

section

variable {config : List RegionConfig} {s : Machine Memory} {m : Memory} {ts : List Word}
  {a : Arguments} {cpu : CpuPtr}

/-- The part of OSCreateThread behind the checks. -/
def registerThread (cpu : CpuPtr) (a : Arguments) : OS Unit := do
  initializeBlock cpu a
  osDisableInterrupts cpu
  let irqState ← getGpr cpu 3
  linkActiveThread a.threadPtr
  restoreInterrupts cpu irqState
  let _ ← createFiber a.threadPtr a.entryFunc a.entryArg (a.alignedStack - 8#32) cpu
  setGpr cpu 3 1#32

theorem blockRanges_off_global (hfresh : FreshThread config ts a) {g : Word}
    (hg : g ∈ createGlobals) (hne : MemRange.Off config (kCurrentFpuContextAddr, 4) (g, 4)) :
    ∀ r ∈ blockRanges a, r.Off config (g, 4) := by
  rintro r (rfl | hr | rfl)
  · exact hfresh.globals _ List.mem_cons_self g hg
  · exact hfresh.stackGlobals r hr g hg
  · exact hne

theorem blockRanges_off_list (hc : Admissible config) (hfresh : FreshThread config ts a)
    (hmapped : ∀ t ∈ ts, (threadRange t).Mapped config) :
    ∀ w ∈ listWords ts, ∀ r ∈ blockRanges a, r.Off config w := by
  rintro _ ⟨w, hw, rfl⟩ r hr
  cases howner : w.owner with
  | none =>
    have hglobal := ListWord.global howner
    refine blockRanges_off_global hfresh hglobal ?_ r hr
    cases w with
    | head => exact apart_of_mod _ (by decide) (by decide) (by decide)
    | tail => exact apart_of_mod _ (by decide) (by decide) (by decide)
    | next t => cases howner
    | prev t => cases howner
  | some t =>
    have ht := ListWord.of_owner howner hw
    have hinside := ListWord.inside hc howner (hmapped t ht)
    have hmem := List.mem_cons_of_mem a.threadPtr ht
    apply hinside.off_right
    rcases hr with rfl | hr | rfl
    · exact (List.pairwise_cons.mp hfresh.blocks).1 t ht
    · exact hfresh.stackBlocks r hr t hmem
    · exact (hfresh.globals t hmem _ (by simp [createGlobals])).symm

/-- The words of the list do not reach the fields of the new thread. -/
theorem listWords_off_fields (hc : Admissible config) (hfresh : FreshThread config ts a)
    (hmapped : ∀ t ∈ a.threadPtr :: ts, (threadRange t).Mapped config) :
    ∀ r ∈ listWords (a.threadPtr :: ts),
      r.Off config (a.threadPtr + kThreadStateOffset, 0x34) := by
  have hblock := hmapped a.threadPtr List.mem_cons_self
  have hfields : MemRange.Inside (a.threadPtr + kThreadStateOffset, 0x34)
      (threadRange a.threadPtr) := part_inside hc hblock (by decide) (by decide)
  rintro _ ⟨w, hw, rfl⟩
  cases howner : w.owner with
  | none =>
    have hglobal := hfresh.globals _ List.mem_cons_self _ (ListWord.global howner)
    exact (hfields.off hglobal).symm
  | some t =>
    have ht := ListWord.of_owner howner hw
    by_cases hself : t = a.threadPtr
    · subst hself
      cases w with
      | head => cases howner
      | tail => cases howner
      | next t =>
        obtain rfl := Option.some_inj.mp howner
        exact parts_off hc hblock (by decide) (by decide) (by decide) (by decide) (by decide)
      | prev t =>
        obtain rfl := Option.some_inj.mp howner
        exact parts_off hc hblock (by decide) (by decide) (by decide) (by decide) (by decide)
    · have hoff := hfresh.blocks_off ht List.mem_cons_self hself
      exact hfields.off_right ((ListWord.inside hc howner (hmapped t ht)).off hoff)

/-- Nor the pointer to the current context. -/
theorem listWords_off_pointer (hc : Admissible config) (hfresh : FreshThread config ts a)
    (hmapped : ∀ t ∈ a.threadPtr :: ts, (threadRange t).Mapped config) :
    ∀ r ∈ listWords (a.threadPtr :: ts), r.Off config (kOSCurrentContextAddr, 4) := by
  rintro _ ⟨w, hw, rfl⟩
  cases howner : w.owner with
  | none =>
    cases w with
    | head => exact apart_of_mod _ (by decide) (by decide) (by decide)
    | tail => exact apart_of_mod _ (by decide) (by decide) (by decide)
    | next t => cases howner
    | prev t => cases howner
  | some t =>
    have ht := ListWord.of_owner howner hw
    exact (ListWord.inside hc howner (hmapped t ht)).off
      (hfresh.globals t ht _ (by simp [createGlobals]))

/-- Ranges away from the fields leave them. -/
theorem FieldsShown.of_off (hacc : Accepts config a) (hc : Admissible config) {m m' : Memory}
    {R : Set MemRange} (h : FieldsShown m a) (hm : Leaves config R m m')
    (hoff : ∀ r ∈ R, r.Off config (a.threadPtr + kThreadStateOffset, 0x34)) :
    FieldsShown m' a := by
  apply h.of_leaves hm
  intro e he r hr
  have hin := threadFields_inside _ _ e he
  have hpart : (e.under a.threadPtr).range.Inside (a.threadPtr + kThreadStateOffset, 0x34) := by
    rw [GuestStore.range_under]
    unfold MemRange.Inside
    have hblock : MemRange.Mapped config (a.threadPtr, 0x318) := hacc.block
    have hpos := e.range_pos
    have hstate : kThreadStateOffset.toNat = 0x2C8 := by decide
    rw [part_toNat hc hblock _ (by omega), part_toNat hc hblock _ (by omega)]
    simp only
    omega
  exact hpart.off_right (hoff r hr)

theorem FieldsShown.registered (h : FieldsShown m a) {s s' : Machine Memory} (hm : s'.mem = m)
    (hlist : ActiveThreads config m (ts ++ [a.threadPtr]))
    (hflag : s'.interruptsEnabled = s.interruptsEnabled)
    (hleaves : Leaves config (createRanges config s.mem ts a) s.mem m) :
    Registered config ts a s s' := by
  subst hm
  have hfield : ∀ e ∈ threadFields a.attributes a.priority,
    (e.under a.threadPtr).Shown s'.mem := h
  simp only [threadFields, List.forall_mem_cons, List.not_mem_nil, false_implies, implies_true,
    and_true] at hfield
  obtain ⟨hstate, _, hbase, hpriority, hsuspend, _, hmutex, hjoinTail, hjoinHead, hmutexTail,
    hmutexHead⟩ := hfield
  exact ⟨hlist, hstate, hsuspend, hbase, hpriority, hjoinHead, hjoinTail, hmutex, hmutexHead,
    hmutexTail, hflag, hleaves.frame⟩

/-- The list and the interrupt flag behind the initialized block. -/
theorem linkBetween_runs (hacc : Accepts config a) (hfresh : FreshThread config ts a)
    (hzero : a.threadPtr ≠ 0#32) (hcpu : cpu ≠ 0) (hs : Serves config s.mem)
    (hlist : ActiveThreads config s.mem ts) (helse : MirrorElsewhere config s.mem ts a)
    (hfields : FieldsShown s.mem a) :
    ∃ s', (do
        osDisableInterrupts cpu
        let irqState ← getGpr cpu 3
        linkActiveThread a.threadPtr
        restoreInterrupts cpu irqState : OS Unit) s = .ret () s' ∧
      s'.interruptsEnabled = s.interruptsEnabled ∧ FieldsShown s'.mem a ∧
      ActiveThreads config s'.mem (ts ++ [a.threadPtr]) ∧
      Leaves config {r | r ∈ listWords (a.threadPtr :: ts) ∨ r ∈ mirrorRange config s.mem}
        s.mem s'.mem := by
  have hc := hs.admissible
  have hmapped : ∀ t ∈ a.threadPtr :: ts, (threadRange t).Mapped config :=
    List.forall_mem_cons.mpr ⟨hacc.block, hlist.mapped⟩
  have hpointer : ∀ r ∈ mirrorRange config s.mem, r.Off config (kOSCurrentContextAddr, 4) :=
    fun r hr => helse r hr _ (Or.inr (Or.inl rfl))
  obtain ⟨m₁, hrun₁, hm₁⟩ := exchangeInterrupts_stores hs cpu false
  have hlist₁ : ActiveThreads config m₁ ts := by
    apply hlist.of_leaves hm₁
    rintro _ ⟨w, hw, rfl⟩ r hr
    refine helse r hr _ (Or.inl ⟨w, ?_, rfl⟩)
    cases w <;> simp_all [ListWord.Of]
  have hfields₁ : FieldsShown m₁ a :=
    hfields.of_off hacc hc hm₁ fun r hr => helse r hr _ (Or.inr (Or.inr rfl))
  have hmirror₁ : mirrorRange config m₁ = mirrorRange config s.mem :=
    mirrorRange_congr (hm₁.read32 hpointer)
  let s₁ : Machine Memory := exchanged s cpu false m₁
  have hs₁ : s₁.mem = m₁ := exchanged_mem s cpu false m₁
  have hirq : s₁.gpr cpu 3 = stateWord s.interruptsEnabled := by simp [s₁, exchanged, hcpu]
  obtain ⟨m₂, hrun₂, hm₂, hlist₂⟩ := linkActiveThread_runs (s := s₁) hacc hfresh hzero
    (hs₁ ▸ hm₁.serves) (hs₁ ▸ hlist₁)
  rw [hs₁] at hm₂
  have hfields₂ : FieldsShown m₂ a :=
    hfields₁.of_off hacc hc hm₂ (listWords_off_fields hc hfresh hmapped)
  have hmirror₂ : mirrorRange config m₂ = mirrorRange config s.mem :=
    (mirrorRange_congr (hm₂.read32 (listWords_off_pointer hc hfresh hmapped))).trans hmirror₁
  let s₂ : Machine Memory := (s₁.withMem m₂).setGpr cpu 3 (stateWord s.interruptsEnabled)
  obtain ⟨m₃, hrun₃, hm₃⟩ :=
    exchangeInterrupts_stores (s := s₂) hm₂.serves cpu s.interruptsEnabled
  have hm₃' : Leaves config (mirrorRange config s.mem) m₂ m₃ := hmirror₂ ▸ hm₃
  refine ⟨exchanged s₂ cpu s.interruptsEnabled m₃, ?_,
    exchanged_interruptsEnabled _ _ _ _, ?_, ?_,
    ?_⟩
  · unfold osDisableInterrupts restoreInterrupts osRestoreInterrupts
    have hr3 : s₂.gpr cpu 3 = stateWord s.interruptsEnabled := by simp [s₂]
    rw [Routine.bind_of hrun₁, Routine.bind_of (getGpr_apply cpu 3 s₁), Routine.bind_of hrun₂,
      Routine.ite_apply, if_neg hcpu, hirq, Routine.bind_of (setGpr_apply cpu 3 _ _)]
    have hback : decide (cpu ≠ 0 ∧ stateWord s.interruptsEnabled ≠ 0#32) =
        s.interruptsEnabled := by
      cases s.interruptsEnabled <;> simp [hcpu, stateWord]
    rw [Routine.bind_of (getGpr_apply cpu 3 s₂), hr3, hback]
    exact hrun₃
  · rw [exchanged_mem]
    exact hfields₂.of_off hacc hc hm₃' fun r hr => helse r hr _ (Or.inr (Or.inr rfl))
  · rw [exchanged_mem]
    apply hlist₂.of_leaves hm₃'
    rintro _ ⟨w, hw, rfl⟩ r hr
    refine helse r hr _ (Or.inl ⟨w, ?_, rfl⟩)
    cases w <;> simp_all [ListWord.Of, or_comm]
  · rw [exchanged_mem]
    have hleft : listWords (a.threadPtr :: ts) ⊆
        {r | r ∈ listWords (a.threadPtr :: ts) ∨ r ∈ mirrorRange config s.mem} :=
      fun _ => Or.inl
    have hright : mirrorRange config s.mem ⊆
        {r | r ∈ listWords (a.threadPtr :: ts) ∨ r ∈ mirrorRange config s.mem} :=
      fun _ => Or.inr
    exact ((hm₁.mono hright).trans (hm₂.mono hleft)).trans (hm₃'.mono hright)

/-- A thread that passes the checks is registered. -/
theorem registerThread_runs (hacc : Accepts config a) (hfresh : FreshThread config ts a)
    (hzero : a.threadPtr ≠ 0#32) (hcpu : cpu ≠ 0) (hs : Serves config s.mem)
    (hlist : ActiveThreads config s.mem ts) (helse : MirrorElsewhere config s.mem ts a) :
    ∃ s', registerThread cpu a s = .ret () s' ∧ s'.gpr cpu 3 = 1#32 ∧
      Serves config s'.mem ∧ Registered config ts a s s' := by
  have hc := hs.admissible
  obtain ⟨m₁, hrun₁, hm₁, hfields₁⟩ := initializeBlock_runs hacc hfresh hs cpu
  have hlist₁ : ActiveThreads config m₁ ts :=
    hlist.of_leaves hm₁ (blockRanges_off_list hc hfresh hlist.mapped)
  have hpointer : m₁.read32 kOSCurrentContextAddr = s.mem.read32 kOSCurrentContextAddr := by
    apply hm₁.read32
    apply blockRanges_off_global hfresh (by simp [createGlobals])
    exact apart_of_mod _ (by decide) (by decide) (by decide)
  have hmirror₁ : mirrorRange config m₁ = mirrorRange config s.mem := mirrorRange_congr hpointer
  have helse₁ : MirrorElsewhere config m₁ ts a := by
    unfold MirrorElsewhere
    rw [hmirror₁]
    exact helse
  obtain ⟨s₂, hrun₂, hflag₂, hfields₂, hlist₂, hm₂⟩ :=
    linkBetween_runs (s := s.withMem m₁) hacc
    hfresh hzero hcpu hm₁.serves hlist₁ helse₁ hfields₁
  obtain ⟨b, s₃, hrun₃, hmem₃, hflag₃⟩ :=
    createFiber_runs a.threadPtr a.entryFunc a.entryArg
    (a.alignedStack - 8#32) cpu s₂
  have hleaves : Leaves config (createRanges config s.mem ts a) s.mem s₂.mem := by
    refine (hm₁.mono fun _ => Or.inl).trans (hm₂.mono fun r hr => ?_)
    rcases hr with hr | hr
    · exact Or.inr (Or.inl hr)
    · exact Or.inr (Or.inr (hmirror₁ ▸ hr))
  refine ⟨s₃.setGpr cpu 3 1#32, ?_, by simp, hmem₃ ▸ hleaves.serves, ?_⟩
  · unfold registerThread
    rw [Routine.bind_of hrun₁]
    have hassoc : (do
        osDisableInterrupts cpu
        let irqState ← getGpr cpu 3
        linkActiveThread a.threadPtr
        restoreInterrupts cpu irqState
        let _ ← createFiber a.threadPtr a.entryFunc a.entryArg (a.alignedStack - 8#32) cpu
        setGpr cpu 3 1#32 : OS Unit) (s.withMem m₁) =
          ((do
            osDisableInterrupts cpu
            let irqState ← getGpr cpu 3
            linkActiveThread a.threadPtr
            restoreInterrupts cpu irqState : OS Unit) >>= fun _ => do
          let _ ← createFiber a.threadPtr a.entryFunc a.entryArg (a.alignedStack - 8#32) cpu
          setGpr cpu 3 1#32) (s.withMem m₁) := by
      simp only [Routine.bind_apply, Coop.bind_assoc]
    rw [hassoc, Routine.bind_of hrun₂, Routine.bind_of hrun₃]
    rfl
  · exact hfields₂.registered hmem₃ hlist₂ (hflag₃.trans hflag₂) hleaves

/-- OSCreateThread registers what passes the check, and gives 0 for the rest. -/
theorem osCreateThread_eq {ctx : CpuPtr} {b : Bool} (ha : arguments (s.cpus (cpuOf ctx)) = a)
    (hcheck : containsThreadAndStack a.threadPtr a.alignedStack a.stackTop a.stackSize s =
      .ret b s) :
    osCreateThread ctx s = if validPriority a.priority = true ∧ b = true then
      registerThread (cpuOf ctx) a s else .ret () (s.setGpr (cpuOf ctx) 3 0#32) := by
  unfold osCreateThread
  rw [Routine.bind_of (Routine.gets_apply _ s), ha, Routine.ite_apply]
  cases hpriority : validPriority a.priority with
  | false =>
    rw [if_pos rfl, if_neg (by simp)]
    rfl
  | true =>
    rw [if_neg (by simp), Routine.bind_of hcheck, Routine.ite_apply]
    cases b with
    | false =>
      rw [if_neg (by simp), if_neg (by simp)]
      rfl
    | true =>
      rw [if_pos rfl, if_pos ⟨rfl, rfl⟩]
      rfl

/-- OSCreateThread registers a thread that it accepts, and refuses all others without a trace. -/
theorem a_thread_is_registered_or_nothing_changes (hs : Serves config s.mem) {ctx : CpuPtr}
    (ha : arguments (s.cpus (cpuOf ctx)) = a) (hlist : ActiveThreads config s.mem ts)
    (hfresh : FreshThread config ts a) :
    (Accepts config a → MirrorElsewhere config s.mem ts a →
      ∃ s', osCreateThread ctx s = .ret () s' ∧ s'.gpr (cpuOf ctx) 3 = 1#32 ∧
        Registered config ts a s s') ∧
    (¬ Accepts config a →
      ∃ s', osCreateThread ctx s = .ret () s' ∧ s'.gpr (cpuOf ctx) 3 = 0#32 ∧
        s'.mem = s.mem ∧ s'.interruptsEnabled = s.interruptsEnabled) := by
  have hcpu := cpuOf_ne_zero ctx
  obtain ⟨b, hcheck, hb⟩ := check_iff hs hfresh hlist
  have hrun := osCreateThread_eq ha hcheck
  constructor
  · intro hacc helse
    obtain ⟨hyes, hpriority⟩ := hb.mpr hacc
    obtain ⟨fd, bk, _, hwords⟩ := hlist.linked
    have hhead := (hs.read32_isSome _).mp (Option.isSome_of_eq_some (hwords .head trivial))
    have hzero := hfresh.ne_zero hs.admissible hacc.block hhead
    rw [hrun, if_pos ⟨hpriority, hyes⟩]
    obtain ⟨s', hrun', hr3, _, hreg⟩ :=
      registerThread_runs hacc hfresh hzero hcpu hs hlist helse
    exact ⟨s', hrun', hr3, hreg⟩
  · intro hrej
    have hno : ¬ (validPriority a.priority = true ∧ b = true) := fun h => hrej (hb.mp h.symm)
    rw [hrun, if_neg hno]
    exact ⟨_, rfl, by simp, rfl, rfl⟩

end

/-! ## A thread of a Wii -/

/-- The arguments of a thread with a stack of a page below `0x80500000`. -/
def pageThread : Arguments :=
  ⟨0x80400000#32, 0x80500000#32, 7#32, 0x80500000#32, 0x1000#32, 16#32, 0#32⟩

def createMachine (m : Memory) : Machine Memory :=
  { bootMachine m with
    cpus := fun _ => (((((CpuContext.zero.setGpr 3 0x80400000#32).setGpr 4 0x80500000#32).setGpr 5
      7#32).setGpr 6 0x80500000#32).setGpr 7 0x1000#32).setGpr 8 16#32 }

theorem pageThread_accepted : Accepts wiiDefaults pageThread where
  priority := by decide
  block := lowMemory_mapped (by decide) (by decide)
  aligned := by decide
  top := lowMemory_mapped (by decide) (by decide)
  size := by decide
  bottom := lowMemory_mapped (by decide) (by decide)

theorem pageThread_fresh : FreshThread wiiDefaults [] pageThread where
  blocks := List.pairwise_singleton _ _
  globals := by
    simp only [List.forall_mem_cons, createGlobals, List.not_mem_nil, false_implies, implies_true,
      and_true]
    exact ⟨apart_of_mod _ (by decide) (by decide) (by decide),
      apart_of_mod _ (by decide) (by decide) (by decide),
      apart_of_mod _ (by decide) (by decide) (by decide),
      apart_of_mod _ (by decide) (by decide) (by decide)⟩
  stackBlocks := by
    simp only [List.forall_mem_cons, Arguments.stackWords, List.not_mem_nil, false_implies,
      implies_true, and_true]
    exact ⟨apart_of_mod _ (by decide) (by decide) (by decide),
      apart_of_mod _ (by decide) (by decide) (by decide)⟩
  stackGlobals := by
    simp only [List.forall_mem_cons, Arguments.stackWords, createGlobals, List.not_mem_nil,
      false_implies, implies_true, and_true]
    exact ⟨⟨apart_of_mod _ (by decide) (by decide) (by decide),
      apart_of_mod _ (by decide) (by decide) (by decide),
      apart_of_mod _ (by decide) (by decide) (by decide),
      apart_of_mod _ (by decide) (by decide) (by decide)⟩,
      apart_of_mod _ (by decide) (by decide) (by decide),
      apart_of_mod _ (by decide) (by decide) (by decide),
      apart_of_mod _ (by decide) (by decide) (by decide),
      apart_of_mod _ (by decide) (by decide) (by decide)⟩

/-- A booted Wii has no threads on its list. -/
theorem noThreads {m : Memory} (hhead : m.read32 kThreadListHeadAddr = some 0#32)
    (htail : m.read32 kThreadListTailAddr = some 0#32) : ActiveThreads wiiDefaults m [] where
  mapped := by simp
  linked := by
    refine ⟨fun _ => 0#32, fun _ => 0#32,
      ⟨⟨rfl, rfl⟩, List.nodup_singleton _⟩, fun w hw => ?_⟩
    cases w with
    | head => exact hhead
    | tail => exact htail
    | next t => cases hw
    | prev t => cases hw

/-- The first thread of a Wii. -/
theorem the_first_thread_is_registered : ∃ s s' : Machine Memory,
    osCreateThread 1 s = .ret () s' ∧ s'.gpr 1 3 = 1#32 ∧
      Registered wiiDefaults [] pageThread s s' := by
  obtain ⟨m, hm⟩ := Option.isSome_iff_exists.mp wiiBoot_isSome
  have hread : ∀ a : Word, 0x80000000 ≤ a.toNat → a.toNat + 4 ≤ 0x81800000 →
      m.read32 a = some 0#32 := fun a hlow hhigh =>
      wiiBoot_read hm .w32 (lowMemory_mapped hlow hhigh)
  have hpointer : m.read32 kOSCurrentContextAddr = some 0#32 := hread _ (by decide) (by decide)
  have helse : MirrorElsewhere wiiDefaults (createMachine m).mem [] pageThread := by
    rintro r ⟨c, hc, hne, _⟩
    exact absurd (Option.some_inj.mp (hc.symm.trans hpointer)) hne
  have hargs : arguments ((createMachine m).cpus (cpuOf 1)) = pageThread := rfl
  have hlaw := a_thread_is_registered_or_nothing_changes (s := createMachine m)
    (wiiBoot_serves hm) hargs (noThreads (hread _ (by decide) (by decide))
      (hread _ (by decide) (by decide))) pageThread_fresh
  obtain ⟨s', hrun, hr3, hreg⟩ := hlaw.1 pageThread_accepted helse
  exact ⟨_, s', hrun, hr3, hreg⟩

/-- A Wii whose current context has its mode flags over the state of the thread that
`pageThread` describes. -/
def spoiledBoot : Option Memory :=
  wiiBoot.bind fun m => m.write32 kOSCurrentContextAddr 0x80400126#32

/-- r3 and the state of the thread after OSCreateThread. -/
def spoiledThread : Option (Word × Option Half) :=
  spoiledBoot.bind fun m =>
    match osCreateThread 1 (createMachine m) with
    | .ret _ s => some (s.gpr 1 3, s.mem.read16 (pageThread.threadPtr + kThreadStateOffset))
    | _ => none

theorem spoiledThread_eq : spoiledThread = some (1#32, some 3#16) := by decide +kernel

/-- OSCreateThread gives 1 for an accepted thread, and the thread is not READY. -/
theorem a_registered_thread_is_not_ready : ∃ s s' : Machine Memory, Serves wiiDefaults s.mem ∧
    arguments (s.cpus 1) = pageThread ∧ ActiveThreads wiiDefaults s.mem [] ∧
    FreshThread wiiDefaults [] pageThread ∧ Accepts wiiDefaults pageThread ∧
    osCreateThread 1 s = .ret () s' ∧ s'.gpr 1 3 = 1#32 ∧
    s'.mem.read16 (pageThread.threadPtr + kThreadStateOffset) ≠ some kThreadStateReady := by
  have heq := spoiledThread_eq
  unfold spoiledThread spoiledBoot at heq
  obtain ⟨m', hboot, heq⟩ := Option.bind_eq_some_iff.mp heq
  obtain ⟨m, hm, hwrite⟩ := Option.bind_eq_some_iff.mp hboot
  have hread : ∀ a : Word, 0x80000000 ≤ a.toNat → a.toNat + 4 ≤ 0x81800000 →
      m.read32 a = some 0#32 := fun a hlow hhigh =>
      wiiBoot_read hm .w32 (lowMemory_mapped hlow hhigh)
  have hserves := wiiBoot_serves hm
  have hkeep : ∀ a : Word, 0x80000000 ≤ a.toNat → a.toNat + 4 ≤ 0x81800000 →
      Apart wiiDefaults kOSCurrentContextAddr.toNat 4 a.toNat 4 → m'.read32 a = some 0#32 :=
    fun a hlow hhigh hoff => (hserves.frame32 (k := .w32) hwrite hoff).trans (hread a hlow hhigh)
  have hlist : ActiveThreads wiiDefaults m' [] := noThreads
    (hkeep _ (by decide) (by decide) (apart_of_mod _ (by decide) (by decide) (by decide)))
    (hkeep _ (by decide) (by decide) (apart_of_mod _ (by decide) (by decide) (by decide)))
  split at heq
  case h_1 s' hrun =>
    obtain ⟨hr3, hstate⟩ := Prod.mk.inj (Option.some_inj.mp heq)
    refine ⟨createMachine m', s', hserves.write32 hwrite, rfl, hlist, pageThread_fresh,
      pageThread_accepted, hrun, hr3, ?_⟩
    rw [hstate]
    decide
  case h_2 => cases heq

end wii_switch
