-- OSCreateThread on views. It writes to the block of a thread that is not live, to the stack
-- of that thread and to the list of all threads, and so it leaves the scheduler of the live
-- threads in order.
import WiiSwitch.CreateThreadLaws
import WiiSwitch.HandOver

namespace wii_switch

open OS Routine CreateThread

/-! ## Cells that no live thread needs -/

/-- No live thread waits in the queue, and it is no run queue. -/
def Deserted (live : Set Word) (v : View) (q : Word) : Prop :=
  onRunQueueArray q = false ∧
    ∀ u ∈ live, v.state u = kThreadStateWaiting → v.word (.thread .queue u) ≠ q

/-- A cell that the scheduler of the live threads does not need. -/
def Cell.Loose (live : Set Word) (v : View) : Cell → Prop
  | .global a => a ≠ kSchedulerPendingFlagAddr ∧ a ≠ kOSRunningContextAddr ∧
    a ≠ kOSCurrentContextAddr
  | .head q => Deserted live v q
  | .tail q => Deserted live v q
  | .thread _ u => u ∉ live
  | .mutex _ _ => True
  | .word _ => True

/-- The views differ in loose cells and in the states of other threads at most, and the list of
all threads ends in a thread. -/
structure Undisturbed (L : Layout) (live : Set Word) (v w : View) : Prop where
  word : ∀ c : Cell, ¬ c.Loose live v → w.word c = v.word c
  state : ∀ u ∈ live, w.state u = v.state u
  tail : L.ThreadOrNone (w.word (.global kThreadListTailAddr))

section

variable {L : Layout} {live : Set Word} {v w : View} {W : Set Word} {ls : Word → List Word}
  {r t u q : Word} {c : Cell} {x : Word}

theorem Undisturbed.refl (h : L.ThreadOrNone (v.word (.global kThreadListTailAddr))) :
    Undisturbed L live v v := ⟨fun _ _ => rfl, fun _ _ => rfl, h⟩

theorem Undisturbed.put (h : Undisturbed L live v w) (hc : c.Loose live v)
    (hx : c = .global kThreadListTailAddr → L.ThreadOrNone x) :
    Undisturbed L live v (w.put c x) := by
  constructor
  · intro d hd
    rw [View.put_word, if_neg]
    · exact h.word d hd
    · rintro rfl
      exact hd hc
  · exact h.state
  · rw [View.put_word]
    split
    · rename_i heq
      exact hx heq.symm
    · exact h.tail

theorem Undisturbed.putState (h : Undisturbed L live v w) (ht : t ∉ live) (x : Half) :
    Undisturbed L live v (w.putState t x) := by
  constructor
  · exact h.word
  · intro u hu
    rw [View.putState_state, if_neg]
    · exact h.state u hu
    · rintro rfl
      exact ht hu
  · exact h.tail

/-- The scheduler of the live threads stays in order. -/
theorem Running.undisturbed (h : Running L live v W ls r) (hw : Undisturbed L live v w) :
    Running L live w {q | q ∈ W ∧ ¬ Deserted live v q} ls r := by
  have hglobal : ∀ a, a = kSchedulerPendingFlagAddr ∨ a = kOSRunningContextAddr ∨
      a = kOSCurrentContextAddr → w.word (.global a) = v.word (.global a) := by
    intro a ha
    apply hw.word
    rintro ⟨h1, h2, h3⟩
    rcases ha with ha | ha | ha
    · exact h1 ha
    · exact h2 ha
    · exact h3 ha
  have hthread : ∀ u ∈ live, ∀ f, w.word (.thread f u) = v.word (.thread f u) :=
    fun u hu f => hw.word _ fun hout => hout hu
  refine ⟨h.scheduled.congr (fun q hq => hq.1) ?_ ?_ ?_ hthread hw.state ?_ hw.tail ?_, h.live,
    ?_, ?_, ?_, ?_⟩
  · intro p
    refine ⟨h.scheduled.runs p, fun hd => ?_⟩
    rw [Deserted, runQueue_onArray] at hd
    cases hd.1
  · exact fun q hq => hw.word _ hq.2
  · exact fun q hq => hw.word _ hq.2
  · exact hglobal _ (Or.inl rfl)
  · intro u hu hwait hin
    exact ⟨hin, fun hd => hd.2 u hu hwait rfl⟩
  · exact (hglobal _ (Or.inr (Or.inl rfl))).trans h.running
  · exact (hglobal _ (Or.inr (Or.inr rfl))).trans h.current
  · exact (hw.state r h.live).trans h.state
  · exact (hthread r h.live _).trans h.suspend

/-- And with one more thread, which does not wait. -/
theorem Running.born (h : Running L live v W ls r) (ht : t ∈ L.threads)
    (hstate : v.state t ≠ kThreadStateWaiting) : Running L (insert t live) v W ls r :=
  ⟨h.scheduled.born ht hstate, Or.inr h.live, h.running, h.current, h.state, h.suspend⟩

end

/-! ## Stores beside the scheduler -/

/-- A store that leaves the live threads alone. -/
inductive Harmless (L : Layout) (live : Set Word) (v : View) : GuestStore → Prop
  | word {a : Word} (x : Word) : L.Clear a.toNat 4 → Harmless L live v (.word a x)
  | half {a : Word} (x : Half) : L.Clear a.toNat 2 → Harmless L live v (.half a x)
  | cell {c : Cell} {a : Word} (x : Word) : L.HasCell c → c.Loose live v →
    c ≠ .global kThreadListTailAddr → a = c.address → Harmless L live v (.word a x)

/-- What holds while the thread is made: its state is set, and the scheduler is as it was. -/
structure Making (L : Layout) (live : Set Word) (v : View) (t : Word) (w : View) : Prop where
  undisturbed : Undisturbed L live v w
  state : w.state t = kThreadStateReady

section

variable {L : Layout} {C : Coop.Contract (Machine Memory) Stop Away} {live : Set Word}
  {v w : View} {t : Word}

theorem goes_store {e : GuestStore} (he : Harmless L live v e) (h : Making L live v t w) :
    Goes L C (store e) w fun _ u => Making L live v t u := by
  cases he with
  | word x hclear => exact (runs_write_clear hclear x).goes h
  | half x hclear => exact (runs_write16_clear hclear x).goes h
  | cell x hc hloose hne ha =>
    apply (runs_write hc ha x).goes
    exact ⟨h.undisturbed.put hloose fun heq => absurd heq hne, h.state⟩

theorem goes_storeAll {stores : List GuestStore} (hs : ∀ e ∈ stores, Harmless L live v e)
    (h : Making L live v t w) :
    Goes L C (storeAll stores) w fun _ u => Making L live v t u := by
  induction stores generalizing w with
  | nil => exact goes_pure h
  | cons e rest ih =>
    refine goes_bind (goes_store (hs e List.mem_cons_self) h) ?_
    intro _ u hu
    exact ih (fun e he => hs e (List.mem_cons_of_mem _ he)) hu

/-- The stores to the block away from its fields are to no cell. -/
theorem OuterStore.harmless {e : GuestStore} (he : OuterStore t e) (hL : L.Sound)
    (ht : t ∈ L.threads) : Harmless L live v e := by
  obtain ⟨off, hstart, hoff⟩ := he
  have hclear : ∀ n, 0 < n → (off.toNat + n ≤ 0x2C8 ∨
      0x2FC ≤ off.toNat ∧ off.toNat + n ≤ kThreadSize) → L.Clear (t + off).toNat n := by
    intro n hn hoff
    apply hL.clear_offset ht _ hn
    · unfold OffThreadFields
      omega
    · unfold kThreadSize at hoff ⊢
      omega
  cases e with
  | half a x =>
    change a = t + off at hstart
    rw [hstart]
    exact .half x (hclear 2 (by decide) hoff)
  | word a x =>
    change a = t + off at hstart
    rw [hstart]
    exact .word x (hclear 4 (by decide) hoff)

end

/-! ## The new thread -/

/-- The block of the new thread is one of the layout and not live, nobody waits for the thread
to end, and its stack words and the word of the floating-point context are no cells. -/
structure Birth (L : Layout) (live : Set Word) (v : View) (a : Arguments) : Prop where
  thread : a.threadPtr ∈ L.threads
  dead : a.threadPtr ∉ live
  joins : Deserted live v (a.threadPtr + kThreadJoinQueueOffset)
  top : L.Clear (a.alignedStack - 8#32).toNat 4
  topSecond : L.Clear (a.alignedStack - 4#32).toNat 4
  bottom : L.Clear (a.stackTop - a.stackSize).toNat 4
  fpu : L.Clear kCurrentFpuContextAddr.toNat 4

section

variable {L : Layout} {C : Coop.Contract (Machine Memory) Stop Away} {live : Set Word}
  {v w : View} {a : Arguments}

theorem goes_threadStores (hL : L.Sound) (ha : Birth L live v a)
    (hv : L.ThreadOrNone (v.word (.global kThreadListTailAddr))) :
    Goes L C (storeAll (threadStores a.threadPtr a.attributes a.priority a.alignedStack)) v
      fun _ u => Making L live v a.threadPtr u := by
  have hjoin : L.IsQueue (a.threadPtr + kThreadJoinQueueOffset) :=
    Or.inr (Or.inl ⟨a.threadPtr, ha.thread, rfl⟩)
  have hfield : ∀ (f : ThreadField) (x : Word),
      Harmless L live v (.word (a.threadPtr + f.offset) x) :=
    fun f x => .cell (c := .thread f a.threadPtr) x ha.thread ha.dead (by simp) rfl
  have hclear : ∀ (off : Word) (n : Nat), 0 < n → off.toNat + n ≤ kThreadSize →
      OffThreadFields off.toNat n → L.Clear (a.threadPtr + off).toNat n :=
    fun off n hn hsize hoff => hL.clear_offset ha.thread hsize hn hoff
  unfold threadStores
  rw [storeAll]
  refine (runs_write_state ha.thread kThreadStateReady).then ?_
  apply goes_storeAll
  · simp only [List.forall_mem_cons, List.not_mem_nil, false_implies, implies_true, and_true]
    refine ⟨.half _ (hclear kThreadAttrOffset 2 (by decide) (by decide) ?_),
      hfield .basePriority _,
      hfield .priority _, hfield .suspend _,
      .word _ (hclear kThreadExitValueOffset 4 (by decide) (by decide) ?_),
      .word _ (hclear kThreadMutexOffset 4 (by decide) (by decide) ?_),
      .cell (c := .tail (a.threadPtr + kThreadJoinQueueOffset)) _ hjoin ha.joins (by simp) rfl,
      .cell (c := .head (a.threadPtr + kThreadJoinQueueOffset)) _ hjoin ha.joins (by simp) rfl,
      hfield .heldTail _, hfield .heldHead _, .word _ ha.top, .word _ ha.topSecond⟩
    all_goals
      unfold OffThreadFields
      decide
  · refine ⟨(Undisturbed.refl hv).putState ha.dead _, ?_⟩
    rw [View.putState_state, if_pos rfl]

theorem goes_dropFpuContext (ha : Birth L live v a) (h : Making L live v a.threadPtr w) :
    Goes L C (dropFpuContext a.threadPtr) w fun _ u => Making L live v a.threadPtr u := by
  unfold dropFpuContext
  refine goes_bind (goes_gets _) ?_
  rintro mapped w rfl
  split
  · refine goes_bind (goes_read32_clear ha.fpu) ?_
    rintro context w rfl
    split
    · exact goes_pure h
    · exact (runs_write_clear ha.fpu _).goes h
  · exact goes_pure h

theorem goes_initializeFpContext (hstop : ∀ e s, C.stops e s) (hL : L.Sound)
    (ha : Birth L live v a) (h : Making L live v a.threadPtr w) :
    Goes L C (initializeFpContext a.threadPtr) w fun _ u => Making L live v a.threadPtr u := by
  have hword : ∀ off : Word, off.toNat + 4 ≤ 0x2C8 → L.Clear (a.threadPtr + off).toNat 4 := by
    intro off hoff
    apply hL.clear_offset ha.thread _ (by decide)
    · unfold OffThreadFields
      omega
    · unfold kThreadSize
      omega
  have hflags := hL.clear_modeFlags ha.thread
  unfold initializeFpContext
  refine goes_bind (goes_gets _) ?_
  rintro mapped w rfl
  split
  · refine goes_bind (goes_read_any (fun e s _ => hstop e s) _) ?_
    rintro initialized w rfl
    split
    · exact goes_pure h
    refine goes_bind (goes_read32_clear (hword kContextSrr1Offset (by decide))) ?_
    rintro srr1 w rfl
    refine (runs_write_clear (hword kContextSrr1Offset (by decide)) _).then ?_
    refine goes_bind (goes_read16_clear hflags) ?_
    rintro state w rfl
    refine (runs_write16_clear hflags _).then ?_
    refine goes_bind (goes_gets _) ?_
    rintro source w rfl
    have hfp : ∀ w, Making L live v a.threadPtr w → Goes L C (storeAll (fpStores a.threadPtr)) w
        fun _ u => Making L live v a.threadPtr u :=
      fun w hw => goes_storeAll
        (fun e he => (fpRanges_outer (fpStores_part _ e he)).harmless hL ha.thread) hw
    unfold onlyIf
    split
    · refine goes_bind (R := fun _ u => Making L live v a.threadPtr u) ?_ fun _ => hfp
      refine goes_bind (goes_read_any (fun e s _ => hstop e s) _) ?_
      rintro attr w rfl
      exact (runs_write_clear (hword kContextFpscrOffset (by decide)) _).goes h
    · exact hfp _ h
  · exact goes_pure h

/-- The block of the new thread. -/
theorem goes_initializeBlock (hstop : ∀ e s, C.stops e s) (hL : L.Sound) (ha : Birth L live v a)
    (hv : L.ThreadOrNone (v.word (.global kThreadListTailAddr))) (cpu : CpuPtr) :
    Goes L C (initializeBlock cpu a) v fun _ u => Making L live v a.threadPtr u := by
  have houter : ∀ {stores : List GuestStore}, (∀ e ∈ stores, OuterStore a.threadPtr e) →
      ∀ e ∈ stores, Harmless L live v e := fun h e he => (h e he).harmless hL ha.thread
  unfold initializeBlock
  refine goes_bind (goes_threadStores hL ha hv) ?_
  intro _ w hw
  refine goes_bind (goes_gets _) ?_
  rintro r2 w rfl
  refine goes_bind (goes_gets _) ?_
  rintro r13 w rfl
  refine goes_bind (goes_storeAll (houter (outer_contextStores _ _ _ _ _)) hw) ?_
  intro _ w hw
  refine goes_bind (goes_dropFpuContext ha hw) ?_
  intro _ w hw
  refine goes_bind (goes_storeAll (houter (outer_thpStores _ _)) hw) ?_
  intro _ w hw
  refine goes_bind (goes_storeAll ?_ hw) ?_
  · have hpart : ∀ {off : Word} (x : Word), (off.toNat + 4 ≤ 0x2C8 ∨
        0x2FC ≤ off.toNat ∧ off.toNat + 4 ≤ kThreadSize) →
        Harmless L live v (.word (a.threadPtr + off) x) :=
      fun x hoff => (outer_word a.threadPtr x hoff).harmless hL ha.thread
    unfold stackStores
    simp only [List.forall_mem_cons, List.not_mem_nil, false_implies, implies_true, and_true]
    exact ⟨hpart _ (by decide), hpart _ (by decide), hpart _ (by decide), hpart _ (by decide),
      .word _ ha.bottom, hpart _ (by decide), hpart _ (by decide), hpart _ (by decide)⟩
  · intro _ w hw
    exact goes_initializeFpContext hstop hL ha hw

end

/-! ## The list of all threads and the fiber -/

section

variable {L : Layout} {C : Coop.Contract (Machine Memory) Stop Away} {live : Set Word}
  {v w : View} {W : Set Word} {ls : Word → List Word} {r t : Word} {a : Arguments}
  {s : Machine Memory}

/-- The thread goes to the end of the list of all threads. -/
theorem goes_linkActiveThread (hL : L.Sound) (ht : t ∈ L.threads) (h : Making L live v t w) :
    Goes L C (linkActiveThread t) w fun _ u => Making L live v t u := by
  have hhead : L.HasCell (.global kThreadListHeadAddr) := by
    show kThreadListHeadAddr ∈ kernelWords
    simp [kernelWords]
  have htail : L.HasCell (.global kThreadListTailAddr) := by
    show kThreadListTailAddr ∈ kernelWords
    simp [kernelWords]
  have hlink : ∀ u ∈ L.threads, ∀ off, off = kThreadListNextOffset ∨
    off = kThreadListPrevOffset →
      L.Clear (u + off).toNat 4 := by
    rintro u hu _ (rfl | rfl)
    · exact hL.clear_offset hu (by decide) (by decide) (by unfold OffThreadFields; decide)
    · exact hL.clear_offset hu (by decide) (by decide) (by unfold OffThreadFields; decide)
  have hbehind : ∃ x, Runs L (linkBehind (w.word (.global kThreadListTailAddr)) t) w x w := by
    unfold linkBehind
    split
    · exact ⟨t, runs_pure t⟩
    · rename_i hsome
      have hlast := h.undisturbed.tail.resolve_left hsome
      exact ⟨_, runs_bind (runs_write_clear (hlink _ hlast _ (Or.inl rfl)) t)
        (runs_read hhead rfl)⟩
  obtain ⟨newHead, hrun⟩ := hbehind
  unfold linkActiveThread
  refine (runs_read htail rfl).then ?_
  refine hrun.then ?_
  refine (runs_write hhead rfl newHead).then ?_
  refine (runs_write_clear (hlink t ht _ (Or.inr rfl)) _).then ?_
  refine (runs_write_clear (hlink t ht _ (Or.inl rfl)) _).then ?_
  apply (runs_write htail rfl t).goes
  have hkernel : kThreadListHeadAddr ≠ kThreadListTailAddr := by decide
  constructor
  · apply Undisturbed.put
    · apply h.undisturbed.put
      · exact ⟨by decide, by decide, by decide⟩
      · intro heq
        injection heq with heq
        exact absurd heq hkernel
    · exact ⟨by decide, by decide, by decide⟩
    · exact fun _ => Or.inr ht
  · exact h.state

/-- Which context is the current one does not change. -/
theorem Making.contextClear (h : Making L live v t w) (hc : L.ContextClear v.currentContext) :
    L.ContextClear w.currentContext := by
  have hsame : w.currentContext = v.currentContext := by
    apply h.undisturbed.word
    rintro ⟨_, _, hne⟩
    exact hne rfl
  rw [hsame]
  exact hc

/-- The thread is made, and the call gives 1. -/
theorem registerThread_meets (hstop : ∀ e s, C.stops e s) (hL : L.Sound) (ha : Birth L live v a)
    (hv : L.ThreadOrNone (v.word (.global kThreadListTailAddr)))
    (hc : L.ContextClear v.currentContext) (hs : Represents L s.mem v) (cpu : CpuPtr) :
    (registerThread cpu a s).Meets C fun _ s' => s'.gpr cpu 3 = 1#32 ∧
      ∃ w, Represents L s'.mem w ∧ Making L live v a.threadPtr w := by
  have hgoes : Goes L C (do
      initializeBlock cpu a
      osDisableInterrupts cpu
      let irqState ← getGpr cpu 3
      linkActiveThread a.threadPtr
      restoreInterrupts cpu irqState
      createFiber a.threadPtr a.entryFunc a.entryArg (a.alignedStack - 8#32) cpu) v
      fun _ u => Making L live v a.threadPtr u := by
    refine goes_bind (goes_initializeBlock hstop hL ha hv cpu) ?_
    intro _ w hw
    refine goes_bind (goes_exchangeInterrupts (hw.contextClear hc) cpu false) ?_
    rintro _ w rfl
    refine goes_bind (goes_gets _) ?_
    rintro irqState w rfl
    refine goes_bind (goes_linkActiveThread hL ha.thread hw) ?_
    intro _ w hw
    refine goes_bind (goes_restoreInterrupts (hw.contextClear hc) cpu irqState) ?_
    rintro _ w rfl
    intro s hs
    obtain ⟨b, s', hrun, hmem, _⟩ := createFiber_runs a.threadPtr a.entryFunc a.entryArg
      (a.alignedStack - 8#32) cpu s
    rw [hrun]
    exact ⟨w, hmem ▸ hs, hw⟩
  have hsplit : registerThread cpu a s = ((do
      initializeBlock cpu a
      osDisableInterrupts cpu
      let irqState ← getGpr cpu 3
      linkActiveThread a.threadPtr
      restoreInterrupts cpu irqState
      createFiber a.threadPtr a.entryFunc a.entryArg (a.alignedStack - 8#32) cpu : OS Bool) >>=
      fun _ => setGpr cpu 3 1#32) s := by
    unfold registerThread
    simp only [Routine.bind_apply, Coop.bind_assoc]
  rw [hsplit]
  refine Coop.meets_bind.mpr ((hgoes s hs).mono ?_)
  rintro _ s' ⟨w, hw, hmade⟩
  exact ⟨by simp, w, hw, hmade⟩

/-- OSCreateThread makes the thread and gives 1, or gives 0 and leaves the view. -/
theorem osCreateThread_meets (hstop : ∀ e s, C.stops e s) (hL : L.Sound) {ctx : CpuPtr}
    (ha : Birth L live v (arguments (s.cpus (cpuOf ctx))))
    (hv : L.ThreadOrNone (v.word (.global kThreadListTailAddr)))
    (hc : L.ContextClear v.currentContext) (hs : Represents L s.mem v) :
    (osCreateThread ctx s).Meets C fun _ s' =>
      (s'.gpr (cpuOf ctx) 3 = 1#32 ∧ ∃ w, Represents L s'.mem w ∧
        Making L live v (arguments (s.cpus (cpuOf ctx))).threadPtr w) ∨
      (s'.gpr (cpuOf ctx) 3 = 0#32 ∧ Represents L s'.mem v) := by
  rw [osCreateThread_eq rfl (containsThreadAndStack_apply hs.serves _ _ _ _)]
  split
  · exact (registerThread_meets hstop hL ha hv hc hs _).mono fun _ _ h => Or.inl h
  · exact Or.inr ⟨by simp, hs⟩

/-- The scheduler is in order with the new thread. -/
theorem Making.inOrder (h : Making L live v t w) (ht : t ∈ L.threads)
    (hv : InOrder L live v) : InOrder L (insert t live) w := by
  obtain ⟨W, ls, r, hr⟩ := hv
  refine ⟨_, ls, r, (hr.undisturbed h.undisturbed).born ht ?_⟩
  rw [h.state]
  decide

end

end wii_switch
