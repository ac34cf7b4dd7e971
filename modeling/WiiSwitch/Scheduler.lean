-- What SelectThread does to a view. The running thread goes back to its run queue;
-- the selected thread leaves its own; the running context and the current context
-- become the selected thread; and the machine is handed over to it.
import WiiSwitch.RunQueues

namespace wii_switch

open OS Routine Ring SelectThread

/-! ## The changes -/

namespace View

/-- The running thread `t` at the tail of the run queue of its priority `p`. -/
def requeue (v : View) (t : Word) (p : Fin 32) : View :=
  (((v.putState t kThreadStateReady).linkBefore (runQueue p) t 0#32).setMask
    (v.mask ||| pendingBit (level p))).put (.global kSchedulerReschedCounterAddr) 1#32

/-- The head `t` of the run queue of `p` out of its queue and running. -/
def take (v : View) (p : Fin 32) (t : Word) : View :=
  (((v.unlink (runQueue p) t).clearEmpty (runQueue p)).put (.thread .queue t) 0#32).putState t
    kThreadStateRunning

/-- The context `t` as the current one. -/
def setCurrent (v : View) (t : Word) : View :=
  (v.put (.global kOSPhysicalContextAddr) (t &&& 0x3FFFFFFF#32)).put
    (.global kOSCurrentContextAddr) t

/-- The context `t` as the running and the current one. -/
def publish (v : View) (t : Word) : View := (v.put (.global kOSRunningContextAddr) t).setCurrent t

/-- No switch is forced, and no pending priority is smaller than that of `t`. -/
def keeps (v : View) (t force : Word) : Bool :=
  force = 0#32 ∧ (v.word (.thread .priority t)).toInt ≤
    (if v.mask = 0#32 then 32#32 else ppcCntlzw v.mask).toInt

theorem requeue_plain {v : View} {t : Word} {p : Fin 32} {c : Cell} (hc : c.Plain)
    (hq : c ≠ .thread .queue t) (hmask : c ≠ .global kSchedulerPendingFlagAddr)
    (hcount : c ≠ .global kSchedulerReschedCounterAddr) : (v.requeue t p).word c = v.word c := by
  rw [requeue, put_word, if_neg hcount, setMask_word hmask, linkBefore_plain hc hq]
  rfl

theorem requeue_global {v : View} {t : Word} {p : Fin 32} {a : Word}
    (ha : a ≠ kSchedulerPendingFlagAddr) (ha' : a ≠ kSchedulerReschedCounterAddr) :
    (v.requeue t p).word (.global a) = v.word (.global a) :=
  requeue_plain (c := .global a) trivial (by simp) (by simpa using ha) (by simpa using ha')

theorem take_plain {v : View} {t : Word} {p : Fin 32} {c : Cell} (hc : c.Plain)
    (hq : c ≠ .thread .queue t) (hmask : c ≠ .global kSchedulerPendingFlagAddr) :
    (v.take p t).word c = v.word c := by
  rw [take, putState_word, put_word, if_neg hq, clearEmpty_word hmask, unlink_plain hc]

theorem take_global {v : View} {t : Word} {p : Fin 32} {a : Word}
    (ha : a ≠ kSchedulerPendingFlagAddr) : (v.take p t).word (.global a) = v.word (.global a) :=
  take_plain (c := .global a) trivial (by simp) (by simpa using ha)

/-- The mask loses the bit of `p` when no thread is left there. -/
theorem take_maskBit {v : View} {t : Word} {p : Fin 32} {xs : List Word}
    (h : v.Queue (runQueue p) (t :: xs)) (p' : Fin 32) :
    maskBit (v.take p t).mask p' = (maskBit v.mask p' && !decide (p' = p ∧ xs = [])) := by
  have hmask : (v.take p t).mask = ((v.unlink (runQueue p) t).clearEmpty (runQueue p)).mask := by
    rw [take, mask, putState_word, put_word, if_neg (by simp)]
    rfl
  have hhead : (v.unlink (runQueue p) t).word (.head (runQueue p)) = 0#32 ↔ xs = [] := by
    rw [← List.nil_append (t :: xs)] at h
    exact (h.unlink (w := v.unlink (runQueue p) t) (fun _ _ => rfl) fun _ _ => rfl).empty_iff
  have hold : (v.unlink (runQueue p) t).mask = v.mask :=
    unlink_plain (c := .global kSchedulerPendingFlagAddr) trivial
  rw [hmask, clearEmpty_maskBit, hold]
  simp only [hhead]

end View

/-! ## The running thread -/

section

variable {L : Layout} {C : Coop.Contract (Machine Memory) Stop Away} {v w : View} {t : Word}
  {p : Fin 32}

theorem sees_keepsRunning (ht : t ∈ L.threads) (force : Word) :
    Sees L (keepsRunning t force) v (v.keeps t force) := by
  refine sees_bind (sees_read (c := .global kSchedulerPendingFlagAddr) pendingFlag_mem rfl) ?_
  by_cases hf : force = 0#32
  · rw [if_neg (by simpa using hf)]
    refine sees_bind (sees_read (c := .thread .priority t) ht rfl) ?_
    rw [View.keeps, Bool.decide_and, decide_eq_true hf, Bool.true_and]
    exact sees_pure _
  · rw [if_pos hf]
    rw [View.keeps, Bool.decide_and, decide_eq_false hf, Bool.false_and]
    exact sees_pure false

theorem writes_requeueRunning (ht : t ∈ L.threads)
    (hp : v.word (.thread .priority t) = level p)
    (htail : L.ThreadOrNone (v.word (.tail (runQueue p)))) :
    Writes L (requeueRunning t) v () (v.requeue t p) := by
  have hvalid : validPriority (level p) = true := (validPriority_iff _).mpr ⟨p, rfl⟩
  refine writes_bind (writes_read (c := .thread .priority t) ht rfl) ?_
  rw [hp, hvalid, if_neg (by decide)]
  refine writes_bind (writes_write_state ht _) ?_
  refine writes_bind (writes_linkThreadOnRunQueue hvalid (isQueue_runQueue L p) ht htail) ?_
  refine (writes_markRunQueuePending p).to ?_
  have hmask : ((v.putState t kThreadStateReady).linkBefore (runQueue p) t 0#32).mask = v.mask :=
    View.linkBefore_plain (c := .global kSchedulerPendingFlagAddr) trivial (by simp)
  rw [show runQueueOf (level p) = runQueue p from rfl, hmask]
  rfl

/-- A priority without a run queue is a boundary. -/
theorem goes_requeueRunning_stop (ht : t ∈ L.threads)
    (hp : validPriority (v.word (.thread .priority t)) = false)
    (hstop : ∀ kind a s, Represents L s.mem v → C.stops (.boundary kind a) s)
    {Q : Unit → View → Prop} :
    Goes L C (requeueRunning t) v Q := by
  refine (runs_read (c := .thread .priority t) ht rfl).then ?_
  rw [if_pos hp]
  exact goes_stop fun s hs => hstop _ _ s hs

/-- The running thread goes on. -/
theorem sees_keepsOrRequeues (ht : t ∈ L.threads) (hrun : v.state t = kThreadStateRunning)
    {force : Word} (hkeep : v.keeps t force = true) : Sees L (keepsOrRequeues t force) v true := by
  refine sees_bind (sees_read_state ht) ?_
  rw [hrun, if_neg (by simp)]
  refine sees_bind (sees_keepsRunning ht force) ?_
  rw [hkeep, if_pos rfl]
  exact sees_pure true

/-- The running thread is queued again. -/
theorem writes_keepsOrRequeues (ht : t ∈ L.threads) (hrun : v.state t = kThreadStateRunning)
    {force : Word} (hkeep : v.keeps t force = false) (hp : v.word (.thread .priority t) = level p)
    (htail : L.ThreadOrNone (v.word (.tail (runQueue p)))) :
    Writes L (keepsOrRequeues t force) v false (v.requeue t p) := by
  refine writes_bind (sees_read_state ht).writes ?_
  rw [hrun, if_neg (by simp)]
  refine writes_bind (sees_keepsRunning ht force).writes ?_
  rw [hkeep, if_neg (by decide)]
  exact writes_bind (writes_requeueRunning ht hp htail) (writes_pure false)

/-- A thread that does not run is not queued. -/
theorem sees_keepsOrRequeues_other (ht : t ∈ L.threads) (hrun : v.state t ≠ kThreadStateRunning)
    (force : Word) : Sees L (keepsOrRequeues t force) v false := by
  refine sees_bind (sees_read_state ht) ?_
  rw [if_pos hrun]
  exact sees_pure false

theorem sees_mappedRunning (hL : L.Sound) (ht : t ∈ L.threads) :
    Sees L (mappedRunning t) v true := by
  refine sees_bind (sees_mapped_state ht) ?_
  rw [if_pos rfl]
  refine sees_bind (sees_mapped (c := .thread .priority t) ht rfl) ?_
  rw [if_pos rfl]
  exact sees_mapped16_clear (hL.clear_modeFlags ht)

/-- SelectThread on a running thread, from the place where that thread leaves. -/
theorem selectThread_leave (hL : L.Sound) {s : Machine Memory} (hs : Represents L s.mem v)
    (hidle : v.word (.global kSchedulerIdleFlagAddr) = 0#32) (hrun : v.runningContext = t)
    (hcur : v.currentContext = t) (ht : t ∈ L.threads) (fuel : Nat) (ctx : CpuPtr) :
    selectThread fuel ctx s = (do
      if ← keepsOrRequeues t (s.gpr (cpuOf ctx) 3) then return ← setGpr (cpuOf ctx) 3 0#32
      unless ← saveContext (cpuOf ctx) t do return ← setGpr (cpuOf ctx) 3 0#32
      switchThread fuel (cpuOf ctx) t) s := by
  have hcells : ∀ a ∈ [kSchedulerIdleFlagAddr, kOSCurrentContextAddr, kOSRunningContextAddr,
      kSchedulerPendingFlagAddr, kSchedulerReschedCounterAddr],
      ∃ c, L.HasCell c ∧ a = c.address := fun a ha => by
    refine ⟨.global a, ?_, rfl⟩
    show a ∈ kernelWords
    revert ha
    simp only [kernelWords, List.mem_cons, List.not_mem_nil, or_false]
    tauto
  have hidleRead := sees_global (L := L) (v := v) (a := kSchedulerIdleFlagAddr)
    (by simp [kernelWords])
  have hcurRead := sees_global (L := L) (v := v) currentContext_mem
  have hrunRead := sees_global (L := L) (v := v) runningContext_mem
  have ht0 := hL.thread_ne_zero ht
  unfold selectThread
  rw [bind_of (getGpr_apply ..), bind_of (sees_allMapped hcells s hs),
    Routine.ite_apply, if_pos rfl,
    bind_of (hidleRead s hs), hidle, Routine.ite_apply, if_neg (by decide), bind_of (hcurRead s hs),
    bind_of (hrunRead s hs)]
  rw [show v.word (.global kOSCurrentContextAddr) = t from hcur,
    show v.word (.global kOSRunningContextAddr) = t from hrun, Routine.ite_apply,
    if_neg (fun h => ht0 h.1), Routine.ite_apply, if_neg (not_not.mpr rfl)]
  unfold leaveRunning
  rw [if_neg ht0, bind_apply, bind_of (sees_mappedRunning hL ht s hs),
    Routine.ite_apply, if_pos rfl,
    bind_apply, Coop.bind_assoc, bind_apply]
  congr 1
  funext b s'
  cases b <;> rfl

theorem gpr3_restoreNonvolatile (record : RawDispatchRecord) (old : CpuContext) (cpu : CpuPtr)
    (s : Machine Memory) : (s.onCpu cpu (restoreNonvolatile record old)).gpr cpu
      3 = s.gpr cpu 3 := by
  simp [Machine.gpr, Machine.onCpu, restoreNonvolatile]

/-- A target without an entry is not called. -/
theorem goes_tryDispatchIndirect {away : Word → CpuPtr → Away} {target : Word} {cpu : CpuPtr}
    (hcpu : cpu ≠ 0) {Q : Bool → View → Prop} (hnone : Q false v)
    (hguar : ∀ s, Represents L s.mem v → C.guar (away target cpu) s)
    (hrely : ∀ s s', Represents L s.mem v → C.rely (away target cpu) s s' →
      ∃ w, Represents L s'.mem w ∧ Q true w) :
    Goes L C (tryDispatchIndirect away target cpu) v Q := by
  intro s hs
  unfold tryDispatchIndirect
  rw [if_neg hcpu]
  cases hd : s.dispatch target with
  | none =>
    simp only [bind_apply, gets_apply, Coop.bind_ret, hd, pure_apply, Coop.meets_ret]
    exact ⟨v, hs, hnone⟩
  | some record =>
    simp only [bind_apply, gets_apply, Coop.bind_ret, hd, call_apply, Coop.bind_call, onCpu_apply,
      pure_apply, Coop.meets_call, Coop.meets_ret]
    exact ⟨hguar s hs, fun s' hs' => hrely s s' hs hs'⟩

/-- The scheduler saves the context of the thread, or goes on without. -/
theorem goes_saveContext (hL : L.Sound) {cpu : CpuPtr} (hcpu : cpu ≠ 0) (ht : t ∈ L.threads)
    {Q : Bool → View → Prop} (hskip : Q true v)
    (hmiss : ∀ s, Represents L s.mem v →
      C.stops (.boundary "INDIRECT_CALL_MISS" kOSSaveContextAddress) s)
    (hguar : ∀ s, Represents L s.mem v → C.guar (.guest kOSSaveContextAddress cpu) s)
    (hrely : ∀ s s', Represents L s.mem v → C.rely (.guest kOSSaveContextAddress cpu) s s' →
      ∃ w, Represents L s'.mem w ∧ Q (s'.gpr cpu 3 = 0#32) w) :
    Goes L C (saveContext cpu t) v Q := by
  refine goes_bind (goes_read16_clear (hL.clear_modeFlags ht)) ?_
  rintro mode _ rfl
  split
  · exact goes_pure hskip
  refine goes_bind (goes_setGpr cpu 3 t) ?_
  rintro _ _ rfl
  intro s hs
  unfold invokeIndirectCpu tryDispatchIndirect
  rw [if_neg hcpu]
  cases hd : s.dispatch kOSSaveContextAddress with
  | none => simpa [hd, boundary] using hmiss s hs
  | some record =>
    simp only [bind_apply, gets_apply, Coop.bind_ret, hd, call_apply, Coop.bind_call, onCpu_apply,
      pure_apply, if_true, getGpr_apply, Coop.meets_call, Coop.meets_ret, gpr3_restoreNonvolatile]
    refine ⟨hguar s hs, fun s' hs' => ?_⟩
    exact hrely s s' hs hs'

/-! ## The selection -/

/-- The lowest pending priority has a thread that has not ended at its head. -/
theorem runs_select (hp : ppcCntlzw v.mask = level p) (hmask : v.mask ≠ 0#32) {xs : List Word}
    (h : v.Queue (runQueue p) (t :: xs)) (ht : t ∈ L.threads)
    (hlive : v.state t ≠ 0#16 ∧ v.state t ≠ kThreadStateMoribund) {fuel : Nat}
    (hfuel : 0 < fuel) :
    Runs L (select fuel) v ⟨level p, runQueue p, t, v.mask⟩
      (v.put (.global kSchedulerReschedCounterAddr) 0#32) := by
  obtain ⟨fuel, rfl⟩ := Nat.exists_eq_add_of_lt hfuel
  refine runs_bind runs_read_mask ?_
  rw [if_neg hmask]
  refine runs_bind (Writes.runs (writes_write_resched 0#32)) ?_
  rw [Nat.zero_add, selectionLoop, if_neg hmask, hp]
  have hle : ¬ level p > 31#32 := by
    rw [gt_iff_lt, BitVec.lt_def, level_toNat]
    simp only [BitVec.toNat_ofNat]
    omega
  have hq : L.IsQueue (runQueue p) := isQueue_runQueue L p
  rw [if_neg hle]
  have hread := runs_read (v := v.put (.global kSchedulerReschedCounterAddr) 0#32)
    (c := .head (runQueue p)) hq rfl
  rw [View.put_word, if_neg (by simp), h.head_eq, first_cons] at hread
  refine runs_bind hread ?_
  rw [if_neg (h.ne_zero List.mem_cons_self)]
  refine runs_bind (runs_read_state ht) ?_
  rw [View.put_state, if_neg (by simpa using hlive)]
  exact runs_pure _

theorem runs_takeThread {xs : List Word} (h : v.Queue (runQueue p) (t :: xs))
    (hxs : ∀ x ∈ t :: xs, x ∈ L.threads) :
    Runs L (takeThread ⟨level p, runQueue p, t, v.mask⟩) v () (v.take p t) := by
  have ht := hxs t List.mem_cons_self
  refine runs_bind (runs_popThreadQueueHead (isQueue_runQueue L p) h hxs) ?_
  refine runs_bind (a := ()) (w := (v.unlink (runQueue p) t).clearEmpty (runQueue p)) ?_ ?_
  · have hhead : (v.unlink (runQueue p) t).word (.head (runQueue p)) = first xs 0#32 := by
      have := View.unlink_nextOf v (runQueue p) t (runQueue p) 0#32
      rw [h.prevOf_head, if_pos ⟨rfl, fun _ => rfl⟩, h.nextOf_head] at this
      exact this
    have hmask : (v.unlink (runQueue p) t).mask = v.mask :=
      View.unlink_plain (c := .global kSchedulerPendingFlagAddr) trivial
    rw [View.clearEmpty, hhead, runQueue_onArray, runQueue_index, hmask]
    refine runs_onlyIf (fun hc => ?_) fun hc => ?_
    · rw [if_pos ⟨rfl, of_decide_eq_true hc⟩]
      exact Writes.runs (writes_write_mask _)
    · rw [if_neg fun h => of_decide_eq_false hc h.2]
  · exact runs_bind (runs_write (c := .thread .queue t) ht rfl _) (runs_write_state ht _)

/-! ## The publication -/

theorem goes_setCurrentContext (hL : L.Sound) {cpu : CpuPtr} (hcpu : cpu ≠ 0)
    (ht : t ∈ L.threads) :
    Goes L C (do
      setGpr cpu 3 t
      osSetCurrentContext cpu) v fun _ w => w = v.setCurrent t := by
  intro s hs
  have hcur : L.HasCell (.global kOSCurrentContextAddr) := currentContext_mem
  have hphys : L.HasCell (.global kOSPhysicalContextAddr) := by
    show kOSPhysicalContextAddr ∈ kernelWords
    simp [kernelWords]
  have hs' : Represents L (s.setGpr cpu 3 t).mem v := hs
  have hr3 : (s.setGpr cpu 3 t).gpr cpu 3 = t := by simp
  have hrest : Goes L C (do
      unless ← contains kOSPhysicalContextAddr 4#64 do return ()
      unless ← contains kOSCurrentContextAddr 4#64 do return ()
      if t = 0#32 then
        write32 kOSPhysicalContextAddr 0#32
        write32 kOSCurrentContextAddr 0#32
        return ()
      write32 kOSPhysicalContextAddr (t &&& 0x3FFFFFFF#32)
      write32 kOSCurrentContextAddr t
      mirrorContext cpu t) v fun _ w => w = v.setCurrent t := by
    refine (runs_contains hphys rfl).then ?_
    rw [if_pos rfl]
    refine (runs_contains hcur rfl).then ?_
    rw [if_pos rfl, if_neg (hL.thread_ne_zero ht)]
    refine (runs_write hphys rfl _).then ((runs_write hcur rfl _).then ?_)
    exact goes_mirrorContext hL ht (by simp [View.currentContext]) cpu
  rw [bind_of (setGpr_apply ..)]
  unfold osSetCurrentContext
  rw [Routine.ite_apply, if_neg hcpu, bind_of (isInitialized_apply _), hs'.initialized,
    Routine.ite_apply, if_pos rfl, bind_of (getGpr_apply ..), hr3]
  exact hrest _ hs'

/-- The callback leaves the view, or there is none. -/
theorem goes_publish (hL : L.Sound) {cpu : CpuPtr} (hcpu : cpu ≠ 0) (ht : t ∈ L.threads)
    (old : Word)
    (hguar : ∀ s, v.callback ≠ 0#32 → Represents L s.mem v →
      C.guar (.guest v.callback cpu) s)
    (hrely : ∀ s s', v.callback ≠ 0#32 → Represents L s.mem v →
      C.rely (.guest v.callback cpu) s s' → Represents L s'.mem v) :
    Goes L C (publish cpu old t) v fun _ w => w = v.publish t := by
  have hcb : L.HasCell (.global kSwitchThreadCallbackPtrAddr) := by
    show kSwitchThreadCallbackPtrAddr ∈ kernelWords
    simp [kernelWords]
  have hrun : L.HasCell (.global kOSRunningContextAddr) := runningContext_mem
  refine goes_bind (R := fun _ w => w = v) ?_ ?_
  · unfold tryInvokeSwitchCallback
    rw [if_neg hcpu]
    refine (runs_mapped hcb rfl).then ?_
    rw [if_pos rfl]
    refine (runs_read hcb rfl).then ?_
    split
    · exact goes_pure rfl
    rename_i hnonnull
    refine goes_bind (goes_setGpr cpu 3 old) ?_
    rintro _ v rfl
    refine goes_bind (goes_setGpr cpu 4 t) ?_
    rintro _ v rfl
    refine goes_bind (R := fun _ w => w = v) ?_ fun _ _ hw => goes_pure hw
    refine goes_tryDispatchIndirect hcpu rfl (fun s hs => hguar s hnonnull hs) ?_
    exact fun s s' hs hs' => ⟨v, hrely s s' hnonnull hs hs', rfl⟩
  rintro _ _ rfl
  refine (runs_write hrun rfl t).then ?_
  exact goes_setCurrentContext hL hcpu ht

end

/-! ## The hand-over -/

/-- What a contract must allow for the machine to be handed over with the view `v`; `Q`
holds of the view when the machine comes back. -/
structure HandsOver (L : Layout) (C : Coop.Contract (Machine Memory) Stop Away) (v : View)
    (Q : View → Prop) : Prop where
  stops : ∀ kind a s, Represents L s.mem v → C.stops (.boundary kind a) s
  guar_jump : ∀ a c s, Represents L s.mem v → C.guar (.jump a c) s
  guar_host : ∀ h s, Represents L s.mem v → C.guar (.host h) s
  jump : ∀ a c s s', Represents L s.mem v → C.rely (.jump a c) s s' →
    ∃ w, Represents L s'.mem w ∧ ∀ kind a s'', Represents L s''.mem w →
      C.stops (.boundary kind a) s''
  host : ∀ h s s', Represents L s.mem v → C.rely (.host h) s s' → ∃ w,
    Represents L s'.mem w ∧ Q w
  stay : Q v

section

variable {L : Layout} {C : Coop.Contract (Machine Memory) Stop Away} {v w : View} {t : Word}
  {Q : View → Prop} {cpu : CpuPtr}

/-- A read of a word of a thread, be it a cell or not. -/
theorem goes_read_thread (hL : L.Sound) (ht : t ∈ L.threads) {i : Nat}
    (hi : i + 4 ≤ kThreadSize) :
    Goes L C (read32 (t + BitVec.ofNat 32 i)) v fun _ w => w = v := by
  intro s hs
  have hadd : (t + BitVec.ofNat 32 i).toNat = t.toNat + i :=
    hL.toNat_add (b := .thread t) ht (lt_of_lt_of_le (by omega) hi)
  have hmapped : InOneRegion L.config (t + BitVec.ofNat 32 i).toNat 4 :=
    hadd ▸ hL.range_mapped (b := .thread t) ht hi
  obtain ⟨x, hx⟩ := hs.serves.read32_some hmapped
  rw [read32_ret hx]
  exact ⟨v, hs, rfl⟩

theorem goes_loadGprs (hL : L.Sound) (ht : t ∈ L.threads) (is : List (Fin 32)) :
    Goes L C (loadGprs cpu t is) v fun _ w => w = v := by
  induction is with
  | nil => exact goes_pure rfl
  | cons i is ih =>
    refine goes_bind (goes_read_thread hL ht (by unfold kThreadSize; omega)) ?_
    rintro x v rfl
    refine goes_bind (goes_setGpr cpu i x) ?_
    rintro _ v rfl
    exact ih

theorem goes_loadGqrs (hL : L.Sound) (ht : t ∈ L.threads) (is : List (Fin 8)) :
    Goes L C (loadGqrs cpu t is) v fun _ w => w = v := by
  induction is with
  | nil => exact goes_pure rfl
  | cons i is ih =>
    have haddress : t + kContextGqrOffset + BitVec.ofNat 32 (4 * i) =
        t + BitVec.ofNat 32 (0x1A4 + 4 * i) := by
      rw [BitVec.add_assoc, BitVec.ofNat_add]
      rfl
    unfold loadGqrs
    rw [haddress]
    refine goes_bind (goes_read_thread hL ht (by unfold kThreadSize; omega)) ?_
    rintro x v rfl
    refine goes_bind (goes_modify fun _ => rfl) ?_
    rintro _ v rfl
    exact ih

theorem goes_loadContextRegisters (hL : L.Sound) (ht : t ∈ L.threads) (srr0 : Word) :
    Goes L C (loadContextRegisters cpu t srr0) v fun _ w => w = v := by
  have hmode := hL.clear_modeFlags ht
  refine goes_bind (goes_loadGprs hL ht _) ?_
  rintro _ v rfl
  refine goes_bind (goes_read_thread hL ht (i := 0x80) (by decide)) ?_
  rintro cr v rfl
  refine goes_bind (goes_read_thread hL ht (i := 0x84) (by decide)) ?_
  rintro lr v rfl
  refine goes_bind (goes_read_thread hL ht (i := 0x88) (by decide)) ?_
  rintro ctr v rfl
  refine goes_bind (goes_read_thread hL ht (i := 0x8C) (by decide)) ?_
  rintro xer v rfl
  refine goes_bind (goes_modify fun _ => rfl) ?_
  rintro _ v rfl
  refine goes_bind (goes_modify fun _ => rfl) ?_
  rintro _ v rfl
  refine goes_bind (goes_loadGqrs hL ht _) ?_
  rintro _ v rfl
  refine goes_bind (R := fun _ w => w = v) ?_ ?_
  · refine goes_bind (goes_read16_clear hmode) ?_
    rintro mode v rfl
    unfold onlyIf
    split
    · exact (runs_write16_clear hmode _).goes rfl
    · exact goes_pure rfl
  rintro _ v rfl
  refine goes_bind (goes_read_thread hL ht (i := 0x19C) (by decide)) ?_
  rintro srr1 v rfl
  exact goes_modify fun _ => rfl

/-- The fallback never comes back. -/
theorem goes_osLoadContext (hL : L.Sound) (hcpu : cpu ≠ 0) (ht : t ∈ L.threads)
    (h : HandsOver L C v Q) {R : Unit → View → Prop} :
    Goes L C (do
      setGpr cpu 3 t
      osLoadContext cpu) v R := by
  have hcpu' : cpuOf cpu = cpu := if_pos hcpu
  have hrest : Goes L C (do
      let srr0 ← read32 (t + kContextSrr0Offset)
      if srr0 = 0#32 then
        return ← boundary "OSLOADCONTEXT_NULL_SRR0" kOSLoadContextAddress
      loadContextRegisters cpu t srr0
      invokeIndirectJump srr0 cpu
      boundary "OSLOADCONTEXT_TARGET_RETURNED" srr0) v R := by
    refine goes_bind (goes_read_thread hL ht (i := 0x198) (by decide)) ?_
    rintro srr0 v rfl
    split
    · exact goes_stop fun s hs => h.stops _ _ s hs
    refine goes_bind (goes_loadContextRegisters hL ht srr0) ?_
    rintro _ v rfl
    refine goes_bind (R := fun _ w => ∀ kind a s, Represents L s.mem w →
      C.stops (.boundary kind a) s) ?_ ?_
    · refine goes_bind (R := fun _ w => ∀ kind a s, Represents L s.mem w →
        C.stops (.boundary kind a) s) ?_ ?_
      · exact goes_tryDispatchIndirect hcpu h.stops (fun s hs => h.guar_jump _ _ s hs)
          fun s s' hs hs' => h.jump _ _ s s' hs hs'
      rintro b w hstop
      cases b with
      | true => exact goes_pure hstop
      | false => exact goes_stop fun s hs => hstop _ _ s hs
    · rintro _ w hstop
      exact goes_stop fun s hs => hstop _ _ s hs
  intro s hs
  rw [bind_of (setGpr_apply ..)]
  unfold osLoadContext
  rw [hcpu', bind_of (getGpr_apply ..)]
  have hr3 : (s.setGpr cpu 3 t).gpr cpu 3 = t := by simp
  rw [hr3, if_neg (hL.thread_ne_zero ht)]
  exact hrest _ hs

theorem goes_registerMain (old : Word) :
    Goes L C (registerMain cpu old) v fun _ w => w = v := by
  refine goes_bind (goes_gets _) ?_
  rintro f v rfl
  split
  · exact goes_pure rfl
  refine goes_bind (goes_gets _) ?_
  rintro available v rfl
  split
  · refine goes_bind (goes_gets _) ?_
    rintro current v rfl
    refine goes_bind (goes_gets _) ?_
    rintro f v rfl
    dsimp only
    split
    · exact goes_pure rfl
    refine goes_bind (goes_gets _) ?_
    rintro f' v rfl
    split
    · exact goes_pure rfl
    refine goes_bind (goes_modify fun _ => rfl) ?_
    rintro _ v rfl
    split
    · exact goes_pure rfl
    refine goes_bind (goes_gets _) ?_
    rintro registers v rfl
    refine goes_bind (goes_modify fun _ => rfl) ?_
    rintro _ v rfl
    exact goes_pure rfl
  · exact goes_pure rfl

theorem goes_hostSwitch (h : HandsOver L C v Q) (target : Handle) :
    Goes L C (hostSwitch target) v fun _ w => Q w := by
  intro s hs
  unfold hostSwitch
  rw [bind_of (gets_apply ..), Routine.ite_apply]
  split
  · exact ⟨v, hs, h.stay⟩
  · refine ⟨h.guar_host _ _ hs, fun s' hs' => ?_⟩
    exact h.host target (s.onHost target) s' hs hs'

theorem goes_switchToLeave (frame : SwitchFrame) :
    Goes L C (switchToLeave frame) v fun _ w => w = v := by
  have hcur : L.HasCell (.global kOSCurrentContextAddr) := currentContext_mem
  have hrun : L.HasCell (.global kOSRunningContextAddr) := runningContext_mem
  refine (runs_read hrun rfl).then ((runs_read hcur rfl).then ?_)
  split
  · exact goes_modify fun _ => rfl
  · split
    · exact goes_modify fun _ => rfl
    · exact goes_modify fun _ => rfl

theorem goes_switchTo (h : HandsOver L C v Q) : Goes L C (switchTo t cpu) v fun _ w => Q w := by
  refine goes_bind (goes_gets _) ?_
  rintro f v rfl
  split
  · exact goes_pure h.stay
  refine goes_bind (goes_gets _) ?_
  rintro available v rfl
  split
  · split
    · exact goes_pure h.stay
    refine goes_bind (goes_gets _) ?_
    rintro callerContext v rfl
    refine goes_bind (R := fun _ w => w = v) ?_ ?_
    · unfold saveCaller
      split
      · exact goes_pure rfl
      · exact goes_modify fun _ => rfl
    rintro _ v rfl
    refine goes_bind (goes_modify fun _ => rfl) ?_
    rintro _ v rfl
    refine goes_bind (goes_gets _) ?_
    rintro current v rfl
    split
    · exact goes_pure h.stay
    refine goes_bind (goes_hostSwitch h _) ?_
    rintro _ w hw
    refine goes_bind (goes_switchToLeave _) ?_
    rintro _ w rfl
    exact goes_pure hw
  · exact goes_pure h.stay

/-- The machine is handed over. -/
theorem goes_enterThread (hL : L.Sound) (hcpu : cpu ≠ 0) (ht : t ∈ L.threads)
    (h : HandsOver L C v Q)
    (hQ : ∀ w, Q w → ∀ kind a s, Represents L s.mem w → C.stops (.boundary kind a) s)
    (old : Word) :
    Goes L C (enterThread cpu old t) v fun _ w => Q w := by
  refine goes_bind (R := fun _ w => w = v) ?_ ?_
  · refine goes_bind (goes_gets _) ?_
    rintro available v rfl
    split
    · refine goes_bind (goes_gets _) ?_
      rintro f v rfl
      exact goes_pure rfl
    · exact goes_pure rfl
  rintro b v rfl
  cases b with
  | false => exact goes_osLoadContext hL hcpu ht h
  | true =>
    rw [if_pos rfl]
    refine goes_bind (goes_registerMain old) ?_
    rintro b v rfl
    cases b with
    | false => exact goes_stop fun s hs => h.stops _ _ s hs
    | true =>
      rw [if_pos rfl]
      refine goes_bind (goes_switchTo h) ?_
      rintro b w hw
      cases b with
      | false => exact goes_stop fun s hs => hQ w hw _ _ s hs
      | true =>
        rw [if_pos rfl]
        refine (goes_setGpr cpu 3 0#32).mono ?_
        rintro _ w rfl
        exact hw

end

end wii_switch
