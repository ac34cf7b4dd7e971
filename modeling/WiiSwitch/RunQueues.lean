-- The 32 run queues and the pending mask. Bit 31 - p of the mask stands for the run
-- queue of priority p; a thread that leaves its queue clears the bit when it was the
-- last one there.
import WiiSwitch.Queues

namespace wii_switch

open OS Routine Ring

/-! ## The pending mask -/

/-- A priority as a word. -/
def level (p : Fin 32) : Word := BitVec.ofNat 32 p

def runQueue (p : Fin 32) : Word := runQueueOf (level p)

/-- The bit of a priority in a mask. -/
def maskBit (mask : Word) (p : Fin 32) : Bool := mask.getLsbD (31 - p)

theorem level_toNat (p : Fin 32) : (level p).toNat = p := by
  simp only [level, BitVec.toNat_ofNat]
  omega

theorem level_toInt (p : Fin 32) : (level p).toInt = p := by
  rw [BitVec.toInt_eq_toNat_of_lt, level_toNat]
  rw [level_toNat]
  omega

theorem level_inj {p p' : Fin 32} : level p = level p' ↔ p = p' := by
  rw [← BitVec.toNat_inj, level_toNat, level_toNat, Fin.val_inj]

theorem validPriority_iff (x : Word) : validPriority x = true ↔ ∃ p, x = level p := by
  constructor
  · intro h
    simp only [validPriority, decide_eq_true_eq] at h
    have hlt : x.toNat < 32 := by
      rw [BitVec.toInt_eq_toNat_cond] at h
      split at h <;> omega
    exact ⟨⟨x.toNat, hlt⟩, by simp [level]⟩
  · rintro ⟨p, rfl⟩
    simp only [validPriority, level_toInt, decide_eq_true_eq]
    omega

theorem runQueue_toNat (p : Fin 32) : (runQueue p).toNat = 0x803477B0 + 8 * p := by
  revert p
  decide

theorem runQueue_inj {p p' : Fin 32} : runQueue p = runQueue p' ↔ p = p' := by
  rw [← BitVec.toNat_inj, runQueue_toNat, runQueue_toNat, ← Fin.val_inj]
  omega

theorem runQueue_onArray (p : Fin 32) : onRunQueueArray (runQueue p) = true := by
  revert p
  decide

theorem runQueue_index (p : Fin 32) : runQueueIndex (runQueue p) = level p := by
  revert p
  decide

theorem runQueue_of_onArray {q : Word} (h : onRunQueueArray q = true) : ∃ p, q = runQueue p := by
  obtain ⟨h1, h2, h3⟩ := of_decide_eq_true h
  have h3 := congrArg BitVec.toNat h3
  simp only [kThreadQueueArrayAddr, kThreadQueueArrayBytes, BitVec.le_def, BitVec.lt_def,
    BitVec.toNat_umod, BitVec.toNat_sub, BitVec.toNat_add,
    BitVec.toNat_ofNat, Nat.reducePow, Nat.reduceMod] at h1 h2 h3
  refine ⟨⟨(q.toNat - 0x803477B0) / 8, by omega⟩, ?_⟩
  rw [← BitVec.toNat_inj, runQueue_toNat]
  simp only
  omega

theorem pendingBit_getLsbD (p : Fin 32) (i : Nat) :
    (pendingBit (level p)).getLsbD i = decide (i = 31 - p) := by
  have hsh : (31#32 - level p).toNat = 31 - p := by
    rw [BitVec.toNat_sub, level_toNat, BitVec.toNat_ofNat]
    omega
  rw [pendingBit, BitVec.shiftLeft_eq', hsh, BitVec.getLsbD_shiftLeft, BitVec.getLsbD_one]
  grind

theorem maskBit_mark (mask : Word) (p p' : Fin 32) :
    maskBit (mask ||| pendingBit (level p)) p' = (maskBit mask p' || decide (p' = p)) := by
  rw [maskBit, BitVec.getLsbD_or, pendingBit_getLsbD, maskBit]
  congr 2
  rw [← Fin.val_inj, eq_iff_iff]
  omega

theorem maskBit_clear (mask : Word) (p p' : Fin 32) :
    maskBit (mask &&& ~~~pendingBit (level p)) p' = (maskBit mask p' && !decide (p' = p)) := by
  rw [maskBit, BitVec.getLsbD_and, BitVec.getLsbD_not, pendingBit_getLsbD, maskBit]
  have : decide (31 - p'.val < 32) = true := by simp; omega
  rw [this, Bool.true_and]
  congr 3
  rw [← Fin.val_inj, eq_iff_iff]
  omega

theorem mask_ext {mask mask' : Word} (h : ∀ p, maskBit mask p = maskBit mask' p) :
    mask = mask' := by
  refine BitVec.eq_of_getLsbD_eq fun i hi => ?_
  have := h ⟨31 - i, by omega⟩
  simp only [maskBit] at this
  rwa [show 31 - (31 - i) = i by omega] at this

theorem mask_eq_zero {mask : Word} : mask = 0#32 ↔ ∀ p, maskBit mask p = false := by
  constructor
  · rintro rfl p
    simp [maskBit]
  · exact fun h => mask_ext fun p => by rw [h p]; simp [maskBit]

/-- The leading zeros of a mask give the smallest priority number in it. -/
theorem cntlzw_spec {mask : Word} (h : mask ≠ 0#32) :
    ∃ p, ppcCntlzw mask = level p ∧ maskBit mask p = true ∧
      ∀ p' < p, maskBit mask p' = false := by
  have hlt : mask.clz.toNat < 32 := by
    have := BitVec.clz_lt_iff_ne_zero.mpr h
    simpa [BitVec.lt_def] using this
  refine ⟨⟨mask.clz.toNat, hlt⟩, by simp [ppcCntlzw, level], ?_, fun p' hp' => ?_⟩
  · exact BitVec.getLsbD_true_clz_of_ne_zero (by omega) h
  · have hb := mask.toNat_lt_two_pow_sub_clz
    have hp : p'.val < mask.clz.toNat := hp'
    refine Nat.testBit_lt_two_pow (Nat.lt_of_lt_of_le hb ?_)
    exact Nat.pow_le_pow_right (by omega) (by omega)

/-! ## The mask in the view -/

namespace View

def mask (v : View) : Word := v.word (.global kSchedulerPendingFlagAddr)

def setMask (v : View) (m : Word) : View := v.put (.global kSchedulerPendingFlagAddr) m

/-- The bit of a run queue is cleared when the queue is empty. -/
def clearEmpty (v : View) (q : Word) : View :=
  if onRunQueueArray q = true ∧ v.word (.head q) = 0#32 then
    v.setMask (v.mask &&& ~~~pendingBit (runQueueIndex q))
  else v

@[simp] theorem setMask_mask (v : View) (m : Word) : (v.setMask m).mask = m := by
  simp [setMask, mask]

@[simp] theorem setMask_state (v : View) (m : Word) : (v.setMask m).state = v.state := rfl

theorem setMask_word {v : View} {c : Cell} (hc : c ≠ .global kSchedulerPendingFlagAddr)
    (m : Word) : (v.setMask m).word c = v.word c := by simp [setMask, hc]

/-- The words other than the mask are as before. -/
theorem clearEmpty_word {v : View} {c : Cell} (hc : c ≠ .global kSchedulerPendingFlagAddr)
    (q : Word) : (v.clearEmpty q).word c = v.word c := by
  unfold clearEmpty
  split
  · exact setMask_word hc _
  · rfl

@[simp] theorem clearEmpty_state (v : View) (q : Word) : (v.clearEmpty q).state = v.state := by
  unfold clearEmpty
  split <;> rfl

theorem nextCell_ne_global (q x a : Word) : nextCell q x ≠ .global a :=
  (Cell.Plain.ne_nextCell (c := .global a) trivial q x).symm

theorem prevCell_ne_global (q x a : Word) : prevCell q x ≠ .global a :=
  (Cell.Plain.ne_prevCell (c := .global a) trivial q x).symm

@[simp] theorem setMask_nextOf (v : View) (m q x : Word) :
    (v.setMask m).nextOf q x = v.nextOf q x := setMask_word (nextCell_ne_global _ _ _) m

@[simp] theorem setMask_prevOf (v : View) (m q x : Word) :
    (v.setMask m).prevOf q x = v.prevOf q x := setMask_word (prevCell_ne_global _ _ _) m

@[simp] theorem clearEmpty_nextOf (v : View) (q q' x : Word) :
    (v.clearEmpty q).nextOf q' x = v.nextOf q' x := clearEmpty_word (nextCell_ne_global _ _ _) q

@[simp] theorem clearEmpty_prevOf (v : View) (q q' x : Word) :
    (v.clearEmpty q).prevOf q' x = v.prevOf q' x := clearEmpty_word (prevCell_ne_global _ _ _) q

/-- The mask after a run queue was looked at. -/
theorem clearEmpty_maskBit (v : View) (p p' : Fin 32) :
    maskBit (v.clearEmpty (runQueue p)).mask p' =
      (maskBit v.mask p' && !decide (p' = p ∧ v.word (.head (runQueue p)) = 0#32)) := by
  unfold clearEmpty
  rw [runQueue_onArray, runQueue_index]
  split
  · rename_i h
    rw [setMask_mask, maskBit_clear]
    simp [h.2]
  · rename_i h
    have : v.word (.head (runQueue p)) ≠ 0#32 := fun h0 => h ⟨rfl, h0⟩
    simp [this]

theorem clearEmpty_of_off {v : View} {q : Word} (h : onRunQueueArray q = false) :
    v.clearEmpty q = v := by
  unfold clearEmpty
  rw [if_neg]
  simp [h]

end View

/-! ## The routines -/

section

variable {L : Layout} {v : View} {q t x : Word}

theorem isQueue_runQueue (L : Layout) (p : Fin 32) : L.IsQueue (runQueue p) :=
  Or.inl (Or.inl ⟨p, rfl⟩)

theorem pendingFlag_mem : kSchedulerPendingFlagAddr ∈ kernelWords := by simp [kernelWords]

theorem reschedCounter_mem : kSchedulerReschedCounterAddr ∈ kernelWords := by simp [kernelWords]

theorem writes_read_mask : Writes L (read32 kSchedulerPendingFlagAddr) v v.mask v :=
  writes_read (c := .global kSchedulerPendingFlagAddr) pendingFlag_mem rfl

theorem runs_read_mask : Runs L (read32 kSchedulerPendingFlagAddr) v v.mask v :=
  writes_read_mask.runs

theorem writes_write_mask (m : Word) :
    Writes L (write32 kSchedulerPendingFlagAddr m) v () (v.setMask m) :=
  writes_write (c := .global kSchedulerPendingFlagAddr) pendingFlag_mem rfl m

theorem writes_write_resched (y : Word) :
    Writes L (write32 kSchedulerReschedCounterAddr y) v ()
      (v.put (.global kSchedulerReschedCounterAddr) y) :=
  writes_write (c := .global kSchedulerReschedCounterAddr) reschedCounter_mem rfl y

theorem writes_clearPendingIfEmpty (hq : L.IsQueue q) :
    Writes L (SelectThread.clearPendingIfEmpty q) v () (v.clearEmpty q) := by
  unfold SelectThread.clearPendingIfEmpty
  by_cases hon : onRunQueueArray q = true
  · rw [if_neg (by simp [hon])]
    refine writes_bind (writes_read (c := .head q) hq rfl) ?_
    by_cases h0 : v.word (.head q) = 0#32
    · rw [if_neg (by simp [h0])]
      refine writes_bind writes_read_mask ((writes_write_mask _).to ?_)
      rw [View.clearEmpty, if_pos ⟨hon, h0⟩]
    · rw [if_pos h0]
      refine (writes_pure ()).to ?_
      rw [View.clearEmpty, if_neg fun h => h0 h.2]
  · rw [if_pos (by simpa using hon)]
    exact (writes_pure ()).to (View.clearEmpty_of_off (by simpa using hon)).symm

/-- The two bridges clear the bit alike. -/
theorem updatePendingMaskForQueue_eq :
    ResumeThread.updatePendingMaskForQueue = SelectThread.clearPendingIfEmpty := rfl

theorem writes_select_removeThreadFromQueue (ht : t ∈ L.threads) (ht0 : t ≠ 0#32)
    (hqt : v.word (.thread .queue t) = q) (hq0 : q ≠ 0#32) (hq : L.IsQueue q)
    (hn : L.ThreadOrNone (v.nextOf q t)) (hp : L.ThreadOrNone (v.prevOf q t)) :
    Writes L (SelectThread.removeThreadFromQueue t) v () ((v.remove q t).clearEmpty q) := by
  refine writes_bind (writes_read (c := .thread .queue t) ht rfl) ?_
  rw [hqt, if_neg hq0]
  refine writes_bind (writes_read_next ht ht0 q) (writes_bind (writes_read_prev ht ht0 q) ?_)
  refine writes_unlink_then hq hn hp ?_
  refine writes_bind (writes_write (c := .thread .queue t) ht rfl _) ?_
  refine writes_bind (writes_write (c := .thread .next t) ht rfl _) ?_
  refine writes_bind (a := ()) (w := v.remove q t) ?_ (writes_clearPendingIfEmpty hq)
  refine (writes_write (c := .thread .prev t) ht rfl _).to (View.ext (funext fun c => ?_) rfl)
  simp only [View.remove, View.put_word]
  grind

theorem writes_resume_removeThreadFromQueue (ht : t ∈ L.threads) (ht0 : t ≠ 0#32)
    (hqt : v.word (.thread .queue t) = q) (hq0 : q ≠ 0#32) (hq : L.IsQueue q)
    (hn : L.ThreadOrNone (v.nextOf q t)) (hp : L.ThreadOrNone (v.prevOf q t)) :
    Writes L (ResumeThread.removeThreadFromQueue t) v () ((v.remove q t).clearEmpty q) := by
  refine writes_bind (writes_read (c := .thread .queue t) ht rfl) ?_
  rw [hqt, if_neg hq0]
  refine writes_bind (writes_read_next ht ht0 q) (writes_bind (writes_read_prev ht ht0 q) ?_)
  refine writes_unlink_then hq hn hp ?_
  refine writes_bind (writes_write (c := .thread .next t) ht rfl _) ?_
  refine writes_bind (writes_write (c := .thread .prev t) ht rfl _) ?_
  refine writes_bind (w := v.remove q t) (writes_write (c := .thread .queue t) ht rfl _) ?_
  rw [updatePendingMaskForQueue_eq]
  exact writes_clearPendingIfEmpty hq

theorem writes_markRunQueuePending (p : Fin 32) :
    Writes L (SelectThread.markRunQueuePending (level p)) v ()
      ((v.setMask (v.mask ||| pendingBit (level p))).put (.global kSchedulerReschedCounterAddr)
        1#32) :=
  writes_bind writes_read_mask (writes_bind (writes_write_mask _) (writes_write_resched _))

/-- The insertion of OSResumeThread is that of OSSleepThread and a mark. -/
theorem insertThread_eq (fuel : Nat) (q t priority : Word) :
    ResumeThread.insertThreadIntoQueueByPriority fuel q t priority = (do
      SleepThread.insertThreadIntoQueueByPriority fuel q t priority
      ResumeThread.markPendingForQueue q) := rfl

theorem markPendingForQueue_off (hoff : onRunQueueArray q = false) :
    ResumeThread.markPendingForQueue q = pure () := by
  unfold ResumeThread.markPendingForQueue
  rw [if_pos hoff]

theorem writes_markPendingForQueue (p : Fin 32) :
    Writes L (ResumeThread.markPendingForQueue (runQueue p)) v ()
      (v.setMask (v.mask ||| pendingBit (level p))) := by
  unfold ResumeThread.markPendingForQueue
  rw [runQueue_onArray, if_neg (by decide), runQueue_index]
  exact writes_bind writes_read_mask (writes_write_mask _)

end

end wii_switch
