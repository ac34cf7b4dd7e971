-- Run queues as the selection loop may find them: threads in them may have ended, and the
-- mask may name queues that are empty. The loop drops the ended threads and clears the
-- stale bits until it finds a thread or the mask is empty. It ends, and it leaves every
-- word of a thread that stands in no run queue.
import Mathlib.Algebra.Order.BigOperators.Group.Finset
import Mathlib.Data.Fintype.Basic
import WiiSwitch.Selection

namespace wii_switch

open OS Routine Ring SelectThread Levels

/-! ## What the loop finds -/

/-- The state of a thread that has ended. -/
def HasEnded (x : Half) : Prop := x = 0#16 ∨ x = kThreadStateMoribund

instance (x : Half) : Decidable (HasEnded x) := inferInstanceAs (Decidable (_ ∨ _))

/-- The run queues are well linked. Nothing is said of the states of their threads, nor of
the mask. -/
structure LinkedQueues (L : Layout) (v : View) (qs : Fin 32 → List Word) : Prop where
  queue : ∀ p, v.Queue (runQueue p) (qs p)
  threads : ∀ p, ∀ t ∈ qs p, t ∈ L.threads
  field : ∀ p, ∀ t ∈ qs p, v.word (.thread .queue t) = runQueue p

/-- The threads that stand in the run queues. -/
def queued (qs : Fin 32 → List Word) : Set Word := {t | ∃ p, t ∈ qs p}

/-- The steps that are left at most: each takes a thread out, or clears a bit. -/
def stepsLeft (qs : Fin 32 → List Word) (mask : Word) : Nat :=
  ∑ p, ((qs p).length + if maskBit mask p then 1 else 0)

/-- The words of the scheduler, and the links of the threads of `T`. -/
def Cell.OfScheduler (T : Set Word) : Cell → Prop
  | .global a => a = kSchedulerPendingFlagAddr ∨ a = kSchedulerReschedCounterAddr
  | .head q => onRunQueueArray q = true
  | .tail q => onRunQueueArray q = true
  | .thread f t => t ∈ T ∧ (f = .queue ∨ f = .next ∨ f = .prev)
  | _ => False

/-- Only words of the scheduler and links of threads of `T` have changed. -/
def Confined (T : Set Word) (v w : View) : Prop :=
  ∀ c : Cell, ¬c.OfScheduler T → w.word c = v.word c

section

variable {L : Layout} {v w u : View} {qs qs' : Fin 32 → List Word} {T T' : Set Word} {p : Fin 32}
  {t : Word} {xs : List Word}

theorem Cell.OfScheduler.mono (hT : T ⊆ T') {c : Cell} (h : c.OfScheduler T) :
    c.OfScheduler T' := by
  cases c with
  | thread f t => exact ⟨hT h.1, h.2⟩
  | _ => exact h

theorem Confined.refl : Confined T v v := fun _ _ => rfl

theorem Confined.trans (h : Confined T v w) (h' : Confined T w u) : Confined T v u := fun c hc =>
  (h' c hc).trans (h c hc)

theorem Confined.mono (h : Confined T v w) (hT : T ⊆ T') : Confined T' v w := fun c hc =>
  h c fun hc' => hc (hc'.mono hT)

theorem Confined.put (h : Confined T v w) {c : Cell} (hc : c.OfScheduler T) (x : Word) :
    Confined T v (w.put c x) := by
  intro d hd
  have hne : d ≠ c := by
    rintro rfl
    exact hd hc
  rw [View.put_word, if_neg hne, h d hd]

theorem Confined.clearEmpty (h : Confined T v w) (q : Word) : Confined T v (w.clearEmpty q) := by
  intro c hc
  have hne : c ≠ .global kSchedulerPendingFlagAddr := by
    rintro rfl
    exact hc (Or.inl rfl)
  rw [View.clearEmpty_word hne, h c hc]

/-- A thread outside `T` keeps its words. -/
theorem Confined.thread (h : Confined T v w) (ht : t ∉ T) (f : ThreadField) :
    w.word (.thread f t) = v.word (.thread f t) := h _ fun hc => ht hc.1

theorem ofScheduler_nextCell {x : Word} (hx : x = 0#32 ∨ x ∈ T) :
    (nextCell (runQueue p) x).OfScheduler T := by
  unfold nextCell
  split
  · exact runQueue_onArray p
  · exact ⟨hx.resolve_left ‹_›, Or.inr (Or.inl rfl)⟩

theorem ofScheduler_prevCell {x : Word} (hx : x = 0#32 ∨ x ∈ T) :
    (prevCell (runQueue p) x).OfScheduler T := by
  unfold prevCell
  split
  · exact runQueue_onArray p
  · exact ⟨hx.resolve_left ‹_›, Or.inr (Or.inr rfl)⟩

/-- A thread leaves a run queue. -/
theorem confined_remove (ht : t ∈ T)
    (hn : v.nextOf (runQueue p) t = 0#32 ∨ v.nextOf (runQueue p) t ∈ T)
    (hp : v.prevOf (runQueue p) t = 0#32 ∨ v.prevOf (runQueue p) t ∈ T) :
    Confined T v (v.remove (runQueue p) t) := by
  have hunlink : Confined T v (v.unlink (runQueue p) t) :=
    (Confined.refl.put (ofScheduler_nextCell hp) _).put (ofScheduler_prevCell hn) _
  have hnext := hunlink.put (c := .thread .next t) ⟨ht, Or.inr (Or.inl rfl)⟩ 0#32
  have hprev := hnext.put (c := .thread .prev t) ⟨ht, Or.inr (Or.inr rfl)⟩ 0#32
  exact hprev.put (c := .thread .queue t) ⟨ht, Or.inl rfl⟩ 0#32

theorem mem_leave_queued (h : queued qs ⊆ T) : queued (leave qs p) ⊆ T := by
  rintro t ⟨p', ht⟩
  exact h ⟨p', mem_of_mem_leave ht⟩

/-! ### One step less -/

theorem stepsLeft_lt {mask mask' : Word} (hlen : ∀ p', (qs' p').length ≤ (qs p').length)
    (hbit : ∀ p', maskBit mask' p' = true → maskBit mask p' = true)
    (hless : (qs' p).length < (qs p).length ∨
      (maskBit mask p = true ∧ maskBit mask' p = false)) : stepsLeft qs' mask' <
        stepsLeft qs mask := by
  have hbits : ∀ p', (if maskBit mask' p' then 1 else 0) ≤ if maskBit mask p'
      then 1 else 0 := by
    intro p'
    cases h : maskBit mask' p' with
    | false => simp
    | true => simp [hbit p' h]
  apply Finset.sum_lt_sum
  · intro p' _
    exact Nat.add_le_add (hlen p') (hbits p')
  · refine ⟨p, Finset.mem_univ p, ?_⟩
    rcases hless with hlt | ⟨h1, h2⟩
    · exact Nat.add_lt_add_of_lt_of_le hlt (hbits p)
    · have := hlen p
      simp only [h1, h2, if_true, Bool.false_eq_true, if_false]
      omega

/-! ### The two changes of the loop -/

theorem LinkedQueues.level_eq (h : LinkedQueues L v qs) {p' : Fin 32} (ht : t ∈ qs p)
    (ht' : t ∈ qs p') : p = p' :=
  runQueue_inj.mp ((h.field p t ht).symm.trans (h.field p' t ht'))

theorem LinkedQueues.putGlobal (h : LinkedQueues L v qs) (a x : Word) :
    LinkedQueues L (v.put (.global a) x) qs where
  queue := fun p => (h.queue p).put (c := .global a) trivial x
  threads := h.threads
  field := fun p t ht => by simpa using h.field p t ht

/-- The head of a run queue is dropped. -/
def View.dropHead (v : View) (p : Fin 32) (t : Word) : View :=
  (v.remove (runQueue p) t).clearEmpty (runQueue p)

theorem LinkedQueues.dropHead (h : LinkedQueues L v qs) (hp : qs p = t :: xs) :
    LinkedQueues L (v.dropHead p t) (leave qs p) := by
  have hq : v.Queue (runQueue p) ([] ++ t :: xs) := hp ▸ h.queue p
  refine ⟨fun p' => ?_, fun p' u hu => h.threads p' u (mem_of_mem_leave hu), fun p' u hu => ?_⟩
  · have hqueue : (v.remove (runQueue p) t).Queue (runQueue p') (leave qs p p') := by
      by_cases hpp : p' = p
      · subst hpp
        rw [leave_same, hp]
        exact hq.remove
      · rw [leave_other hpp]
        refine (h.queue p').remove_other (by simpa [runQueue_inj] using hpp) hq fun x hx hx' =>
          hpp ?_
        exact h.level_eq hx' (hp ▸ hx)
    exact hqueue.congr (fun _ _ => by simp [View.dropHead]) fun _ _ => by simp [View.dropHead]
  · have hut : u ≠ t := by
      rintro rfl
      by_cases hpp : p' = p
      · subst hpp
        rw [leave_same, hp] at hu
        have hnd := (List.nodup_cons.mp hq.2).2
        exact (List.nodup_cons.mp hnd).1 hu
      · exact hpp (h.level_eq (mem_of_mem_leave hu) (hp ▸ List.mem_cons_self))
    rw [View.dropHead, View.clearEmpty_word (by simp),
      View.remove_plain (by simp [Cell.Plain]) (by simpa using hut)]
    exact h.field p' u (mem_of_mem_leave hu)

/-- The bit goes with the last thread. -/
theorem LinkedQueues.dropHead_maskBit (h : LinkedQueues L v qs) (hp : qs p = t :: xs)
    (p' : Fin 32) :
    maskBit (v.dropHead p t).mask p' = (maskBit v.mask p' && !decide (p' = p ∧ xs = [])) := by
  have hq : v.Queue (runQueue p) ([] ++ t :: xs) := hp ▸ h.queue p
  have hempty : (v.remove (runQueue p) t).word (.head (runQueue p)) = 0#32 ↔ xs = [] :=
    (View.Queue.remove hq).empty_iff
  have hmask : (v.remove (runQueue p) t).mask = v.mask :=
    View.remove_plain (c := .global kSchedulerPendingFlagAddr) trivial (by simp)
  rw [View.dropHead, View.clearEmpty_maskBit, hmask]
  simp only [hempty]

theorem confined_dropHead (h : v.Queue (runQueue p) (t :: xs)) (ht : t ∈ T)
    (hxs : first xs 0#32 = 0#32 ∨ first xs 0#32 ∈ T) : Confined T v (v.dropHead p t) := by
  apply Confined.clearEmpty
  apply confined_remove ht
  · rwa [h.nextOf_head]
  · exact Or.inl h.prevOf_head

end

/-! ## The loop -/

/-- A picked thread is one of `T`, and so is the thread behind it, if there is one. -/
def SelectThread.Pick.Fits (T : Set Word) (w : View) (pick : Pick) : Prop :=
  (∃ p, pick.queueEntry = runQueue p) ∧ pick.nextThread ∈ T ∧
    (w.word (.thread .next pick.nextThread) = 0#32 ∨
      w.word (.thread .next pick.nextThread) ∈ T)

/-- What the loop leaves. Where it picks no thread, only ended threads stood in the queues
that the mask named, and no other thread has lost its links. -/
structure Chosen (T : Set Word) (v : View) (qs : Fin 32 → List Word) (pick : Pick) (w : View) :
    Prop where
  state : w.state = v.state
  confined : Confined T v w
  fits : pick.nextThread = 0#32 ∨ pick.Fits T w
  none : pick.nextThread = 0#32 → Confined {t ∈ T | HasEnded (v.state t)} v w ∧
    ∀ p, maskBit v.mask p = true → ∀ t ∈ qs p, HasEnded (v.state t)

section

variable {L : Layout} {C : Coop.Contract (Machine Memory) Stop Away} {v w : View}
  {qs : Fin 32 → List Word} {T : Set Word} {p : Fin 32} {t : Word} {xs : List Word} {pick : Pick}

/-- The empty queue of a stale bit has no effect on what the loop leaves. -/
theorem Chosen.of_clear (hempty : qs p = [])
    (h : Chosen T (v.setMask (v.mask &&& ~~~pendingBit (level p))) qs pick w) :
    Chosen T v qs pick w := by
  have hconfined : ∀ T', Confined T' v (v.setMask (v.mask &&& ~~~pendingBit (level p))) :=
    fun T' =>
    Confined.refl.put (c := .global kSchedulerPendingFlagAddr) (Or.inl rfl) _
  refine ⟨h.state, (hconfined T).trans h.confined, h.fits, fun h0 => ?_⟩
  obtain ⟨hended, hall⟩ := h.none h0
  refine ⟨(hconfined _).trans hended, fun p' hbit u hu => ?_⟩
  have hpp : p' ≠ p := by
    rintro rfl
    rw [hempty] at hu
    exact List.not_mem_nil hu
  refine hall p' ?_ u hu
  rw [View.setMask_mask, maskBit_clear, hbit]
  simp [hpp]

/-- Nor has an ended thread that is dropped, but for its own links. -/
theorem Chosen.of_drop (hlinked : LinkedQueues L v qs) (hT : queued qs ⊆ T) (hp : qs p = t :: xs)
    (hended : HasEnded (v.state t)) (hbit : maskBit v.mask p = true)
    (h : Chosen T (v.dropHead p t) (leave qs p) pick w) : Chosen T v qs pick w := by
  have hq : v.Queue (runQueue p) (t :: xs) := hp ▸ hlinked.queue p
  have hstate : (v.dropHead p t).state = v.state := by simp [View.dropHead]
  have hmem : ∀ u ∈ t :: xs, u ∈ T := fun u hu => hT ⟨p, hp ▸ hu⟩
  have hfirst : first xs 0#32 = 0#32 ∨ first xs 0#32 ∈ T := by
    cases xs with
    | nil => exact Or.inl rfl
    | cons x xs => exact Or.inr (hmem x (by simp))
  refine ⟨h.state.trans hstate, (confined_dropHead hq (hmem t (by simp)) hfirst).trans h.confined,
    h.fits, ?_⟩
  intro h0
  obtain ⟨hsame, hall⟩ := h.none h0
  rw [hstate] at hsame hall
  -- the bit stays for the rest of the queue, so the rest has ended too
  have hrest : ∀ x ∈ xs, HasEnded (v.state x) := by
    intro x hx
    refine hall p ?_ x (by rwa [leave_same, hp])
    rw [hlinked.dropHead_maskBit hp, hbit]
    simp [List.ne_nil_of_mem hx]
  have hfirst' : first xs 0#32 = 0#32 ∨ first xs 0#32 ∈ {t ∈ T | HasEnded (v.state t)} := by
    cases xs with
    | nil => exact Or.inl rfl
    | cons x xs => exact Or.inr ⟨hmem x (by simp), hrest x (by simp)⟩
  have htE : t ∈ {t ∈ T | HasEnded (v.state t)} := ⟨hmem t (by simp), hended⟩
  refine ⟨(confined_dropHead hq htE hfirst').trans hsame, ?_⟩
  intro p' hbit' u hu
  by_cases hpp : p' = p
  · subst hpp
    rw [hp, List.mem_cons] at hu
    rcases hu with rfl | hu
    · exact hended
    · exact hrest u hu
  · refine hall p' ?_ u (by rwa [leave_other hpp])
    rw [hlinked.dropHead_maskBit hp, hbit']
    simp [hpp]

/-- The head of a run queue is dropped. -/
theorem runs_dropHead (hL : L.Sound) (h : LinkedQueues L v qs) (hp : qs p = t :: xs) :
    Runs L (removeThreadFromQueue t) v () (v.dropHead p t) := by
  have hq : v.Queue (runQueue p) (t :: xs) := hp ▸ h.queue p
  have hmem : ∀ u ∈ t :: xs, u ∈ L.threads := fun u hu => h.threads p u (hp ▸ hu)
  have ht := hmem t List.mem_cons_self
  have hfield : v.word (.thread .queue t) = runQueue p := h.field p t (hp ▸ List.mem_cons_self)
  apply Writes.runs
  apply writes_select_removeThreadFromQueue ht (hL.thread_ne_zero ht) hfield
    (hL.queue_ne_zero (isQueue_runQueue L p)) (isQueue_runQueue L p)
  · rw [hq.nextOf_head]
    exact threadOrNone_of_mem (fun x hx => hmem x (List.mem_cons_of_mem t hx)) first_mem
  · exact Or.inl hq.prevOf_head

/-- The loop ends, with more fuel than it has steps. -/
theorem goes_selectionLoop (hL : L.Sound) {fuel : Nat} (h : LinkedQueues L v qs)
    (hT : queued qs ⊆ T) (hmask : v.mask = pick.pendingMask)
    (hpick : pick.nextThread = 0#32 ∨ pick.Fits T v)
    (hfuel : (∀ s, C.stops .diverge s) ∨ stepsLeft qs v.mask < fuel) :
    Goes L C (selectionLoop fuel pick) v fun pick' w => Chosen T v qs pick' w := by
  induction fuel generalizing v qs pick with
  | zero => exact goes_stop fun s _ => hfuel.elim (fun h => h s) fun h => absurd h (by omega)
  | succ fuel ih =>
    unfold selectionLoop
    by_cases h0 : pick.pendingMask = 0#32
    · rw [if_pos h0]
      refine goes_pure ⟨rfl, Confined.refl, hpick, fun _ => ⟨Confined.refl, fun p hp => ?_⟩⟩
      rw [hmask, h0] at hp
      simp [maskBit] at hp
    rw [if_neg h0]
    rw [← hmask] at h0 ⊢
    obtain ⟨p, hcntlzw, hbit, -⟩ := cntlzw_spec h0
    have hle : ¬level p > 31#32 := by
      rw [gt_iff_lt, BitVec.lt_def, level_toNat]
      simp only [BitVec.toNat_ofNat]
      omega
    simp only [hcntlzw]
    rw [if_neg hle]
    have hread := runs_read (v := v) (c := .head (runQueue p)) (isQueue_runQueue L p) rfl
    rw [(h.queue p).head_eq] at hread
    refine hread.then ?_
    -- what a step less means for the fuel
    have hless : ∀ {qs' : Fin 32 → List Word} {mask' : Word},
      stepsLeft qs' mask' < stepsLeft qs v.mask →
        (∀ s, C.stops .diverge s) ∨ stepsLeft qs' mask' < fuel := fun hlt =>
      hfuel.imp_right fun hf => by omega
    cases hp : qs p with
    | nil =>
      rw [first_nil, if_pos rfl]
      have hset : LinkedQueues L (v.setMask (v.mask &&& ~~~pendingBit (level p))) qs :=
        h.putGlobal _ _
      refine (Writes.runs (writes_write_mask _)).then ?_
      refine (ih hset hT (View.setMask_mask ..) (Or.inl rfl) ?_).mono fun _ _ => Chosen.of_clear hp
      rw [View.setMask_mask]
      refine hless (stepsLeft_lt (p := p) (fun _ => le_rfl) (fun p' hp' => ?_)
        (Or.inr ⟨hbit, ?_⟩))
      · rw [maskBit_clear, Bool.and_eq_true] at hp'
        exact hp'.1
      · rw [maskBit_clear]
        simp
    | cons t xs =>
      have hmem : t ∈ qs p := hp ▸ List.mem_cons_self
      have hq : v.Queue (runQueue p) (t :: xs) := hp ▸ h.queue p
      have ht0 : t ≠ 0#32 := hq.ne_zero List.mem_cons_self
      rw [first_cons, if_neg ht0]
      refine (runs_read_state (h.threads p t hmem)).then ?_
      by_cases hended : v.state t = 0#16 ∨ v.state t = kThreadStateMoribund
      · rw [if_pos hended]
        refine (runs_dropHead hL h hp).then (runs_read_mask.then ?_)
        have hlinks : (v.dropHead p t).word (.thread .next t) = 0#32 := by
          rw [View.dropHead, View.clearEmpty_word (by simp)]
          simp [View.remove]
        refine (ih (h.dropHead hp) (mem_leave_queued hT) rfl
          (Or.inr ⟨⟨p, rfl⟩, hT ⟨p, hmem⟩, Or.inl hlinks⟩) (hless ?_)).mono
          fun _ _ => Chosen.of_drop h hT hp hended hbit
        refine stepsLeft_lt (p := p) (fun p' => ?_) (fun p' hp' => ?_) (Or.inl ?_)
        · by_cases hpp : p' = p
          · subst hpp
            simp
          · rw [leave_other hpp]
        · rw [h.dropHead_maskBit hp, Bool.and_eq_true] at hp'
          exact hp'.1
        · rw [leave_same, hp]
          simp
      · rw [if_neg hended]
        refine goes_pure
          ⟨rfl, Confined.refl, Or.inr ⟨⟨p, rfl⟩, hT ⟨p, hmem⟩, ?_⟩, ?_⟩
        · have hnext := hq.nextOf_head
          rw [View.nextOf, nextCell_thread _ ht0] at hnext
          rw [hnext]
          cases xs with
          | nil => exact Or.inl rfl
          | cons x xs => exact Or.inr (hT ⟨p, hp ▸ by simp⟩)
        · exact fun hz => absurd hz ht0

/-- The selection stops where nothing is pending at all. -/
theorem goes_select (hL : L.Sound) {fuel : Nat} (h : LinkedQueues L v qs) (hT : queued qs ⊆ T)
    (hstop : ∀ kind a s, C.stops (.boundary kind a) s)
    (hfuel : (∀ s, C.stops .diverge s) ∨ stepsLeft qs v.mask < fuel) :
    Goes L C (select fuel) v fun pick w => Chosen T v qs pick w := by
  refine runs_read_mask.then ?_
  split
  · exact goes_stop fun s _ => hstop _ _ s
  refine (Writes.runs (writes_write_resched 0#32)).then ?_
  have hmask : (v.put (.global kSchedulerReschedCounterAddr) 0#32).mask = v.mask := by
    rw [View.mask, View.put_word, if_neg (by decide)]
    rfl
  have hconfined : ∀ T', Confined T' v (v.put (.global kSchedulerReschedCounterAddr) 0#32) :=
    fun T' => Confined.refl.put (c := .global kSchedulerReschedCounterAddr) (Or.inr rfl) _
  refine (goes_selectionLoop hL (h.putGlobal _ _) hT hmask (Or.inl rfl) (hmask.symm ▸ hfuel)).mono
    ?_
  intro pick w hw
  refine ⟨hw.state, (hconfined T).trans hw.confined, hw.fits, fun h0 => ?_⟩
  obtain ⟨hended, hall⟩ := hw.none h0
  exact ⟨(hconfined _).trans hended, hmask ▸ hall⟩

/-- The queue `q` from behind its head `t` on. -/
def View.popHead (v : View) (q t : Word) : View :=
  (v.put (prevCell q (v.word (.thread .next t))) 0#32).put (.head q) (v.word (.thread .next t))

/-- The queue without the picked thread. The mask names it while it has threads. -/
def View.popPicked (v : View) (pick : Pick) : View :=
  if v.word (.thread .next pick.nextThread) = 0#32 then
    (v.popHead pick.queueEntry pick.nextThread).setMask
      (pick.pendingMask &&& ~~~pendingBit pick.priorityLevel)
  else v.popHead pick.queueEntry pick.nextThread

/-- The picked thread out of its queue and running. -/
def View.takePicked (v : View) (pick : Pick) : View :=
  ((v.popPicked pick).put (.thread .queue pick.nextThread) 0#32).putState pick.nextThread
    kThreadStateRunning

theorem runs_takePicked (hT : T ⊆ L.threads) (hfits : pick.Fits T v) :
    Runs L (takeThread pick) v () (v.takePicked pick) := by
  obtain ⟨⟨p, hq⟩, ht, hnext⟩ := hfits
  have hqueue : L.IsQueue pick.queueEntry := hq ▸ isQueue_runQueue L p
  have hnextT : L.ThreadOrNone (v.word (.thread .next pick.nextThread)) :=
    hnext.imp_right fun h => hT h
  refine runs_bind (runs_bind (runs_read (c := .thread .next pick.nextThread) (hT ht) rfl)
    (runs_bind (Writes.runs (writes_setQueuePrev hqueue hnextT 0#32))
      (runs_bind (runs_write (c := .head pick.queueEntry) hqueue rfl _) (runs_pure _)))) ?_
  refine runs_bind (a := ()) (w := v.popPicked pick) ?_ ?_
  · unfold View.popPicked
    refine runs_onlyIf (fun hc => ?_) fun hc => ?_
    · rw [if_pos (of_decide_eq_true hc)]
      exact Writes.runs (writes_write_mask _)
    · exact if_neg (of_decide_eq_false hc)
  · exact runs_bind (runs_write (c := .thread .queue pick.nextThread) (hT ht) rfl 0#32)
      (runs_write_state (hT ht) kThreadStateRunning)

@[simp] theorem popPicked_state (v : View) (pick : Pick) : (v.popPicked pick).state = v.state := by
  unfold View.popPicked
  split
  · rfl
  · rfl

theorem takePicked_state : (v.takePicked pick).state =
    (v.putState pick.nextThread kThreadStateRunning).state := by
  funext t
  simp [View.takePicked]

theorem confined_takePicked (hfits : pick.Fits T v) : Confined T v (v.takePicked pick) := by
  obtain ⟨⟨p, hq⟩, ht, hnext⟩ := hfits
  have hhead : (Cell.head pick.queueEntry).OfScheduler T := hq ▸ runQueue_onArray p
  have hlink : Confined T v (v.popHead pick.queueEntry pick.nextThread) :=
    ((Confined.refl (v := v)).put (hq ▸ ofScheduler_prevCell hnext) 0#32).put hhead _
  have hpop : Confined T v (v.popPicked pick) := by
    unfold View.popPicked
    split
    · exact hlink.put (c := .global kSchedulerPendingFlagAddr) (Or.inl rfl) _
    · exact hlink
  exact hpop.put (c := .thread .queue pick.nextThread) ⟨ht, Or.inl rfl⟩ 0#32

/-- Where a word of a thread changes, it becomes zero. -/
theorem takePicked_thread (v : View) (pick : Pick) (f : ThreadField) (t : Word) :
    (v.takePicked pick).word (.thread f t) = 0#32 ∨
      (v.takePicked pick).word (.thread f t) = v.word (.thread f t) := by
  have hlink : (v.popHead pick.queueEntry pick.nextThread).word (.thread f t) = 0#32 ∨
      (v.popHead pick.queueEntry pick.nextThread).word (.thread f t) = v.word (.thread f t) := by
    rw [View.popHead, View.put_word, if_neg (by simp), View.put_word]
    split
    · exact Or.inl rfl
    · exact Or.inr rfl
  have hpop : (v.popPicked pick).word (.thread f t) = 0#32 ∨
      (v.popPicked pick).word (.thread f t) = v.word (.thread f t) := by
    unfold View.popPicked
    split
    · rwa [View.setMask_word (by simp)]
    · exact hlink
  rw [View.takePicked, View.putState_word, View.put_word]
  split
  · exact Or.inl rfl
  · exact hpop

end

end wii_switch
