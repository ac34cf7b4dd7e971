-- SelectThread on run queues with ended threads in them. The loop looks at the fronts of the
-- queues only: it drops the ended threads there, down to the first thread of a queue that has
-- not ended. When the last thread that it drops empties the mask, it goes on with that thread.
import WiiSwitch.RefusedSleep
import Mathlib.Data.List.TakeWhile

namespace wii_switch

open OS Routine Ring SelectThread Levels

/-! ## The fronts of the run queues -/

/-- The front of each run queue: the ended threads `ds`, and behind them the thread `e`, which
has not ended, or none. -/
structure Fronts (L : Layout) (v : View) (ds : Fin 32 → List Word)
    (e : Fin 32 → Word) : Prop where
  chain : ∀ p, Forward (v.nextOf (runQueue p)) 0#32 (ds p) (e p)
  threads : ∀ p, ∀ d ∈ ds p, d ∈ L.threads
  ended : ∀ p, ∀ d ∈ ds p, HasEnded (v.state d)
  field : ∀ p, ∀ d ∈ ds p, v.word (.thread .queue d) = runQueue p
  nodup : ∀ p, (ds p).Nodup
  start : ∀ p d xs, ds p = d :: xs → v.word (.thread .prev d) = 0#32
  live : ∀ p, e p = 0#32 ∨ (e p ∈ L.threads ∧ ¬HasEnded (v.state (e p)) ∧
    L.ThreadOrNone (v.word (.thread .next (e p))))
  cover : ∀ p, maskBit v.mask p = false → ds p = [] ∧ e p = 0#32

/-- A thread with no queue and no links. -/
def Unqueued (v : View) (t : Word) : Prop :=
  ∀ f ∈ [ThreadField.queue, .next, .prev], v.word (.thread f t) = 0#32

/-- The threads of the fronts. -/
def inFronts (ds : Fin 32 → List Word) (e : Fin 32 → Word) : Set Word :=
  {t | ∃ p, t ∈ ds p ∨ t = e p}

section

variable {L : Layout} {v w u : View} {ds : Fin 32 → List Word} {e : Fin 32 → Word} {p : Fin 32}
  {d t : Word} {xs : List Word}

theorem Fronts.threadOrNone (h : Fronts L v ds e) (p : Fin 32) : L.ThreadOrNone (e p) :=
  (h.live p).imp_right And.left

theorem Fronts.first_threadOrNone (h : Fronts L v ds e) (hp : ds p = d :: xs) :
    L.ThreadOrNone (first xs (e p)) := by
  cases xs with
  | nil => exact h.threadOrNone p
  | cons x xs => exact Or.inr (h.threads p x (hp ▸ by simp))

/-- The head of a run queue. -/
theorem Fronts.head_eq (h : Fronts L v ds e) (p : Fin 32) :
    v.word (.head (runQueue p)) = first (ds p) (e p) := by
  have hchain := h.chain p
  cases hp : ds p with
  | nil =>
    rw [hp] at hchain
    exact hchain
  | cons d xs =>
    rw [hp] at hchain
    exact hchain.1

/-- The thread behind an ended head. -/
theorem Fronts.next_eq (h : Fronts L v ds e) (hp : ds p = d :: xs) :
    v.nextOf (runQueue p) d = first xs (e p) := by
  have hchain := h.chain p
  rw [hp] at hchain
  cases xs with
  | nil => exact hchain.2
  | cons x xs => exact hchain.2.1

theorem Fronts.prev_eq (h : Fronts L v ds e) (hL : L.Sound) (hp : ds p = d :: xs) :
    v.prevOf (runQueue p) d = 0#32 := by
  have hd := hL.thread_ne_zero (h.threads p d (hp ▸ List.mem_cons_self))
  rw [View.prevOf, prevCell_thread _ hd]
  exact h.start p d xs hp

/-- An ended thread is in one queue only, and in no queue's place of a live thread. -/
theorem Fronts.level_eq (h : Fronts L v ds e) {p' : Fin 32} (hd : d ∈ ds p) (hd' : d ∈ ds p') :
    p = p' :=
  runQueue_inj.mp ((h.field p d hd).symm.trans (h.field p' d hd'))

theorem Fronts.ne_live (h : Fronts L v ds e) (hL : L.Sound) (hd : d ∈ ds p) (p' : Fin 32) :
    d ≠ e p' := by
  rintro rfl
  rcases h.live p' with h0 | ⟨_, hlive, _⟩
  · exact hL.thread_ne_zero (h.threads p _ hd) h0
  · exact hlive (h.ended p _ hd)

/-- A stale bit is cleared. -/
theorem Fronts.setMask (h : Fronts L v ds e) {m : Word}
    (hcover : ∀ p, maskBit m p = false → ds p = [] ∧ e p = 0#32) :
    Fronts L (v.setMask m) ds e where
  chain := fun p => (h.chain p).from (by simp) fun x _ => by simp
  threads := h.threads
  ended := h.ended
  field := h.field
  nodup := h.nodup
  start := h.start
  live := h.live
  cover := fun p hp => hcover p (by simpa using hp)

theorem Fronts.putResched (h : Fronts L v ds e) (x : Word) :
    Fronts L (v.put (.global kSchedulerReschedCounterAddr) x) ds e where
  chain := fun p => by
    have hsame : ∀ y, (v.put (.global kSchedulerReschedCounterAddr) x).nextOf (runQueue p) y =
        v.nextOf (runQueue p) y := fun y => by
      rw [View.nextOf, View.put_word, if_neg (View.nextCell_ne_global _ _ _), View.nextOf]
    exact (h.chain p).from (hsame _) fun y _ => hsame y
  threads := h.threads
  ended := h.ended
  field := by simpa using h.field
  nodup := h.nodup
  start := by simpa using h.start
  live := by simpa using h.live
  cover := h.cover

/-! ### An ended head is dropped -/

/-- The links on, without the head. -/
theorem dropHead_nextOf (hprev : v.prevOf (runQueue p) d = 0#32) (q' : Word) {x : Word}
    (hx : x ≠ d) : (v.dropHead p d).nextOf q' x =
      if x = 0#32 ∧ q' = runQueue p then v.nextOf (runQueue p) d else v.nextOf q' x := by
  rw [View.dropHead, View.clearEmpty_nextOf, View.remove_nextOf hx, View.unlink_nextOf, hprev]
  by_cases hz : x = 0#32
  · simp [hz]
  · simp [hz]

/-- Where a word of a thread changes, it becomes zero. -/
theorem dropHead_thread (hprev : v.prevOf (runQueue p) d = 0#32) (f : ThreadField)
    (x : Word) : (v.dropHead p d).word (.thread f x) = 0#32 ∨
      (v.dropHead p d).word (.thread f x) = v.word (.thread f x) := by
  have hnext : nextCell (runQueue p) 0#32 ≠ .thread f x := by simp [nextCell]
  rw [View.dropHead, View.clearEmpty_word (by simp), View.remove, View.unlink, hprev]
  simp only [View.put_word]
  split
  · exact Or.inl rfl
  split
  · exact Or.inl rfl
  split
  · exact Or.inl rfl
  split
  · exact Or.inl rfl
  · rw [if_neg hnext.symm]
    exact Or.inr rfl

theorem dropHead_unqueued (v : View) (p : Fin 32) (d : Word) : Unqueued (v.dropHead p d) d := by
  intro f hf
  rw [View.dropHead, View.clearEmpty_word (by simp)]
  simp only [List.mem_cons, List.not_mem_nil, or_false] at hf
  rcases hf with rfl | rfl | rfl
  · simp [View.remove]
  · simp [View.remove]
  · simp [View.remove]

theorem dropHead_field {x : Word} (hx : x ≠ d) :
    (v.dropHead p d).word (.thread .queue x) = v.word (.thread .queue x) := by
  rw [View.dropHead, View.clearEmpty_word (by simp),
    View.remove_plain (by simp [Cell.Plain]) (by simpa using hx)]

theorem Fronts.rest_none (h : Fronts L v ds e) (hL : L.Sound) (hp : ds p = d :: xs) :
    first xs (e p) = 0#32 ↔ xs = [] ∧ e p = 0#32 := by
  cases hxs : xs with
  | nil => simp
  | cons x ys =>
    have hx0 : x ≠ 0#32 := hL.thread_ne_zero (h.threads p x (by simp [hp, hxs]))
    simp [hx0]

/-- The bit goes with the last thread. -/
theorem Fronts.dropHead_maskBit (h : Fronts L v ds e) (hL : L.Sound) (hp : ds p = d :: xs)
    (p' : Fin 32) : maskBit (v.dropHead p d).mask p' =
      (maskBit v.mask p' && !decide (p' = p ∧ xs = [] ∧ e p = 0#32)) := by
  have hd0 : d ≠ 0#32 := hL.thread_ne_zero (h.threads p d (hp ▸ List.mem_cons_self))
  have hhead : (v.remove (runQueue p) d).word (.head (runQueue p)) = first xs (e p) := by
    have hnext := View.remove_nextOf (v := v) (q := runQueue p) hd0.symm (runQueue p)
    rw [View.unlink_nextOf, h.prev_eq hL hp, if_pos ⟨rfl, fun _ => rfl⟩, h.next_eq hp] at hnext
    exact hnext
  have hmask : (v.remove (runQueue p) d).mask = v.mask :=
    View.remove_plain (c := .global kSchedulerPendingFlagAddr) trivial (by simp)
  rw [View.dropHead, View.clearEmpty_maskBit, hmask, hhead]
  simp only [h.rest_none hL hp]

/-- The rest of the queue is its front now. -/
theorem Fronts.dropHead (h : Fronts L v ds e) (hL : L.Sound) (hp : ds p = d :: xs) :
    Fronts L (v.dropHead p d) (leave ds p) e := by
  have hd : d ∈ ds p := hp ▸ List.mem_cons_self
  have hd0 : d ≠ 0#32 := hL.thread_ne_zero (h.threads p d hd)
  have hprev := h.prev_eq hL hp
  have hstate : (v.dropHead p d).state = v.state := by simp [View.dropHead]
  have hleave : leave ds p p = xs := by rw [leave_same, hp, List.tail_cons]
  have hne : ∀ {p' x}, x ∈ leave ds p p' → x ≠ d := by
    rintro p' x hx rfl
    by_cases hpp : p' = p
    · subst hpp
      have hnd := h.nodup p'
      rw [hleave] at hx
      rw [hp] at hnd
      exact (List.nodup_cons.mp hnd).1 hx
    · exact hpp (h.level_eq (mem_of_mem_leave hx) hd)
  constructor
  case chain =>
    intro p'
    by_cases hpp : p' = p
    · subst hpp
      have hchain := h.chain p'
      rw [hp] at hchain
      have hrest : ∀ x ∈ leave ds p' p',
          (v.dropHead p' d).nextOf (runQueue p') x = v.nextOf (runQueue p') x := by
        intro x hx
        have hx0 : x ≠ 0#32 := hL.thread_ne_zero (h.threads p' x (mem_of_mem_leave hx))
        rw [dropHead_nextOf hprev _ (hne hx), if_neg fun hz => hx0 hz.1]
      rw [hleave] at hrest ⊢
      apply hchain.2.from _ hrest
      rw [dropHead_nextOf hprev _ hd0.symm, if_pos ⟨rfl, rfl⟩]
    · rw [leave_other hpp]
      have hq : ¬runQueue p' = runQueue p := fun hq => hpp (runQueue_inj.mp hq)
      apply (h.chain p').from
      · rw [dropHead_nextOf hprev _ hd0.symm, if_neg fun hz => hq hz.2]
      · intro x hx
        have hx' : x ∈ leave ds p p' := by rwa [leave_other hpp]
        rw [dropHead_nextOf hprev _ (hne hx'), if_neg fun hz => hq hz.2]
  case threads => exact fun p' x hx => h.threads p' x (mem_of_mem_leave hx)
  case ended => exact fun p' x hx => hstate ▸ h.ended p' x (mem_of_mem_leave hx)
  case field => exact fun p' x hx =>
    (dropHead_field (hne hx)).trans (h.field p' x (mem_of_mem_leave hx))
  case nodup =>
    intro p'
    by_cases hpp : p' = p
    · subst hpp
      rw [leave_same]
      exact (h.nodup p').tail
    · rw [leave_other hpp]
      exact h.nodup p'
  case start =>
    intro p' x ys hx
    rcases dropHead_thread hprev .prev x with h0 | hsame
    · exact h0
    rw [hsame]
    by_cases hpp : p' = p
    · -- the new head has lost its link back
      subst hpp
      rw [hleave] at hx
      have hmem : x ∈ leave ds p' p' := by
        rw [hleave, hx]
        exact List.mem_cons_self
      have hxd : x ≠ d := hne hmem
      have hx0 : x ≠ 0#32 := hL.thread_ne_zero (h.threads p' x (by rw [hp, hx]; simp))
      have hnext : v.nextOf (runQueue p') d = x := by rw [h.next_eq hp, hx, first_cons]
      have hback : (v.dropHead p' d).prevOf (runQueue p') x = 0#32 := by
        rw [View.dropHead, View.clearEmpty_prevOf, View.remove_prevOf hxd, View.unlink_prevOf,
          hnext, hprev, if_pos ⟨rfl, fun _ => rfl⟩]
      rw [View.prevOf, prevCell_thread _ hx0, hsame] at hback
      exact hback
    · rw [leave_other hpp] at hx
      exact h.start p' x ys hx
  case live =>
    intro p'
    rcases h.live p' with h0 | ⟨hthread, hlive, hnext⟩
    · exact Or.inl h0
    refine Or.inr ⟨hthread, hstate ▸ hlive, ?_⟩
    rcases dropHead_thread hprev .next (e p') with h0 | hsame
    · exact Or.inl h0
    · rwa [hsame]
  case cover =>
    intro p' hbit
    rw [h.dropHead_maskBit hL hp, Bool.and_eq_false_iff, Bool.not_eq_false',
      decide_eq_true_eq] at hbit
    rcases hbit with hold | ⟨rfl, hxs, he⟩
    · have hnone := h.cover p' hold
      have hpp : p' ≠ p := by
        rintro rfl
        rw [hp] at hnone
        exact List.cons_ne_nil _ _ hnone.1
      rwa [leave_other hpp]
    · exact ⟨hleave.trans hxs, he⟩

theorem Fronts.confined_dropHead (h : Fronts L v ds e) (hL : L.Sound) (hp : ds p = d :: xs) :
    Confined (inFronts ds e) v (v.dropHead p d) := by
  have hmem : ∀ x ∈ d :: xs, x ∈ inFronts ds e := fun x hx => ⟨p, Or.inl (hp ▸ hx)⟩
  apply Confined.clearEmpty
  apply confined_remove (hmem d List.mem_cons_self)
  · rw [h.next_eq hp]
    cases xs with
    | nil => exact Or.inr ⟨p, Or.inr rfl⟩
    | cons x xs => exact Or.inr (hmem x (by simp))
  · exact Or.inl (h.prev_eq hL hp)

theorem inFronts_leave (ds : Fin 32 → List Word) (e : Fin 32 → Word) (p : Fin 32) :
    inFronts (leave ds p) e ⊆ inFronts ds e := by
  rintro t ⟨p', ht⟩
  exact ⟨p', ht.imp_left mem_of_mem_leave⟩

/-- A head that was dropped is in no front. -/
theorem Fronts.dropped (h : Fronts L v ds e) (hL : L.Sound) (hp : ds p = d :: xs) :
    d ∉ inFronts (leave ds p) e := by
  have hd : d ∈ ds p := hp ▸ List.mem_cons_self
  rintro ⟨p', hin | heq⟩
  · by_cases hpp : p' = p
    · subst hpp
      have hnd := h.nodup p'
      rw [leave_same, hp] at hin
      rw [hp] at hnd
      exact (List.nodup_cons.mp hnd).1 hin
    · exact hpp (h.level_eq (mem_of_mem_leave hin) hd)
  · exact h.ne_live hL hd p' heq

theorem Fronts.runs_dropHead (h : Fronts L v ds e) (hL : L.Sound) (hp : ds p = d :: xs) :
    Runs L (removeThreadFromQueue d) v () (v.dropHead p d) := by
  have hd : d ∈ ds p := hp ▸ List.mem_cons_self
  have ht := h.threads p d hd
  apply Writes.runs
  apply writes_select_removeThreadFromQueue ht (hL.thread_ne_zero ht) (h.field p d hd)
    (hL.queue_ne_zero (isQueue_runQueue L p)) (isQueue_runQueue L p)
  · rw [h.next_eq hp]
    exact h.first_threadOrNone hp
  · exact Or.inl (h.prev_eq hL hp)

end

/-! ## The loop -/

/-- The last level that the mask names. -/
def LastBit (mask : Word) (p : Fin 32) : Prop :=
  maskBit mask p = true ∧ ∀ p' > p, maskBit mask p' = false

/-- The loop has found the first live thread, at the head of its queue. -/
def Finds (L : Layout) (e : Fin 32 → Word) (pick : Pick) (w : View) : Prop :=
  ∃ p, (∀ p' < p, e p' = 0#32) ∧ e p ≠ 0#32 ∧
    pick = ⟨level p, runQueue p, e p, w.mask⟩ ∧
    w.word (.head (runQueue p)) = e p ∧ L.ThreadOrNone (w.word (.thread .next (e p)))

/-- No thread is live. The loop still holds the last ended thread of the last queue that the
mask named; if that queue was empty, it holds no thread. -/
def FindsNone (mask : Word) (ds : Fin 32 → List Word) (e : Fin 32 → Word) (pick pick' : Pick) :
    Prop :=
  (∀ p, e p = 0#32) ∧ ((mask = 0#32 ∧ pick' = pick) ∨
    ∃ p, LastBit mask p ∧ pick'.queueEntry = runQueue p ∧
      pick'.nextThread = (ds p).getLast?.getD 0#32)

/-- What the loop leaves: the ended threads that it has met are in no queue. -/
structure Swept (L : Layout) (v : View) (ds : Fin 32 → List Word) (e : Fin 32 → Word)
    (pick pick' : Pick) (w : View) : Prop where
  state : w.state = v.state
  confined : Confined (inFronts ds e) v w
  met : ∀ p, (∀ p' < p, e p' = 0#32) → ∀ d ∈ ds p, Unqueued w d
  found : Finds L e pick' w ∨ FindsNone v.mask ds e pick pick'

section

variable {L : Layout} {C : Coop.Contract (Machine Memory) Stop Away} {v w : View}
  {ds : Fin 32 → List Word} {e : Fin 32 → Word} {p p' : Fin 32} {d : Word} {xs : List Word}
  {mask mask' : Word} {pick pick' : Pick}

theorem LastBit.unique (h : LastBit mask p) (h' : LastBit mask p') : p = p' := by
  apply le_antisymm
  · exact le_of_not_gt fun hlt => Bool.false_ne_true ((h'.2 p hlt).symm.trans h.1)
  · exact le_of_not_gt fun hlt => Bool.false_ne_true ((h.2 p' hlt).symm.trans h'.1)

/-- The first bit that is set, alone. -/
theorem lastBit_of_zero (hbit : maskBit mask p = true)
    (hother : ∀ p' ≠ p, maskBit mask' p' = maskBit mask p') (h0 : mask' = 0#32) :
    LastBit mask p := by
  refine ⟨hbit, fun p' hp' => ?_⟩
  rw [← hother p' (ne_of_gt hp')]
  exact mask_eq_zero.mp h0 p'

/-- The last bit stays the last one when the first one goes. -/
theorem LastBit.of_rest (hleast : ∀ p' < p, maskBit mask p' = false)
    (hless : ∀ p', maskBit mask' p' = true → maskBit mask p' = true)
    (hother : ∀ p' ≠ p, maskBit mask' p' = maskBit mask p') (h : LastBit mask' p') :
    LastBit mask p' := by
  have hbit := hless p' h.1
  refine ⟨hbit, fun p'' hp'' => ?_⟩
  have hle : p ≤ p' := by
    refine le_of_not_gt fun hlt => ?_
    rw [hleast p' hlt] at hbit
    exact Bool.false_ne_true hbit
  rw [← hother p'' (ne_of_gt (lt_of_le_of_lt hle hp''))]
  exact h.2 p'' hp''

/-- A stale bit has no effect on what the loop leaves. -/
theorem Swept.of_clear (hempty : ds p = []) (hbit : maskBit v.mask p = true)
    (hleast : ∀ p' < p, maskBit v.mask p' = false) (m : Word)
    (h : Swept L (v.setMask (v.mask &&& ~~~pendingBit (level p))) ds e
      ⟨level p, runQueue p, 0#32, m⟩
      pick' w) : Swept L v ds e pick pick' w := by
  have hconfined : Confined (inFronts ds e) v (v.setMask (v.mask &&& ~~~pendingBit (level p))) :=
    Confined.refl.put (c := .global kSchedulerPendingFlagAddr) (Or.inl rfl) _
  refine ⟨h.state, hconfined.trans h.confined, h.met, h.found.imp_right fun hnone => ?_⟩
  obtain ⟨hdead, hlast⟩ := hnone
  rw [View.setMask_mask] at hlast
  have hother : ∀ p' ≠ p, maskBit (v.mask &&& ~~~pendingBit (level p)) p' =
      maskBit v.mask p' := by
    intro p' hpp
    rw [maskBit_clear]
    simp [hpp]
  refine ⟨hdead, Or.inr ?_⟩
  rcases hlast with ⟨h0, rfl⟩ | ⟨p', hp', hentry, hnext⟩
  · refine ⟨p, lastBit_of_zero hbit hother h0, rfl, ?_⟩
    rw [hempty]
    rfl
  · refine ⟨p', hp'.of_rest hleast (fun p'' hp'' => ?_) hother, hentry, hnext⟩
    rw [maskBit_clear, Bool.and_eq_true] at hp''
    exact hp''.1

/-- Nor has an ended thread that is dropped, but for its own links. -/
theorem Swept.of_drop (hfronts : Fronts L v ds e) (hL : L.Sound) (hp : ds p = d :: xs)
    (hbit : maskBit v.mask p = true) (hleast : ∀ p' < p, maskBit v.mask p' = false) (m : Word)
    (h : Swept L (v.dropHead p d) (leave ds p) e ⟨level p, runQueue p, d, m⟩ pick' w) :
    Swept L v ds e pick pick' w := by
  have hstate : (v.dropHead p d).state = v.state := by simp [View.dropHead]
  have hleave : leave ds p p = xs := by rw [leave_same, hp, List.tail_cons]
  refine ⟨h.state.trans hstate,
    (hfronts.confined_dropHead hL hp).trans (h.confined.mono (inFronts_leave ds e p)), ?_, ?_⟩
  · intro p' hless x hx
    by_cases hxd : x = d
    · subst hxd
      intro f hf
      rw [h.confined.thread (hfronts.dropped hL hp)]
      exact dropHead_unqueued v p x f hf
    · refine h.met p' hless x ?_
      by_cases hpp : p' = p
      · subst hpp
        rw [hp] at hx
        rw [hleave]
        exact (List.mem_cons.mp hx).resolve_left hxd
      · rwa [leave_other hpp]
  · refine h.found.imp_right fun hnone => ?_
    obtain ⟨hdead, hlast⟩ := hnone
    have hother : ∀ p' ≠ p, maskBit (v.dropHead p d).mask p' = maskBit v.mask p' := by
      intro p' hpp
      rw [hfronts.dropHead_maskBit hL hp]
      simp [hpp]
    refine ⟨hdead, Or.inr ?_⟩
    rcases hlast with ⟨h0, rfl⟩ | ⟨p', hp', hentry, hnext⟩
    · -- the mask is empty now, so the thread was the only one
      refine ⟨p, lastBit_of_zero hbit hother h0, rfl, ?_⟩
      have hcleared := mask_eq_zero.mp h0 p
      rw [hfronts.dropHead_maskBit hL hp, hbit] at hcleared
      have hxs : xs = [] := by simp at hcleared; exact hcleared.1
      rw [hp, hxs]
      rfl
    · refine ⟨p', hp'.of_rest hleast (fun p'' hp'' => ?_) hother, hentry, ?_⟩
      · rw [hfronts.dropHead_maskBit hL hp, Bool.and_eq_true] at hp''
        exact hp''.1
      · rw [hnext]
        by_cases hpp : p' = p
        · subst hpp
          have hstays := hp'.1
          rw [hfronts.dropHead_maskBit hL hp, hbit] at hstays
          have hxs : xs ≠ [] := by
            rintro rfl
            simp [hdead p'] at hstays
          rw [hleave, hp]
          cases xs with
          | nil => exact absurd rfl hxs
          | cons x xs => rw [List.getLast?_cons_cons]
        · rw [leave_other hpp]

/-- The loop ends, with more fuel than it has steps. -/
theorem Fronts.goes_selectionLoop (hL : L.Sound) {fuel : Nat} (h : Fronts L v ds e)
    (hmask : v.mask = pick.pendingMask) (hfuel : stepsLeft ds v.mask < fuel) :
    Goes L C (selectionLoop fuel pick) v fun pick' w => Swept L v ds e pick pick' w := by
  induction fuel generalizing v ds pick with
  | zero => exact absurd hfuel (by omega)
  | succ fuel ih =>
    unfold selectionLoop
    by_cases h0 : pick.pendingMask = 0#32
    · rw [if_pos h0]
      rw [← hmask] at h0
      have hnone := fun p => h.cover p (mask_eq_zero.mp h0 p)
      refine goes_pure ⟨rfl, Confined.refl, fun p _ d hd => ?_,
        Or.inr ⟨fun p => (hnone p).2, Or.inl ⟨h0, rfl⟩⟩⟩
      rw [(hnone p).1] at hd
      exact absurd hd List.not_mem_nil
    rw [if_neg h0]
    rw [← hmask] at h0 ⊢
    obtain ⟨p, hcntlzw, hbit, hleast⟩ := cntlzw_spec h0
    have hle : ¬level p > 31#32 := by
      rw [gt_iff_lt, BitVec.lt_def, level_toNat]
      simp only [BitVec.toNat_ofNat]
      omega
    simp only [hcntlzw]
    rw [if_neg hle]
    have hread := runs_read (v := v) (c := .head (runQueue p)) (isQueue_runQueue L p) rfl
    rw [h.head_eq] at hread
    refine hread.then ?_
    cases hp : ds p with
    | cons d xs =>
      have hd : d ∈ ds p := hp ▸ List.mem_cons_self
      have ht := h.threads p d hd
      have hended : v.state d = 0#16 ∨ v.state d = kThreadStateMoribund := h.ended p d hd
      rw [first_cons, if_neg (hL.thread_ne_zero ht)]
      refine (runs_read_state ht).then ?_
      rw [if_pos hended]
      refine (h.runs_dropHead hL hp).then (runs_read_mask.then ?_)
      refine (ih (h.dropHead hL hp) rfl ?_).mono fun _ _ => Swept.of_drop h hL hp hbit hleast _
      refine lt_of_lt_of_le (stepsLeft_lt (p := p) (fun p' => ?_) (fun p' hp' => ?_) (Or.inl ?_))
        (Nat.le_of_lt_succ hfuel)
      · by_cases hpp : p' = p
        · subst hpp
          simp
        · rw [leave_other hpp]
      · rw [h.dropHead_maskBit hL hp, Bool.and_eq_true] at hp'
        exact hp'.1
      · rw [leave_same, hp]
        simp
    | nil =>
      rw [first_nil]
      by_cases he : e p = 0#32
      · rw [if_pos he, he]
        have hcover : ∀ p', maskBit (v.mask &&& ~~~pendingBit (level p)) p' = false →
            ds p' = [] ∧ e p' = 0#32 := by
          intro p' hbit'
          rw [maskBit_clear, Bool.and_eq_false_iff, Bool.not_eq_false', decide_eq_true_eq] at hbit'
          rcases hbit' with hold | rfl
          · exact h.cover p' hold
          · exact ⟨hp, he⟩
        refine (Writes.runs (writes_write_mask _)).then ?_
        refine (ih (h.setMask hcover) (View.setMask_mask ..) ?_).mono fun _ _ =>
          Swept.of_clear hp hbit hleast _
        rw [View.setMask_mask]
        refine lt_of_lt_of_le (stepsLeft_lt (p := p) (fun _ => le_rfl) (fun p' hp' => ?_)
          (Or.inr ⟨hbit, ?_⟩)) (Nat.le_of_lt_succ hfuel)
        · rw [maskBit_clear, Bool.and_eq_true] at hp'
          exact hp'.1
        · rw [maskBit_clear]
          simp
      · obtain ⟨ht, hlive, hnext⟩ := (h.live p).resolve_left he
        have hstate : ¬(v.state (e p) = 0#16 ∨ v.state (e p) = kThreadStateMoribund) := hlive
        rw [if_neg he]
        refine (runs_read_state ht).then ?_
        rw [if_neg hstate]
        have hnone : ∀ p' < p, ds p' = [] ∧ e p' = 0#32 := fun p' hp' =>
          h.cover p' (hleast p' hp')
        have hhead := h.head_eq p
        rw [hp, first_nil] at hhead
        refine goes_pure ⟨rfl, Confined.refl, fun p' hless d hd => ?_,
          Or.inl ⟨p, fun p' hp' => (hnone p' hp').2, he, rfl, hhead, hnext⟩⟩
        -- no ended thread was met
        rcases lt_trichotomy p' p with hlt | rfl | hgt
        · rw [(hnone p' hlt).1] at hd
          exact absurd hd List.not_mem_nil
        · rw [hp] at hd
          exact absurd hd List.not_mem_nil
        · exact absurd (hless p hgt) he

end

/-! ## The queues that the loop finds -/

/-- The threads of the queues that have not ended. -/
def runnable (v : View) (qs : Fin 32 → List Word) (p : Fin 32) : List Word :=
  (qs p).filter fun t => ¬HasEnded (v.state t)

/-- The ended threads in front of the first live one of each queue. -/
def frontsOf (v : View) (qs : Fin 32 → List Word) (p : Fin 32) : List Word :=
  (qs p).takeWhile fun t => HasEnded (v.state t)

/-- The first live thread of each queue. -/
def firstLive (v : View) (qs : Fin 32 → List Word) (p : Fin 32) : Word :=
  first (runnable v qs p) 0#32

section

variable {L : Layout} {v : View} {qs : Fin 32 → List Word} {p p' : Fin 32} {t r : Word}

theorem mem_frontsOf (h : t ∈ frontsOf v qs p) : t ∈ qs p ∧ HasEnded (v.state t) := by
  have hended := List.mem_takeWhile_imp h
  exact ⟨(List.takeWhile_sublist _).mem h, by simpa using hended⟩

theorem mem_runnable : t ∈ runnable v qs p ↔ t ∈ qs p ∧ ¬HasEnded (v.state t) := by
  simp [runnable]

/-- The front, and behind it the first live thread. -/
theorem queue_split (v : View) (qs : Fin 32 → List Word) (p : Fin 32) :
    (qs p = frontsOf v qs p ∧ runnable v qs p = []) ∨
      ∃ t ys, qs p = frontsOf v qs p ++ t :: ys ∧ ¬HasEnded (v.state t) ∧
        (runnable v qs p).head? = some t := by
  have happend : frontsOf v qs p ++ (qs p).dropWhile (fun t => HasEnded (v.state t)) = qs p :=
    List.takeWhile_append_dropWhile
  have hfront : (frontsOf v qs p).filter (fun t => ¬HasEnded (v.state t)) = [] := by
    rw [List.filter_eq_nil_iff]
    intro t ht
    simpa using (mem_frontsOf ht).2
  have hrunnable : runnable v qs p =
      ((qs p).dropWhile fun t => HasEnded (v.state t)).filter fun t => ¬HasEnded (v.state t) := by
    rw [runnable, ← happend, List.filter_append, hfront, List.nil_append, happend]
  cases hdrop : (qs p).dropWhile fun t => HasEnded (v.state t) with
  | nil =>
    rw [hdrop, List.append_nil] at happend
    rw [hdrop, List.filter_nil] at hrunnable
    exact Or.inl ⟨happend.symm, hrunnable⟩
  | cons t ys =>
    have hlive : ¬HasEnded (v.state t) := by
      have hhead := List.head?_dropWhile_not (fun t => decide (HasEnded (v.state t))) (qs p)
      rw [hdrop] at hhead
      simpa using hhead
    rw [hdrop] at happend hrunnable
    refine Or.inr ⟨t, ys, happend.symm, hlive, ?_⟩
    rw [hrunnable, List.filter_cons_of_pos (by simpa using hlive)]
    rfl

theorem firstLive_of_head (h : (runnable v qs p).head? = some t) : firstLive v qs p = t := by
  rw [firstLive, first, h]
  rfl

theorem firstLive_of_nil (h : runnable v qs p = []) : firstLive v qs p = 0#32 := by
  rw [firstLive, h, first_nil]

/-- The front of a queue, as a path. -/
theorem LinkedQueues.front_path (h : LinkedQueues L v qs) (p : Fin 32) :
    Path (v.nextOf (runQueue p)) (v.prevOf (runQueue p)) 0#32 (frontsOf v qs p)
      (firstLive v qs p) := by
  have hpath := (h.queue p).1
  rcases queue_split v qs p with ⟨hall, hnone⟩ | ⟨t, ys, hsplit, _, hhead⟩
  · rw [firstLive_of_nil hnone]
    rwa [hall] at hpath
  · rw [firstLive_of_head hhead]
    rw [hsplit] at hpath
    exact (path_append.mp hpath).1

theorem LinkedQueues.fronts (h : LinkedQueues L v qs)
    (hcover : ∀ p, qs p ≠ [] → maskBit v.mask p = true) :
    Fronts L v (frontsOf v qs) (firstLive v qs) where
  chain := fun p => (h.front_path p).forward
  threads := fun p d hd => h.threads p d (mem_frontsOf hd).1
  ended := fun p d hd => (mem_frontsOf hd).2
  field := fun p d hd => h.field p d (mem_frontsOf hd).1
  nodup := fun p => (List.takeWhile_sublist _).nodup (List.nodup_cons.mp (h.queue p).2).2
  start := by
    intro p d xs hp
    have hpath := h.front_path p
    rw [hp] at hpath
    have hd0 : d ≠ 0#32 := (h.queue p).ne_zero (mem_frontsOf (hp ▸ List.mem_cons_self)).1
    have hback := hpath.1.2
    rwa [View.prevOf, prevCell_thread _ hd0] at hback
  live := by
    intro p
    rcases queue_split v qs p with ⟨-, hnone⟩ | ⟨t, ys, hsplit, hlive, hhead⟩
    · exact Or.inl (firstLive_of_nil hnone)
    · have hq : v.Queue (runQueue p) (frontsOf v qs p ++ t :: ys) := hsplit ▸ h.queue p
      have hmem : ∀ x ∈ t :: ys, x ∈ L.threads := fun x hx =>
        h.threads p x (hsplit ▸ List.mem_append_right _ hx)
      have hnext := hq.nextOf_mem
      rw [View.nextOf, nextCell_thread _ (hq.ne_zero (by simp))] at hnext
      rw [firstLive_of_head hhead, hnext]
      refine Or.inr ⟨hmem t List.mem_cons_self, hlive, ?_⟩
      exact threadOrNone_of_mem (fun x hx => hmem x (List.mem_cons_of_mem t hx)) first_mem
  cover := by
    intro p hbit
    have hnil : qs p = [] := by
      by_contra hne
      exact Bool.false_ne_true (hbit.symm.trans (hcover p hne))
    refine ⟨?_, firstLive_of_nil ?_⟩
    · rw [frontsOf, hnil, List.takeWhile_nil]
    · rw [runnable, hnil, List.filter_nil]

/-! ### A running thread that is queued again -/

theorem requeue_nextOf (q' x : Word) : (v.requeue r p).nextOf q' x =
    ((v.putState r kThreadStateReady).linkBefore (runQueue p) r 0#32).nextOf q' x := by
  rw [View.requeue, View.nextOf, View.put_word, if_neg (View.nextCell_ne_global _ _ _),
    ← View.nextOf, View.setMask_nextOf]

theorem requeue_thread (hr : r ≠ 0#32) {f : ThreadField} (hf : f ≠ .next) (htr : t ≠ r)
    (ht : t ≠ 0#32) : (v.requeue r p).word (.thread f t) = v.word (.thread f t) := by
  by_cases hprev : f = .prev
  · subst hprev
    have hlink := View.linkBefore_prevOf (v := v.putState r kThreadStateReady) (q := runQueue p)
      (n := 0#32) hr (runQueue p) t
    rw [if_neg htr, if_neg fun hz => ht hz.1, View.prevOf, prevCell_thread _ ht] at hlink
    rw [View.requeue, View.put_word, if_neg (by simp), View.setMask_word (by simp), hlink,
      View.prevOf, prevCell_thread _ ht]
    rfl
  · exact View.requeue_plain ⟨hf, hprev⟩ (by simpa using fun _ => htr) (by simp) (by simp)

theorem requeue_mask : (v.requeue r p).mask = v.mask ||| pendingBit (level p) := by
  rw [View.requeue, View.mask, View.put_word, if_neg (by decide)]
  exact View.setMask_mask _ _

theorem requeue_state : (v.requeue r p).state t =
    if t = r then kThreadStateReady else v.state t := by
  simp [View.requeue]

theorem frontsOf_arrive (hr : ¬HasEnded (v.state r)) :
    frontsOf v (arrive qs p r) = frontsOf v qs := by
  funext p'
  by_cases hpp : p' = p
  · subst hpp
    have hstop : [r].takeWhile (fun t => decide (HasEnded (v.state t))) = [] :=
      List.takeWhile_cons_of_neg (by simpa using hr)
    rw [frontsOf, arrive_same, List.takeWhile_append, hstop, List.append_nil]
    split
    · exact (List.takeWhile_prefix _).eq_of_length ‹_› |>.symm
    · rfl
  · rw [frontsOf, arrive_other hpp, frontsOf]

theorem runnable_arrive (hr : ¬HasEnded (v.state r)) :
    runnable v (arrive qs p r) = arrive (runnable v qs) p r := by
  funext p'
  by_cases hpp : p' = p
  · subst hpp
    rw [runnable, arrive_same, arrive_same, List.filter_append]
    congr 1
    exact List.filter_cons_of_pos (by simpa using hr)
  · rw [runnable, arrive_other hpp, arrive_other hpp, runnable]

/-- The queue of the thread has a live thread now; the other queues have those that they had. -/
theorem firstLive_arrive (hr : ¬HasEnded (v.state r)) (p' : Fin 32) :
    firstLive v (arrive qs p r) p' =
      if p' = p ∧ runnable v qs p = [] then r else firstLive v qs p' := by
  rw [firstLive, runnable_arrive hr]
  by_cases hpp : p' = p
  · subst hpp
    rw [arrive_same]
    cases hrun : runnable v qs p' with
    | nil => simp
    | cons t ts => simp [firstLive, hrun]
  · rw [arrive_other hpp, if_neg fun hc => hpp hc.1, firstLive]

/-- The links of the fronts lead on as before, but for a queue where all threads have ended. -/
theorem LinkedQueues.front_next (h : LinkedQueues L v qs) (hr0 : r ≠ 0#32)
    (hlive : ¬HasEnded (v.state r)) (hsome : ¬(p' = p ∧ runnable v qs p = [])) {x : Word}
    (hx : x ∈ 0#32 :: frontsOf v qs p') :
    (v.requeue r p).nextOf (runQueue p') x = v.nextOf (runQueue p') x := by
  have hxr : x ≠ r := by
    rintro rfl
    rcases List.mem_cons.mp hx with h0 | hfront
    · exact hr0 h0
    · exact hlive (mem_frontsOf hfront).2
  rw [requeue_nextOf, View.linkBefore_nextOf hr0, if_neg hxr, if_neg]
  · rfl
  rintro ⟨htail, hqueue⟩
  have htail : x = v.prevOf (runQueue p) 0#32 := htail
  by_cases hpp : p' = p
  · -- the tail is behind the front, or it is the first live thread
    subst hpp
    rcases queue_split v qs p' with ⟨-, hnone⟩ | ⟨t, ys, hsplit, -, -⟩
    · exact hsome ⟨rfl, hnone⟩
    have hq : v.Queue (runQueue p') (frontsOf v qs p' ++ t :: ys) := hsplit ▸ h.queue p'
    have hback : x ∈ t :: ys := htail ▸ (path_append.mp hq.1).2.bk_mem
    have hnodup := hq.2
    rw [← List.cons_append, List.nodup_append] at hnodup
    exact hnodup.2.2 x hx x hback rfl
  · have hx0 : x ≠ 0#32 := fun h0 => hpp (runQueue_inj.mp (hqueue h0))
    have hfront := (List.mem_cons.mp hx).resolve_left hx0
    have hmem := (h.queue p).tail_mem
    rw [← prevCell_zero, ← View.prevOf, ← htail] at hmem
    exact hpp (h.level_eq (mem_frontsOf hfront).1 ((List.mem_cons.mp hmem).resolve_left hx0))

/-- The fronts, when the running thread has arrived at the end of its level. It may have been a
member of a queue before: what stood behind it there is behind a live thread. -/
theorem LinkedQueues.requeue_fronts (hL : L.Sound) (h : LinkedQueues L v qs)
    (hcover : ∀ p, qs p ≠ [] → maskBit v.mask p = true) (hr : r ∈ L.threads)
    (hlive : ¬HasEnded (v.state r)) :
    Fronts L (v.requeue r p) (frontsOf v (arrive qs p r)) (firstLive v (arrive qs p r)) := by
  have hr0 := hL.thread_ne_zero hr
  have hold := h.fronts hcover
  rw [frontsOf_arrive hlive]
  have hne : ∀ {p' d}, d ∈ frontsOf v qs p' → d ≠ r := by
    rintro p' d hd rfl
    exact hlive (mem_frontsOf hd).2
  have hne0 : ∀ {p' d}, d ∈ frontsOf v qs p' → d ≠ 0#32 := fun hd =>
    (h.queue _).ne_zero (mem_frontsOf hd).1
  constructor
  case chain =>
    intro p'
    by_cases hnone : p' = p ∧ runnable v qs p = []
    · rw [firstLive_arrive hlive, if_pos hnone]
      obtain ⟨rfl, hnone⟩ := hnone
      have hall : qs p' = frontsOf v qs p' := by
        rcases queue_split v qs p' with ⟨hall, -⟩ | ⟨t, ys, -, -, hhead⟩
        · exact hall
        · rw [hnone] at hhead
          cases hhead
      have hq : (v.putState r kThreadStateReady).Queue (runQueue p') (qs p' ++ []) := by
        rw [List.append_nil]
        exact h.queue p'
      have hout : r ∉ qs p' ++ [] := by
        rw [List.append_nil, hall]
        exact fun hmem => hne hmem rfl
      have hpath := (path_append.mp (hq.linkBefore hr0 hout rfl).1).1
      rw [hall] at hpath
      exact hpath.forward.from (requeue_nextOf ..) fun x _ => requeue_nextOf ..
    · rw [firstLive_arrive hlive, if_neg hnone]
      apply (hold.chain p').from
      · exact h.front_next hr0 hlive hnone List.mem_cons_self
      · exact fun x hx => h.front_next hr0 hlive hnone (List.mem_cons_of_mem _ hx)
  case threads => exact hold.threads
  case ended =>
    intro p' d hd
    rw [requeue_state, if_neg (hne hd)]
    exact hold.ended p' d hd
  case field =>
    intro p' d hd
    rw [requeue_thread hr0 (by decide) (hne hd) (hne0 hd)]
    exact hold.field p' d hd
  case nodup => exact hold.nodup
  case start =>
    intro p' d xs hd
    have hmem : d ∈ frontsOf v qs p' := hd ▸ List.mem_cons_self
    rw [requeue_thread hr0 (by decide) (hne hmem) (hne0 hmem)]
    exact hold.start p' d xs hd
  case live =>
    intro p'
    have hready : ¬HasEnded ((v.requeue r p).state r) := by
      rw [requeue_state, if_pos rfl]
      decide
    have hnext : (v.requeue r p).word (.thread .next r) = 0#32 := by
      have hlink := View.linkBefore_nextOf (v := v.putState r kThreadStateReady) (q := runQueue p)
        (n := 0#32) hr0 (runQueue p) r
      rw [if_pos rfl, ← requeue_nextOf, View.nextOf, nextCell_thread _ hr0] at hlink
      exact hlink
    rw [firstLive_arrive hlive]
    split
    · exact Or.inr ⟨hr, hready, Or.inl hnext⟩
    rcases hold.live p' with h0 | ⟨hthread, hstate, hthen⟩
    · exact Or.inl h0
    generalize firstLive v qs p' = t at hthread hstate hthen
    by_cases htr : t = r
    · subst htr
      exact Or.inr ⟨hr, hready, Or.inl hnext⟩
    refine Or.inr ⟨hthread, ?_, ?_⟩
    · rwa [requeue_state, if_neg htr]
    · have ht0 := hL.thread_ne_zero hthread
      have hlink := View.linkBefore_nextOf (v := v.putState r kThreadStateReady) (q := runQueue p)
        (n := 0#32) hr0 (runQueue p) t
      rw [if_neg htr, ← requeue_nextOf, View.nextOf, nextCell_thread _ ht0] at hlink
      rw [hlink]
      split
      · exact Or.inr hr
      · rw [View.nextOf, nextCell_thread _ ht0]
        exact hthen
  case cover =>
    intro p' hbit
    rw [requeue_mask, maskBit_mark, Bool.or_eq_false_iff, decide_eq_false_iff_not] at hbit
    rw [firstLive_arrive hlive, if_neg fun hc => hbit.2 hc.1]
    exact hold.cover p' hbit.1

end

/-! ## From the loop to the hand-over -/

/-- The ways of SelectThread up to the hand-over. The guest code that comes back leaves the view;
OSSaveContext answers with `answer`. Where the machine is given away or the process stops, the
view has `P`. -/
def untilHandOver (L : Layout) (answer : Word) (P : View → Prop) :
    Coop.Contract (Machine Memory) Stop Away where
  rely i s s' :=
    match i with
    | .guest a cpu => SameView L s s' ∧ (a = kOSSaveContextAddress → s'.gpr cpu 3 = answer)
    | _ => False
  guar i s :=
    match i with
    | .guest _ _ => Serves L.config s.mem
    | _ => P (viewOf s.mem)
  stops e s := (∃ kind a, e = .boundary kind a) ∧ P (viewOf s.mem)

/-- The thread that the code takes from the loop: the first live one; or, with no live thread,
the last ended thread of the last queue that the mask names, and 0 if that queue is empty. -/
def Takes (mask : Word) (ds : Fin 32 → List Word) (e : Fin 32 → Word) (t : Word) : Prop :=
  (∃ p, (∀ p' < p, e p' = 0#32) ∧ e p ≠ 0#32 ∧ t = e p) ∨
    ((∀ p, e p = 0#32) ∧ ((mask = 0#32 ∧ t = 0#32) ∨
      ∃ p, LastBit mask p ∧ t = (ds p).getLast?.getD 0#32))

/-- The thread `t` runs; if it is 0, no thread was taken. The ended threads that the loop has met
are in no queue. -/
structure Taken (v : View) (ds : Fin 32 → List Word) (e : Fin 32 → Word) (t : Word) (w : View) :
    Prop where
  state : ∀ u, w.state u = if u = t ∧ t ≠ 0#32 then kThreadStateRunning else v.state u
  running : w.runningContext = if t = 0#32 then v.runningContext else t
  met : ∀ p, (∀ p' < p, e p' = 0#32) → ∀ d ∈ ds p, Unqueued w d

section

variable {L : Layout} {v w : View} {ds : Fin 32 → List Word} {e : Fin 32 → Word} {t : Word}
  {pick pick' : Pick} {P : View → Prop} {answer : Word} {cpu : CpuPtr} {fuel : Nat}

/-- A property of the cells and the states of a layout. -/
def OfLayout (L : Layout) (P : View → Prop) : Prop :=
  ∀ m w, Represents L m w → (P (viewOf m) ↔ P w)

theorem handsOver_untilHandOver (hP : OfLayout L P) (hv : P v) :
    HandsOver L (untilHandOver L answer P) v fun w => w = v where
  stops := fun kind a _ hs => ⟨⟨kind, a, rfl⟩, (hP _ v hs).mpr hv⟩
  guar_jump := fun _ _ _ hs => (hP _ v hs).mpr hv
  guar_host := fun _ _ hs => (hP _ v hs).mpr hv
  jump := fun _ _ _ _ _ hf => hf.elim
  host := fun _ _ _ _ hf => hf.elim
  stay := rfl

/-- A loop that ends without a thread. -/
theorem Swept.taken_none (h : Swept L v ds e pick pick' w) (hnone : pick'.nextThread = 0#32) :
    Taken v ds e pick'.nextThread w where
  state := fun u => by rw [if_neg fun hc => hc.2 hnone, h.state]
  running := by
    rw [if_pos hnone]
    refine h.confined (.global kOSRunningContextAddr) fun hc => ?_
    rcases hc with hc | hc
    · exact absurd hc (by decide)
    · exact absurd hc (by decide)
  met := h.met

/-- A loop that ends with a thread: the thread is taken and published. -/
theorem Swept.taken (h : Swept L v ds e pick pick' w) (hsome : pick'.nextThread ≠ 0#32) :
    Taken v ds e pick'.nextThread ((w.takePicked pick').publish pick'.nextThread) where
  state := by
    intro u
    have hstate : ((w.takePicked pick').publish pick'.nextThread).state u =
        (w.putState pick'.nextThread kThreadStateRunning).state u := congrFun takePicked_state u
    rw [hstate, View.putState_state, h.state]
    by_cases hu : u = pick'.nextThread
    · rw [if_pos hu, if_pos ⟨hu, hsome⟩]
    · rw [if_neg hu, if_neg fun hc => hu hc.1]
  running := by rw [publish_running, if_neg hsome]
  met := by
    intro p hp d hd f hf
    rw [publish_thread]
    rcases takePicked_thread w pick' f d with h0 | hsame
    · exact h0
    · rw [hsame]
      exact h.met p hp d hd f hf

/-- What the loop picks fits its queue. -/
theorem Fronts.picked (h : Fronts L v ds e) (hw : Swept L v ds e pick pick' w)
    (hpick : pick.nextThread = 0#32) (hsome : pick'.nextThread ≠ 0#32) :
    pick'.Fits L.threads w := by
  rcases hw.found with ⟨p, -, he, rfl, -, hnext⟩
    | ⟨hdead, ⟨-, rfl⟩ | ⟨p, -, hentry, hlast⟩⟩
  · exact ⟨⟨p, rfl⟩, (h.threadOrNone p).resolve_left he, hnext⟩
  · exact absurd hpick hsome
  · cases hget : (ds p).getLast? with
    | none =>
      rw [hget] at hlast
      exact absurd hlast hsome
    | some d =>
      rw [hget, Option.getD_some] at hlast
      have hd : d ∈ ds p := List.mem_of_getLast? hget
      refine ⟨⟨p, hentry⟩, hlast ▸ h.threads p d hd, Or.inl ?_⟩
      rw [hlast]
      exact hw.met p (fun p' _ => hdead p') d hd .next (by simp)

theorem Swept.takes (hw : Swept L v ds e pick pick' w) (hmask : v.mask ≠ 0#32) :
    Takes v.mask ds e pick'.nextThread := by
  rcases hw.found with ⟨p, hless, he, rfl, -, -⟩
    | ⟨hdead, ⟨h0, -⟩ | ⟨p, hp, -, hlast⟩⟩
  · exact Or.inl ⟨p, hless, he, rfl⟩
  · exact absurd h0 hmask
  · exact Or.inr ⟨hdead, Or.inr ⟨p, hp, hlast⟩⟩

/-- From the loop on. -/
theorem Fronts.goes_switchThread (hL : L.Sound) (hcpu : cpu ≠ 0) (h : Fronts L v ds e)
    (hfuel : stepsLeft ds v.mask < fuel) (hP : OfLayout L P)
    (htaken : ∀ t w, Takes v.mask ds e t → Taken v ds e t w → P w) (old : Word) :
    Goes L (untilHandOver L answer P) (switchThread fuel cpu old) v fun _ w => P w := by
  unfold switchThread
  by_cases hmask : v.mask = 0#32
  · -- nothing is pending at all
    have hnone := fun p => h.cover p (mask_eq_zero.mp hmask p)
    have hv : P v := by
      refine htaken 0#32 v (Or.inr ⟨fun p => (hnone p).2, Or.inl ⟨hmask, rfl⟩⟩)
        ⟨?_, ?_, ?_⟩
      · exact fun u => (if_neg fun hc => hc.2 rfl).symm
      · exact (if_pos rfl).symm
      · intro p _ d hd
        rw [(hnone p).1] at hd
        exact absurd hd List.not_mem_nil
    refine goes_bind (R := fun _ _ => False) ?_ fun _ _ hf => hf.elim
    refine runs_read_mask.then ?_
    rw [if_pos hmask]
    exact goes_stop fun s hs => ⟨⟨_, _, rfl⟩, (hP _ v hs).mpr hv⟩
  refine goes_bind (R := fun pick w => Takes v.mask ds e pick.nextThread ∧
    (pick.nextThread = 0#32 → Taken v ds e pick.nextThread w) ∧
    (pick.nextThread ≠ 0#32 → pick.Fits L.threads w ∧
      Taken v ds e pick.nextThread ((w.takePicked pick).publish pick.nextThread))) ?_ ?_
  · refine runs_read_mask.then ?_
    rw [if_neg hmask]
    refine (Writes.runs (writes_write_resched 0#32)).then ?_
    refine ((h.putResched 0#32).goes_selectionLoop hL rfl hfuel).mono fun pick w hw => ?_
    have hof : ∀ {t w}, Taken (v.put (.global kSchedulerReschedCounterAddr) 0#32) ds e t w →
        Taken v ds e t w := fun ht => ⟨ht.state, ht.running, ht.met⟩
    refine ⟨hw.takes hmask, fun h0 => hof (hw.taken_none h0), fun hsome => ?_⟩
    exact ⟨(h.putResched 0#32).picked hw rfl hsome, hof (hw.taken hsome)⟩
  · rintro pick w ⟨htakes, hnone, hsome⟩
    by_cases h0 : pick.nextThread = 0#32
    · rw [if_pos h0]
      refine (goes_setGpr cpu 3 0#32).mono ?_
      rintro _ _ rfl
      exact htaken _ _ htakes (hnone h0)
    rw [if_neg h0]
    obtain ⟨hfits, hend⟩ := hsome h0
    have hend : P ((w.takePicked pick).publish pick.nextThread) := htaken _ _ htakes hend
    refine (runs_takePicked (Set.Subset.refl _) hfits).then ?_
    refine goes_bind (goes_publish hL hcpu hfits.2.1 old (fun _ _ hs => hs.serves) ?_) ?_
    · exact fun s s' _ hs hs' => hs'.1.represents hs
    rintro _ _ rfl
    refine (goes_enterThread hL hcpu hfits.2.1 (handsOver_untilHandOver hP hend) ?_ old).mono ?_
    · rintro _ rfl kind a s hs
      exact ⟨⟨kind, a, rfl⟩, (hP _ _ hs).mpr hend⟩
    · rintro _ _ rfl
      exact hend

end

/-! ## Up to the loop -/

/-- The level of a thread with a valid priority. -/
def View.levelOf (v : View) (t : Word) : Fin 32 :=
  ⟨(v.word (.thread .priority t)).toNat % 32, Nat.mod_lt _ (by decide)⟩

/-- The thread `r` gives way: if it runs, it arrives at the end of its level. -/
def View.gaveWay (v : View) (r : Word) : View :=
  if v.state r = kThreadStateRunning then v.requeue r (v.levelOf r) else v

/-- The scheduler goes on from the save of the context of `r`: the mode of the context says that
none is needed, or OSSaveContext is there and answers with 0. -/
def Saves (s : Machine Memory) (r answer : Word) : Prop :=
  (∃ mode, s.mem.read16 (r + kContextModeFlagsOffset) = some mode ∧
    mode &&& 0x0002#16 ≠ 0#16) ∨
    ((s.dispatch kOSSaveContextAddress).isSome ∧ answer = 0#32)

/-- SelectThread comes to its loop: the scheduler is enabled, the running context is the current
one, it gives way, and the scheduler goes on from the save of its context. -/
structure ReachesLoop (s : Machine Memory) (v : View) (cpu : CpuPtr) (answer : Word) : Prop where
  enabled : v.word (.global kSchedulerIdleFlagAddr) = 0#32
  current : v.currentContext = v.runningContext
  thread : v.runningContext ≠ 0#32
  leaves : v.state v.runningContext = kThreadStateRunning →
    v.keeps v.runningContext (s.gpr cpu 3) = false ∧
      validPriority (v.word (.thread .priority v.runningContext)) = true
  saved : Saves s v.runningContext answer

section

variable {L : Layout} {C : Coop.Contract (Machine Memory) Stop Away} {v : View} {s : Machine Memory}
  {qs : Fin 32 → List Word} {r answer : Word} {P : View → Prop} {cpu ctx : CpuPtr} {fuel : Nat}

theorem View.levelOf_valid {t : Word} (h : validPriority (v.word (.thread .priority t)) = true) :
    v.word (.thread .priority t) = level (v.levelOf t) := by
  obtain ⟨p, hp⟩ := (validPriority_iff _).mp h
  have hlt := level_toNat p
  rw [← hp] at hlt
  rw [← BitVec.toNat_inj, level_toNat, View.levelOf]
  simp only
  omega

theorem meets_saveContext (answer : Word) (hL : L.Sound) (hcpu : cpu ≠ 0) (hr : r ∈ L.threads)
    (hs : Represents L s.mem v)
    (hmiss : ¬Saves s r answer → ∀ u, Represents L u.mem v →
      C.stops (.boundary "INDIRECT_CALL_MISS" kOSSaveContextAddress) u)
    (hguar : ∀ u, Represents L u.mem v → C.guar (.guest kOSSaveContextAddress cpu) u)
    (hrely : ∀ u u', Represents L u.mem v → C.rely (.guest kOSSaveContextAddress cpu) u u' →
      Represents L u'.mem v ∧ u'.gpr cpu 3 = answer) :
    (saveContext cpu r s).Meets C fun b u =>
      Represents L u.mem v ∧ (b = true ↔ Saves s r answer) := by
  obtain ⟨mode, hmode⟩ := hs.serves.read16_some (hL.clear_modeFlags hr).mapped
  have hsaves : Saves s r answer ↔
      mode &&& 0x0002#16 ≠ 0#16 ∨
      ((s.dispatch kOSSaveContextAddress).isSome ∧ answer = 0#32) := by
    simp [Saves, hmode]
  unfold saveContext
  rw [bind_of (read16_ret hmode), Routine.ite_apply]
  by_cases hbit : mode &&& 0x0002#16 ≠ 0#16
  · rw [if_pos hbit]
    exact ⟨hs, iff_of_true rfl (hsaves.mpr (Or.inl hbit))⟩
  rw [if_neg hbit, bind_of (setGpr_apply ..)]
  have hdispatch : (s.setGpr cpu 3 r).dispatch kOSSaveContextAddress =
      s.dispatch kOSSaveContextAddress := rfl
  unfold invokeIndirectCpu tryDispatchIndirect
  rw [if_neg hcpu]
  cases hd : s.dispatch kOSSaveContextAddress with
  | none =>
    have hnot : ¬Saves s r answer := by
      rw [hsaves, hd]
      simpa using hbit
    simpa [hdispatch, hd, boundary] using hmiss hnot (s.setGpr cpu 3 r) hs
  | some record =>
    simp only [bind_apply, gets_apply, Coop.bind_ret, hdispatch, hd, call_apply, Coop.bind_call,
      onCpu_apply, pure_apply, if_true, getGpr_apply, Coop.meets_call, Coop.meets_ret,
      gpr3_restoreNonvolatile]
    refine ⟨hguar _ hs, fun u hu => ?_⟩
    obtain ⟨hrep, hanswer⟩ := hrely (s.setGpr cpu 3 r) u hs hu
    refine ⟨hrep, ?_⟩
    rw [hsaves, hd, hanswer]
    simp [not_not.mp hbit]

/-- The save does not depend on the cells. -/
theorem Saves.elsewhere_iff (hL : L.Sound) (hr : r ∈ L.threads) {m : Memory}
    (h : Elsewhere L s.mem m) : Saves (s.withMem m) r answer ↔ Saves s r answer := by
  have hclear := hL.clear_modeFlags hr
  have hread : m.read16 (r + kContextModeFlagsOffset) =
      s.mem.read16 (r + kContextModeFlagsOffset) :=
    h .w16 _ hclear.cells hclear.states
  simp only [Saves, Machine.withMem_mem, Machine.withMem_dispatch, hread]

/-- SelectThread returns at once where it is disabled, where the running context is not the
current one, and where there is none. -/
theorem selectThread_refuses (hs : Represents L s.mem v)
    (h : v.word (.global kSchedulerIdleFlagAddr) ≠ 0#32 ∨
      (v.currentContext = v.runningContext → v.runningContext = 0#32)) :
    selectThread fuel ctx s = .ret () (s.setGpr (cpuOf ctx) 3 0#32) := by
  have hcells : ∀ a ∈ [kSchedulerIdleFlagAddr, kOSCurrentContextAddr, kOSRunningContextAddr,
      kSchedulerPendingFlagAddr, kSchedulerReschedCounterAddr],
      ∃ c, L.HasCell c ∧ a = c.address := fun a ha => by
    refine ⟨.global a, ?_, rfl⟩
    show a ∈ kernelWords
    revert ha
    simp only [kernelWords, List.mem_cons, List.not_mem_nil, or_false]
    tauto
  have hidleRead := sees_global (L := L) (v := v) (a := kSchedulerIdleFlagAddr)
    (by simp [kernelWords])
  have hcurRead := sees_global (L := L) (v := v) currentContext_mem
  have hrunRead := sees_global (L := L) (v := v) runningContext_mem
  unfold selectThread
  rw [bind_of (getGpr_apply ..), bind_of (sees_allMapped hcells s hs),
    Routine.ite_apply, if_pos rfl,
    bind_of (hidleRead s hs), Routine.ite_apply]
  by_cases hidle : v.word (.global kSchedulerIdleFlagAddr) = 0#32
  · have hnone := h.resolve_left (not_not.mpr hidle)
    rw [hidle, if_neg (by decide), bind_of (hcurRead s hs), bind_of (hrunRead s hs),
      Routine.ite_apply]
    change (if v.currentContext = 0#32 ∧ v.runningContext = 0#32 then _ else _) = _
    split
    · rfl
    rename_i hsome
    rw [Routine.ite_apply, if_pos]
    · rfl
    · intro heq
      have heq : v.currentContext = v.runningContext := heq
      exact hsome ⟨heq.trans (hnone heq), hnone heq⟩
  · have hge : v.word (.global kSchedulerIdleFlagAddr) ≥ 1#32 := by
      rw [ge_iff_le, BitVec.le_def]
      have hne : (v.word (.global kSchedulerIdleFlagAddr)).toNat ≠ 0 := fun h0 =>
        hidle (BitVec.eq_of_toNat_eq h0)
      exact Nat.pos_of_ne_zero hne
    rw [if_pos hge]
    rfl

/-- SelectThread, up to its loop or up to an end before it. -/
theorem selectThread_untilLoop (hs : Represents L s.mem v) (h : LinkedQueues L v qs)
    (hrunning : v.runningContext = 0#32 ∨ v.runningContext ∈ L.threads) (hP : OfLayout L P)
    (hearly : ¬ReachesLoop s v (cpuOf ctx) answer → P v ∧ P (v.gaveWay v.runningContext))
    (hloop : ReachesLoop s v (cpuOf ctx) answer →
      Goes L (untilHandOver L answer P) (switchThread fuel (cpuOf ctx) v.runningContext)
        (v.gaveWay v.runningContext) fun _ w => P w) :
    (selectThread fuel ctx s).Meets (untilHandOver L answer P) fun _ t => P (viewOf t.mem) := by
  have hL := hs.sound
  have hcpu := cpuOf_ne_zero ctx
  -- an end before the loop
  have hend : ¬ReachesLoop s v (cpuOf ctx) answer → P (viewOf s.mem) := fun hnot =>
    (hP _ v hs).mpr (hearly hnot).1
  by_cases hrefused : v.word (.global kSchedulerIdleFlagAddr) ≠ 0#32 ∨
      (v.currentContext = v.runningContext → v.runningContext = 0#32)
  · rw [selectThread_refuses hs hrefused]
    apply hend
    intro hreach
    rcases hrefused with hidle | hnone
    · exact hidle hreach.enabled
    · exact hreach.thread (hnone hreach.current)
  push Not at hrefused
  obtain ⟨hidle, hcur, hr0⟩ := hrefused
  have hr := hrunning.resolve_left hr0
  generalize hrun : v.runningContext = r at *
  rw [selectThread_leave hL hs hidle hrun hcur hr]
  -- from the place where the thread has given way
  have hgone : ∀ m, Represents L m (v.gaveWay r) → Elsewhere L s.mem m →
      (ReachesLoop s v (cpuOf ctx) answer ↔ Saves s r answer) →
      ((do
        unless ← saveContext (cpuOf ctx) r do return ← setGpr (cpuOf ctx) 3 0#32
        switchThread fuel (cpuOf ctx) r : OS Unit) (s.withMem m)).Meets
          (untilHandOver L answer P) fun _ t => P (viewOf t.mem) := by
    intro m hm helse hiff
    rw [bind_apply, Coop.meets_bind]
    have hsaves : Saves (s.withMem m) r answer ↔ Saves s r answer :=
      Saves.elsewhere_iff hL hr helse
    refine (meets_saveContext answer hL hcpu hr hm (fun hnot u hu => ?_)
      (fun u hu => hu.serves) fun u u' hu hu' => ?_).mono ?_
    · exact ⟨⟨_, _, rfl⟩, (hP _ _ hu).mpr (hearly fun hreach => hnot
        (hsaves.mpr (hiff.mp hreach))).2⟩
    · exact ⟨hu'.1.represents hu, hu'.2 rfl⟩
    · rintro b u ⟨hu, hb⟩
      rw [hsaves, ← hiff] at hb
      cases b with
      | false => exact (hP _ _ hu).mpr (hearly fun hreach => Bool.false_ne_true (hb.mpr hreach)).2
      | true =>
        refine (hloop (hb.mp rfl) u hu).mono ?_
        rintro _ t ⟨w, hw, hPw⟩
        exact (hP _ _ hw).mpr hPw
  by_cases hstate : v.state r = kThreadStateRunning
  · have hgave : v.gaveWay r = v.requeue r (v.levelOf r) := if_pos hstate
    cases hkeep : v.keeps r (s.gpr (cpuOf ctx) 3) with
    | true =>
      rw [bind_of (sees_keepsOrRequeues hr hstate hkeep s hs), Routine.ite_apply, if_pos rfl]
      refine hend fun hreach => ?_
      have hleaves := (hreach.leaves (by rw [hrun, hstate])).1
      rw [hrun, hkeep] at hleaves
      cases hleaves
    | false =>
      cases hvalid : validPriority (v.word (.thread .priority r)) with
      | true =>
        have htail := threadOrNone_of_mem (h.threads (v.levelOf r)) (h.queue (v.levelOf r)).tail_mem
        obtain ⟨m, hm, hrep, helse⟩ := writes_keepsOrRequeues hr hstate hkeep
          (View.levelOf_valid hvalid) htail s hs
        rw [bind_of hm, Routine.ite_apply, if_neg (by decide)]
        refine hgone m (hgave.symm ▸ hrep) helse ⟨fun hreach => hrun ▸ hreach.saved,
          fun hsaved => ?_⟩
        exact ⟨hidle, hcur.trans hrun.symm, hrun ▸ hr0, fun _ => hrun ▸ ⟨hkeep, hvalid⟩,
          hrun ▸ hsaved⟩
      | false =>
        have hnot : ¬ReachesLoop s v (cpuOf ctx) answer := by
          intro hreach
          have hleaves := (hreach.leaves (by rw [hrun, hstate])).2
          rw [hrun, hvalid] at hleaves
          cases hleaves
        have hstops : Goes L (untilHandOver L answer P) (keepsOrRequeues r (s.gpr (cpuOf ctx) 3)) v
            fun _ _ => False := by
          refine (runs_read_state hr).then ?_
          rw [hstate, if_neg (by simp)]
          refine (sees_keepsRunning hr _).runs.then ?_
          rw [hkeep, if_neg (by decide)]
          refine goes_bind (R := fun _ _ => False) (goes_requeueRunning_stop hr hvalid ?_)
            fun _ _ hf => hf.elim
          exact fun kind a u hu => ⟨⟨kind, a, rfl⟩, (hP _ _ hu).mpr (hearly hnot).1⟩
        rw [bind_apply, Coop.meets_bind]
        refine (hstops s hs).mono ?_
        rintro _ _ ⟨_, _, hf⟩
        exact hf.elim
  · have hgave : v.gaveWay r = v := if_neg hstate
    rw [bind_of (sees_keepsOrRequeues_other hr hstate _ s hs), Routine.ite_apply,
      if_neg (by decide)]
    refine hgone s.mem (hgave.symm ▸ hs)
      (Elsewhere.refl L s.mem) ⟨fun hreach => ?_, fun hsaved => ?_⟩
    · exact hrun ▸ hreach.saved
    · exact ⟨hidle, hcur.trans hrun.symm, hrun ▸ hr0, fun hc => absurd (hrun ▸ hc) hstate,
        hrun ▸ hsaved⟩

end

/-! ## The law -/

/-- The queues that the loop finds: a running thread `r` has arrived at the end of its level. -/
def View.offers (v : View) (qs : Fin 32 → List Word) (r : Word) : Fin 32 → List Word :=
  if v.state r = kThreadStateRunning then arrive qs (v.levelOf r) r else qs

/-- SelectThread sets a thread running, and makes it the running context, only when it is the
first live thread of the least level that has one. The ended threads that the loop meets, those
before the first live one, are in no queue when it has run. -/
structure DispatchesLive (L : Layout) (v : View) (qs : Fin 32 → List Word) (reaches : Prop)
    (w : View) : Prop where
  state : ∀ t ∈ L.threads, w.state t = kThreadStateRunning →
    v.state t = kThreadStateRunning ∨ ∃ p, Served (runnable v qs) p t
  running : w.runningContext = v.runningContext ∨ ∃ p, Served (runnable v qs) p w.runningContext
  met : reaches → ∀ p, (∀ p' < p, runnable v qs p' = []) →
    ∀ d ∈ frontsOf v qs p, Unqueued w d

/-- All threads in the run queues have ended, the running context does not run, and the last queue
that the mask names has threads. -/
structure EmptiesMask (v : View) (qs : Fin 32 → List Word) : Prop where
  state : v.state v.runningContext ≠ kThreadStateRunning
  ended : ∀ p, runnable v qs p = []
  last : ∃ p, LastBit v.mask p ∧ qs p ≠ []

section

variable {L : Layout} {v w : View} {s : Machine Memory} {qs : Fin 32 → List Word} {p : Fin 32}
  {r t answer : Word} {reaches : Prop} {ctx : CpuPtr} {fuel : Nat}

theorem running_live (h : v.state r = kThreadStateRunning) : ¬HasEnded (v.state r) := by
  rw [h]
  decide

theorem LinkedQueues.gaveWay_fronts (hL : L.Sound) (h : LinkedQueues L v qs)
    (hcover : ∀ p, qs p ≠ [] → maskBit v.mask p = true) (hr : r ∈ L.threads) :
    Fronts L (v.gaveWay r) (frontsOf v (v.offers qs r)) (firstLive v (v.offers qs r)) := by
  unfold View.gaveWay View.offers
  split
  · exact h.requeue_fronts hL hcover hr (running_live ‹_›)
  · exact h.fronts hcover

theorem mem_offers (ht : t ∈ v.offers qs r p) : t ∈ qs p ∨ t = r := by
  unfold View.offers at ht
  split at ht
  · exact (mem_arrive.mp ht).imp_right And.right
  · exact Or.inl ht

theorem LinkedQueues.offers_threads (h : LinkedQueues L v qs) (hr : r ∈ L.threads) {p : Fin 32}
    (ht : t ∈ v.offers qs r p) : t ∈ L.threads := by
  rcases mem_offers ht with hmem | rfl
  · exact h.threads p t hmem
  · exact hr

theorem stepsLeft_offers (hfuel : ∑ p, (qs p).length + 32 < fuel) (mask : Word) :
    stepsLeft (frontsOf v (v.offers qs r)) mask < fuel := by
  have hfronts : frontsOf v (v.offers qs r) = frontsOf v qs := by
    unfold View.offers
    split
    · exact frontsOf_arrive (running_live ‹_›)
    · rfl
  refine lt_of_le_of_lt ?_ hfuel
  calc stepsLeft (frontsOf v (v.offers qs r)) mask
      ≤ ∑ p, ((qs p).length + 1) := by
        rw [hfronts]
        apply Finset.sum_le_sum
        intro p _
        apply Nat.add_le_add
        · exact (List.takeWhile_sublist _).length_le
        · split <;> omega
    _ = ∑ p, (qs p).length + 32 := by simp [Finset.sum_add_distrib]

theorem firstLive_eq_zero (h : ∀ t ∈ qs p, t ≠ 0#32) :
    firstLive v qs p = 0#32 ↔ runnable v qs p = [] := by
  refine ⟨fun h0 => ?_, firstLive_of_nil⟩
  cases hrun : runnable v qs p with
  | nil => rfl
  | cons t ts =>
    have hmem : t ∈ runnable v qs p := hrun ▸ List.mem_cons_self
    rw [firstLive, hrun, first_cons] at h0
    exact absurd h0 (h t (mem_runnable.mp hmem).1)

/-- The property is one of the layout. -/
theorem dispatchesLive_ofLayout (hthreads : ∀ p, ∀ t ∈ qs p, t ∈ L.threads) :
    OfLayout L (DispatchesLive L v qs reaches) := by
  intro m w hm
  have hstate : ∀ t ∈ L.threads, (viewOf m).state t = w.state t := fun t ht =>
    hm.viewOf_state ht
  have hrun : (viewOf m).runningContext = w.runningContext :=
    hm.viewOf_word (c := .global kOSRunningContextAddr) runningContext_mem
  have hlinks : ∀ p, ∀ d ∈ frontsOf v qs p, (Unqueued (viewOf m) d ↔ Unqueued w d) := by
    intro p d hd
    refine forall₂_congr fun f _ => ?_
    rw [hm.viewOf_word (c := .thread f d) (hthreads p d (mem_frontsOf hd).1)]
  constructor
  · rintro ⟨h1, h2, h3⟩
    exact ⟨fun t ht hrunning => h1 t ht (hstate t ht ▸ hrunning), hrun ▸ h2,
      fun hr p hp d hd => (hlinks p d hd).mp (h3 hr p hp d hd)⟩
  · rintro ⟨h1, h2, h3⟩
    exact ⟨fun t ht hrunning => h1 t ht (hstate t ht ▸ hrunning), hrun ▸ h2,
      fun hr p hp d hd => (hlinks p d hd).mpr (h3 hr p hp d hd)⟩

/-- The first live thread of the least level is served. -/
theorem served_of_first (hne : ∀ p, ∀ t ∈ qs p, t ≠ 0#32)
    (hless : ∀ p' < p, firstLive v qs p' = 0#32) (hlive : firstLive v qs p ≠ 0#32) :
    Served (runnable v qs) p (firstLive v qs p) := by
  refine ⟨?_, fun p' hp' => (firstLive_eq_zero (hne p')).mp (hless p' hp')⟩
  cases hrun : runnable v qs p with
  | nil => exact absurd (firstLive_of_nil hrun) hlive
  | cons t ts =>
    rw [firstLive, hrun]
    rfl

/-- What the code takes is served, or it is the last ended thread. -/
theorem Takes.served (hne : ∀ p, ∀ t ∈ v.offers qs r p, t ≠ 0#32)
    (hr : v.runningContext = r)
    (h : Takes (v.gaveWay r).mask (frontsOf v (v.offers qs r)) (firstLive v (v.offers qs r)) t)
    (hnot : ¬EmptiesMask v qs) : t = 0#32 ∨ ∃ p, Served (runnable v (v.offers qs r)) p t := by
  rcases h with ⟨p, hless, hlive, rfl⟩ | ⟨hnone, ⟨-, h0⟩ | ⟨p, hp, rfl⟩⟩
  · exact Or.inr ⟨p, served_of_first hne hless hlive⟩
  · exact Or.inl h0
  have hended : ∀ p, runnable v (v.offers qs r) p = [] := fun p =>
    (firstLive_eq_zero (hne p)).mp (hnone p)
  have hstate : v.state r ≠ kThreadStateRunning := by
    intro hrun
    have hmem : r ∈ runnable v (v.offers qs r) (v.levelOf r) := by
      rw [View.offers, if_pos hrun, mem_runnable]
      exact ⟨mem_arrive.mpr (Or.inr ⟨rfl, rfl⟩), running_live hrun⟩
    rw [hended] at hmem
    exact List.not_mem_nil hmem
  have hoffers : v.offers qs r = qs := if_neg hstate
  rw [View.gaveWay, if_neg hstate] at hp
  rw [hoffers] at hended ⊢
  by_cases hqs : qs p = []
  · left
    rw [frontsOf, hqs]
    rfl
  · exact absurd ⟨hr ▸ hstate, hended, p, hp, hqs⟩ hnot

/-- With the mask emptied by an ended thread, this thread is taken. -/
theorem EmptiesMask.takes_ended (h : EmptiesMask v qs)
    (ht : Takes v.mask (frontsOf v qs) (firstLive v qs) t) :
    ∃ p, t ∈ qs p ∧ HasEnded (v.state t) := by
  obtain ⟨p, hp, hqs⟩ := h.last
  rcases ht with ⟨p', _, hlive, _⟩ | ⟨-, ⟨h0, -⟩ | ⟨p', hp', rfl⟩⟩
  · exact absurd (firstLive_of_nil (h.ended p')) hlive
  · exact absurd (hp.1.symm.trans (mask_eq_zero.mp h0 p)) (by decide)
  obtain rfl := hp.unique hp'
  have hall : qs p = frontsOf v qs p := by
    rcases queue_split v qs p with ⟨hall, -⟩ | ⟨t, ys, -, -, hhead⟩
    · exact hall
    · rw [h.ended p] at hhead
      cases hhead
  rw [hall] at hqs
  have hmem : (frontsOf v qs p).getLast?.getD 0#32 ∈ frontsOf v qs p := by
    rw [List.getLast?_eq_some_getLast hqs, Option.getD_some]
    exact List.getLast_mem hqs
  exact ⟨p, mem_frontsOf hmem⟩

/-- The property, where the loop is not reached. -/
theorem dispatchesLive_early (hreach : ¬reaches)
    (hnever : ∀ t ∈ L.threads, w.state t = kThreadStateRunning →
      v.state t = kThreadStateRunning)
    (hrun : w.runningContext = v.runningContext) : DispatchesLive L v qs reaches w :=
  ⟨fun t ht hstate => Or.inl (hnever t ht hstate), Or.inl hrun, fun hr => absurd hr hreach⟩

theorem gaveWay_state (h : (v.gaveWay r).state t = kThreadStateRunning) :
    v.state t = kThreadStateRunning := by
  unfold View.gaveWay at h
  split at h
  · rw [requeue_state] at h
    split at h
    · exact absurd h (by decide)
    · exact h
  · exact h

theorem gaveWay_running : (v.gaveWay r).runningContext = v.runningContext := by
  unfold View.gaveWay
  split
  · exact View.requeue_global (by decide) (by decide)
  · rfl

/-- Two contracts for one property and its negation. -/
theorem not_meets_both {P : View → Prop} {c : Coop (Machine Memory) Stop Away Unit}
    (h : c.Meets (untilHandOver L answer P) fun _ t => P (viewOf t.mem))
    (h' : c.Meets (untilHandOver L answer fun w => ¬P w) fun _ t => ¬P (viewOf t.mem)) :
    False := by
  refine h.absurd h' (fun _ _ hp hn => hn hp) (fun _ _ hp hn => hn.2 hp.2) fun i s hp hn => ?_
  cases i with
  | guest a cpu =>
    have hsame : SameView L s (s.setGpr cpu 3 answer) := ⟨hp, fun _ _ => rfl, fun _ _ => rfl⟩
    have hr3 : (s.setGpr cpu 3 answer).gpr cpu 3 = answer := by simp
    exact ⟨s.setGpr cpu 3 answer, ⟨hsame, fun _ => hr3⟩, ⟨hsame, fun _ => hr3⟩⟩
  | jump a cpu => exact absurd hp hn
  | host target => exact absurd hp hn

/-- The mask emptied by an ended thread, and the loop reached: this thread is dispatched. -/
theorem EmptiesMask.not_meets (hs : Represents L s.mem v) (h : LinkedQueues L v qs)
    (hcover : ∀ p, qs p ≠ [] → maskBit v.mask p = true) (hr : v.runningContext ∈ L.threads)
    (hfuel : ∑ p, (qs p).length + 32 < fuel) (hreach : ReachesLoop s v (cpuOf ctx) answer)
    (hempty : EmptiesMask v qs) (hP : OfLayout L (DispatchesLive L v
      (v.offers qs v.runningContext) reaches)) :
    ¬(selectThread fuel ctx s).Meets
      (untilHandOver L answer (DispatchesLive L v (v.offers qs v.runningContext) reaches))
      fun _ t => DispatchesLive L v (v.offers qs v.runningContext) reaches (viewOf t.mem) := by
  intro hmeets
  have hL := hs.sound
  have hPnot : OfLayout L fun w => ¬DispatchesLive L v (v.offers qs v.runningContext) reaches w :=
    fun m w hm => not_congr (hP m w hm)
  have hoffers : v.offers qs v.runningContext = qs := if_neg hempty.state
  have hgave : v.gaveWay v.runningContext = v := if_neg hempty.state
  refine not_meets_both hmeets (selectThread_untilLoop hs h (Or.inr hr) hPnot
    (fun hnot => absurd hreach hnot) fun _ => ?_)
  have hsteps := stepsLeft_offers (v := v) (r := v.runningContext) hfuel v.mask
  rw [hoffers] at hsteps
  rw [hgave]
  refine (h.fronts hcover).goes_switchThread hL (cpuOf_ne_zero ctx) hsteps hPnot ?_ _
  intro t w ht htaken hlive
  obtain ⟨p, hmem, hended⟩ := hempty.takes_ended ht
  have hthread := h.threads p t hmem
  have hstate : w.state t = kThreadStateRunning := by
    rw [htaken.state, if_pos ⟨rfl, hL.thread_ne_zero hthread⟩]
  rcases hlive.state t hthread hstate with hold | ⟨p', hserved⟩
  · exact running_live hold hended
  · have hin := hserved.mem
    rw [hoffers, hempty.ended] at hin
    exact List.not_mem_nil hin

/-- SelectThread dispatches live threads only, except where the removal of an ended thread empties
the mask: no thread is live, the last queue that the mask names has threads, and the loop is
reached. There the last of the ended threads is dispatched. -/
theorem select_thread_dispatches_live_threads_iff (hs : Represents L s.mem v)
    (h : LinkedQueues L v qs) (hcover : ∀ p, qs p ≠ [] → maskBit v.mask p = true)
    (hrunning : v.runningContext = 0#32 ∨ v.runningContext ∈ L.threads) (ctx : CpuPtr)
    (answer : Word) (hfuel : ∑ p, (qs p).length + 32 < fuel) :
    (selectThread fuel ctx s).Meets
      (untilHandOver L answer (DispatchesLive L v (v.offers qs v.runningContext)
        (ReachesLoop s v (cpuOf ctx) answer)))
      (fun _ t => DispatchesLive L v (v.offers qs v.runningContext)
        (ReachesLoop s v (cpuOf ctx) answer) (viewOf t.mem)) ↔
    ¬(ReachesLoop s v (cpuOf ctx) answer ∧ EmptiesMask v qs) := by
  have hL := hs.sound
  have hcpu := cpuOf_ne_zero ctx
  rcases hrunning with h0 | hr
  · -- no thread runs
    have hreach : ¬ReachesLoop s v (cpuOf ctx) answer := fun hreach => hreach.thread h0
    refine iff_of_true ?_ fun hc => hreach hc.1
    rw [selectThread_refuses hs (Or.inr fun _ => h0)]
    apply dispatchesLive_early hreach
    · intro t ht hstate
      rwa [← hs.viewOf_state ht]
    · exact hs.viewOf_word (c := .global kOSRunningContextAddr) runningContext_mem
  have hP : OfLayout L (DispatchesLive L v (v.offers qs v.runningContext)
      (ReachesLoop s v (cpuOf ctx) answer)) :=
    dispatchesLive_ofLayout fun p t ht => h.offers_threads hr ht
  constructor
  · rintro hmeets ⟨hreach, hempty⟩
    exact hempty.not_meets hs h hcover hr hfuel hreach hP hmeets
  · intro hnot
    have hne : ∀ p, ∀ t ∈ v.offers qs v.runningContext p, t ≠ 0#32 := fun p t ht =>
      hL.thread_ne_zero (h.offers_threads hr ht)
    refine selectThread_untilLoop hs h (Or.inr hr) hP (fun hreach => ⟨?_, ?_⟩) fun hreach => ?_
    · exact dispatchesLive_early hreach (fun _ _ hstate => hstate) rfl
    · exact dispatchesLive_early hreach (fun _ _ hstate => gaveWay_state hstate) gaveWay_running
    refine (h.gaveWay_fronts hL hcover hr).goes_switchThread hL hcpu
      (stepsLeft_offers hfuel _) hP ?_ _
    intro t w ht htaken
    have hserved := ht.served hne rfl fun hempty => hnot ⟨hreach, hempty⟩
    constructor
    · intro u _ hu
      rw [htaken.state] at hu
      split at hu
      · rename_i heq
        rw [heq.1]
        exact Or.inr (hserved.resolve_left heq.2)
      · exact Or.inl (gaveWay_state hu)
    · rw [htaken.running]
      split
      · exact Or.inl gaveWay_running
      · exact Or.inr (hserved.resolve_left ‹_›)
    · exact fun _ p hp d hd => htaken.met p (fun p' hp' => firstLive_of_nil (hp p' hp')) d hd

end

/-! ## Queues of ended threads -/

/-- Where the running thread arrives behind the ended one, the ended one is dropped only. -/
theorem a_running_thread_is_dispatched_again : ∃ s : Machine Memory,
    Represents staleLayout s.mem staleView ∧
    (selectThread 64 1 s).Meets
      (untilHandOver staleLayout 0#32 (DispatchesLive staleLayout staleView
        (staleView.offers staleQueues staleView.runningContext)
        (ReachesLoop s staleView (cpuOf 1) 0#32)))
      fun _ t => DispatchesLive staleLayout staleView
        (staleView.offers staleQueues staleView.runningContext)
        (ReachesLoop s staleView (cpuOf 1) 0#32) (viewOf t.mem) := by
  obtain ⟨m, hm⟩ := exists_stale
  have hrunning : staleView.runningContext = 0x80400000#32 := stale_aboutToSleep.running
  refine ⟨bootMachine m, hm,
    (select_thread_dispatches_live_threads_iff hm stale_linked ?_ (Or.inr ?_)
    1 0#32 ?_).mpr ?_⟩
  · decide +kernel
  · rw [hrunning]
    exact stale_aboutToSleep.thread
  · decide +kernel
  · rintro ⟨-, hempty⟩
    apply hempty.state
    rw [hrunning]
    exact stale_aboutToSleep.state

/-- The running context has begun to wait, and the mask names the level of the ended thread only. -/
def endedView : View :=
  (staleView.setMask 0x08000000#32).putState 0x80400000#32 kThreadStateWaiting

theorem ended_linked : LinkedQueues staleLayout endedView staleQueues :=
  have h := stale_linked.putGlobal kSchedulerPendingFlagAddr 0x08000000#32
  ⟨h.queue, h.threads, h.field⟩

theorem ended_running : endedView.runningContext = 0x80400000#32 := by
  decide +kernel

theorem ended_empties : EmptiesMask endedView staleQueues where
  state := by
    rw [ended_running]
    decide +kernel
  ended := by decide +kernel
  last := by
    refine ⟨4, ⟨by decide +kernel, ?_⟩, by decide⟩
    decide +kernel

theorem exists_ended : ∃ m, Represents staleLayout m endedView := by
  obtain ⟨m, hm⟩ := exists_stale
  obtain ⟨m, -, hm⟩ :=
    hm.write (c := .global kSchedulerPendingFlagAddr) pendingFlag_mem 0x08000000#32
  obtain ⟨m, -, hm⟩ := hm.writeState (t := 0x80400000#32) List.mem_cons_self kThreadStateWaiting
  exact ⟨m, hm⟩

/-- The one thread in the queues has ended, and the queue and the mask are well formed.
OSSaveContext answers with 0, and the ended thread is dispatched. -/
theorem the_last_ended_thread_is_dispatched : ∃ s : Machine Memory,
    Represents staleLayout s.mem endedView ∧ LinkedQueues staleLayout endedView staleQueues ∧
    (∀ p, staleQueues p ≠ [] → maskBit endedView.mask p = true) ∧
    (∀ p, ∀ t ∈ staleQueues p, HasEnded (endedView.state t)) ∧
    endedView.runningContext ∈ staleLayout.threads ∧
    ¬(selectThread 64 1 s).Meets
      (untilHandOver staleLayout 0#32 (DispatchesLive staleLayout endedView
        (endedView.offers staleQueues endedView.runningContext)
        (ReachesLoop s endedView (cpuOf 1) 0#32)))
      fun _ t => DispatchesLive staleLayout endedView
        (endedView.offers staleQueues endedView.runningContext)
        (ReachesLoop s endedView (cpuOf 1) 0#32) (viewOf t.mem) := by
  obtain ⟨m, hm⟩ := exists_ended
  have hcover : ∀ p, staleQueues p ≠ [] → maskBit endedView.mask p = true := by decide +kernel
  have hr : endedView.runningContext ∈ staleLayout.threads := ended_running ▸ List.mem_cons_self
  have hm' : Represents staleLayout { bootMachine m with
      dispatch := fun _ => some ⟨false, 0#32⟩ }.mem endedView := hm
  refine ⟨_, hm', ended_linked, hcover, fun p t ht => ?_, hr, ?_⟩
  · rw [(mem_staleQueues ht).2]
    decide +kernel
  · refine ended_empties.not_meets hm' ended_linked hcover hr (by decide +kernel) ?_
      (dispatchesLive_ofLayout fun p t ht => ended_linked.offers_threads hr ht)
    refine ⟨by decide +kernel, by decide +kernel, by decide +kernel, ?_, Or.inr ⟨rfl, rfl⟩⟩
    exact fun hrun => absurd hrun ended_empties.state

end wii_switch
