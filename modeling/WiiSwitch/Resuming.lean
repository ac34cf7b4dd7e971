-- OSResumeThread on a scheduler that is in order: what it does to the suspend count, the
-- queues and the priorities before it goes into SelectThread. A thread that is suspended
-- no more gets its effective priority, and its place in a queue by that priority.
import WiiSwitch.Sleeping
import WiiSwitch.MutexLaws
import Mathlib.Data.List.TakeWhile

namespace wii_switch

open OS Routine Ring ResumeThread

/-! ## The effective priority -/

namespace View

/-- The base priority of the thread, and the priorities of the first waiters on the mutexes
that it holds. -/
def priorities (v : View) (t : Word) (ms : List Word) : List Word :=
  v.word (.thread .basePriority t) ::
    ms.filterMap fun m =>
      if v.word (.head m) = 0#32 then none else some (v.word (.thread .priority (v.word (.head m))))

/-- One mutex of the loop. -/
def lowerTo (v : View) (priority m : Word) : Word :=
  if v.word (.head m) = 0#32 then priority
  else if (v.word (.thread .priority (v.word (.head m)))).toInt < priority.toInt then
    v.word (.thread .priority (v.word (.head m)))
  else priority

/-- The thread among those of the queue, before the first one of a greater priority
number. -/
def insertByPriority (v : View) (priority t : Word) (zs : List Word) : List Word :=
  zs.takeWhile (fun x => (v.word (.thread .priority x)).toInt ≤ priority.toInt) ++
    t :: zs.dropWhile fun x => (v.word (.thread .priority x)).toInt ≤ priority.toInt

end View

/-- The value is the least of the words, as signed numbers. -/
def LeastOf (xs : List Word) (x : Word) : Prop := x ∈ xs ∧ ∀ y ∈ xs, x.toInt ≤ y.toInt

theorem LeastOf.unique {xs : List Word} {x y : Word} (hx : LeastOf xs x) (hy : LeastOf xs y) :
    x = y := BitVec.toInt_inj.mp (le_antisymm (hx.2 y hy.1) (hy.2 x hx.1))

/-- The held list of the thread is in order: it is a list of mutexes, and each first waiter
is a thread. -/
structure HoldsInOrder (L : Layout) (v : View) (t : Word) (ms : List Word) : Prop where
  held : v.HeldList t ms
  mutexes : ∀ m ∈ ms, m ∈ L.mutexes
  waiters : ∀ m ∈ ms, L.ThreadOrNone (v.word (.head m))

/-- The value is the effective priority of the thread, whenever it has one. -/
def IsEffective (L : Layout) (v : View) (t x : Word) : Prop :=
  ∀ ms, HoldsInOrder L v t ms → LeastOf (v.priorities t ms) x

section

variable {L : Layout} {C : Coop.Contract (Machine Memory) Stop Away} {live : Set Word}
  {v w : View} {W : Set Word} {ls : Word → List Word} {q r t : Word} {fuel : Nat}

theorem foldl_lowerTo (v : View) (ms : List Word) (xs : List Word) (x : Word) (h : LeastOf xs x) :
    LeastOf (xs ++ ms.filterMap fun m =>
      if v.word (.head m) = 0#32 then none
      else some (v.word (.thread .priority (v.word (.head m))))) (ms.foldl v.lowerTo x) := by
  induction ms generalizing xs x with
  | nil => simpa using h
  | cons m ms ih =>
    by_cases hm : v.word (.head m) = 0#32
    · have hx : v.lowerTo x m = x := by simp [View.lowerTo, hm]
      simpa [hm, hx] using ih xs x h
    · have hstep : LeastOf (xs ++ [v.word (.thread .priority (v.word (.head m)))])
          (v.lowerTo x m) := by
        simp only [View.lowerTo, hm, if_false, LeastOf, List.mem_append, List.mem_singleton]
        split
        · rename_i hlt
          refine ⟨Or.inr rfl, fun y hy => ?_⟩
          rcases hy with hy | rfl
          · exact le_of_lt (lt_of_lt_of_le hlt (h.2 y hy))
          · exact le_rfl
        · rename_i hge
          refine ⟨Or.inl h.1, fun y hy => ?_⟩
          rcases hy with hy | rfl
          · exact h.2 y hy
          · omega
      simpa [hm] using ih _ _ hstep

/-- The loop over a held list. -/
theorem lowestWaiterPriority_eq {s : Machine Memory} (hs : Represents L s.mem v) {ms : List Word}
    (h : HoldsInOrder L v t ms) (xs ys : List Word) (hsplit : ms = xs ++ ys) (fuel : Nat)
    (x : Word) :
    lowestWaiterPriority fuel (first ys 0#32) x s =
      if ys.length < fuel then .ret (ys.foldl v.lowerTo x) s else .stop .diverge s := by
  induction fuel generalizing xs ys x with
  | zero => simp [lowestWaiterPriority]
  | succ fuel ih =>
    cases ys with
    | nil => simp [lowestWaiterPriority]
    | cons m ys =>
      have hmem : m ∈ ms := by simp [hsplit]
      have hm0 := h.held.ne_zero hmem
      have hm := h.mutexes m hmem
      have hnext : v.word (.mutex .next m) = first ys 0#32 := by
        have hheld := h.held
        rw [hsplit] at hheld
        obtain ⟨_, h2⟩ := path_append.mp hheld.1
        have hf := h2.fd_eq
        simp only [heldNextCell, if_neg hm0] at hf
        rw [hf]
        cases ys <;> rfl
      have hhead := hs.words (.head m) (Or.inr (Or.inr hm))
      have hnextRead : s.mem.read32 (m + kMutexThreadNextOffset) = some (v.word (.mutex .next m)) :=
        hs.words (.mutex .next m) hm
      have hhead' : s.mem.read32 (m + kMutexWaitQueueHeadOffset) = some (v.word (.head m)) := by
        rw [show m + kMutexWaitQueueHeadOffset = m from BitVec.add_zero m]
        exact hhead
      rw [hnext] at hnextRead
      have hih := fun y => ih (xs ++ [m]) ys (by simpa using hsplit) y
      rw [first_cons, lowestWaiterPriority, Routine.ite_apply, if_neg hm0,
        bind_of (read32_ret hhead')]
      by_cases hw : v.word (.head m) = 0#32
      · rw [Routine.ite_apply, if_pos hw, bind_of (read32_ret hnextRead), hih]
        simp [View.lowerTo, hw]
      · have hwaiter := (h.waiters m hmem).resolve_left hw
        have hprio : s.mem.read32 (v.word (.head m) + kThreadPriorityOffset) =
            some (v.word (.thread .priority (v.word (.head m)))) :=
              hs.words (.thread .priority _) hwaiter
        rw [Routine.ite_apply, if_neg hw, bind_of (read32_ret hprio),
          bind_of (read32_ret hnextRead), hih]
        simp [View.lowerTo, hw]

/-- The loop changes nothing. -/
theorem lowestWaiterPriority_cases (fuel : Nat) (m x : Word) (s : Machine Memory) :
    (∃ y, lowestWaiterPriority fuel m x s = .ret y s) ∨
      ∃ e, lowestWaiterPriority fuel m x s = .stop e s := by
  have hread : ∀ {α : Type} (a : Word) (f : Word → OS α),
      (∃ e, (read32 a >>= f) s = .stop e s) ∨ ∃ y, (read32 a >>= f) s = f y s := by
    intro α a f
    cases h : s.mem.read32 a with
    | none => exact Or.inl ⟨_, by rw [bind_apply, read32, h]; rfl⟩
    | some y => exact Or.inr ⟨y, bind_of (read32_ret h)⟩
  induction fuel generalizing m x with
  | zero => exact Or.inr ⟨_, rfl⟩
  | succ fuel ih =>
    rw [lowestWaiterPriority, Routine.ite_apply]
    split
    · exact Or.inl ⟨x, rfl⟩
    rcases hread _ _ with ⟨e, he⟩ | ⟨waiter, hwaiter⟩
    · exact Or.inr ⟨e, he⟩
    rw [hwaiter, Routine.ite_apply]
    split
    · rcases hread _ _ with ⟨e, he⟩ | ⟨next, hnext⟩
      · exact Or.inr ⟨e, he⟩
      · rw [hnext]
        exact ih _ _
    · rcases hread _ _ with ⟨e, he⟩ | ⟨prio, hprio⟩
      · exact Or.inr ⟨e, he⟩
      rw [hprio]
      rcases hread _ _ with ⟨e, he⟩ | ⟨next, hnext⟩
      · exact Or.inr ⟨e, he⟩
      · rw [hnext]
        exact ih _ _

/-- What the loop gives is the effective priority. -/
theorem goes_effectivePriority (hstop : ∀ e s, C.stops e s) (ht : t ∈ L.threads) (fuel : Nat) :
    Goes L C (computeThreadEffectivePriority fuel t) v fun x w => w = v ∧
    IsEffective L v t x := by
  refine (runs_read (c := .thread .basePriority t) ht rfl).then ?_
  refine (runs_read (c := .thread .heldHead t) ht rfl).then ?_
  intro s hs
  rcases lowestWaiterPriority_cases fuel (v.word (.thread .heldHead t))
    (v.word (.thread .basePriority t)) s with ⟨x, hx⟩ | ⟨e, he⟩
  · rw [hx]
    refine ⟨v, hs, rfl, fun ms hms => ?_⟩
    have hhead : v.word (.thread .heldHead t) = first ms 0#32 := Linked.fd_eq hms.held
    have heq := lowestWaiterPriority_eq hs hms [] ms rfl fuel (v.word (.thread .basePriority t))
    rw [← hhead, hx] at heq
    split at heq
    · obtain ⟨rfl, _⟩ := Coop.ret.inj heq
      exact foldl_lowerTo v ms [v.word (.thread .basePriority t)] _ ⟨by simp, by simp⟩
    · cases heq
  · rw [he]
    exact hstop e s

/-- The value matters only where the scheduler counts suspensions. -/
theorem IsEffective.of_put_suspend {u x y : Word}
    (h : IsEffective L (v.put (.thread .suspend u) y) t x) : IsEffective L v t x := by
  intro ms hms
  have hheld : (v.put (.thread .suspend u) y).HeldList t ms := by
    refine hms.held.congr (fun z _ => ?_) fun z _ => ?_
    · unfold heldNextCell
      split <;> simp
    · unfold heldPrevCell
      split <;> simp
  have hleast := h ms ⟨hheld, hms.mutexes, fun m hm => by simpa using hms.waiters m hm⟩
  simpa [View.priorities] using hleast

theorem goes_abortResume {α : Type} (hstop : ∀ e s, C.stops e s)
    (hc : L.ContextClear v.currentContext) (kind : String) (cpu : CpuPtr) (irqState : Word)
    {Q : α → View → Prop} : Goes L C (abortResumeBoundary kind cpu t irqState) v Q := by
  refine goes_bind (goes_restoreInterrupts hc cpu irqState) ?_
  rintro _ v rfl
  refine goes_bind (R := fun _ w => w = v) ?_ ?_
  · unfold onlyIf
    split
    · exact goes_setGpr cpu 3 t
    · exact goes_pure rfl
  rintro _ v rfl
  exact goes_stop fun s _ => hstop _ s

theorem goes_checkedPriority (hstop : ∀ e s, C.stops e s) (ht : t ∈ L.threads)
    (hc : L.ContextClear v.currentContext) (cpu : CpuPtr) (irqState : Word) :
    Goes L C (checkedPriority fuel cpu t irqState) v fun x w =>
      w = v ∧ ∃ p, x = level p ∧ IsEffective L v t (level p) := by
  refine goes_bind (goes_effectivePriority hstop ht fuel) ?_
  rintro x _ ⟨rfl, hx⟩
  cases hvalid : validPriority x with
  | false =>
    rw [if_pos rfl]
    exact goes_abortResume hstop hc _ cpu irqState
  | true =>
    rw [if_neg (by decide)]
    obtain ⟨p, rfl⟩ := (validPriority_iff x).mp hvalid
    exact goes_pure ⟨rfl, p, rfl, hx⟩

/-! ## The two places -/

namespace View

/-- The thread `t` at the end of the run queue of its new priority. -/
def placeReady (v : View) (t : Word) (p : Fin 32) : View :=
  (((v.put (.thread .priority t) (level p)).linkBefore (runQueue p) t 0#32).setMask
    (v.mask ||| pendingBit (level p))).put (.global kSchedulerReschedCounterAddr) 1#32

/-- The thread `t` in its place in the wait queue `q`, by its new priority. -/
def placeWaiting (v : View) (q t : Word) (p : Fin 32) (zs : List Word) : View :=
  ((v.remove q t).put (.thread .priority t) (level p)).linkBefore q t
    (v.insertionPoint (level p) zs)

end View

/-- In a run queue every thread has the same priority, so a new one goes to its end. -/
theorem Scheduled.insertionPoint_run (h : Scheduled L live v W ls) (p : Fin 32) :
    v.insertionPoint (level p) (ls (runQueue p)) = 0#32 := by
  rw [View.insertionPoint, List.dropWhile_eq_nil_iff.mpr]
  · rfl
  · intro x hx
    rw [(h.ready p x hx).2.2]
    simp

theorem Scheduled.placeReady {p : Fin 32} (h : Scheduled L live v W ls) (ht : t ∈ live)
    (ht0 : t ≠ 0#32) (hout : Unlinked W ls t) (hstate : v.state t = kThreadStateReady)
    (hsuspend : v.word (.thread .suspend t) = 0#32) :
    Scheduled L live (v.placeReady t p) W
      (Function.update ls (runQueue p) (ls (runQueue p) ++ [t])) := by
  have hput := h.putField (f := .priority) (t := t) (x := level p) (by simp) (by simp) (by simp)
    (Or.inl fun p' => hout _ (h.runs p'))
  have hend : ls (runQueue p) = ls (runQueue p) ++ [] := (List.append_nil _).symm
  have hlink := hput.linkReady ht ht0 hout hstate (by simpa using hsuspend) (by simp) hend rfl
  have hmask : (v.put (.thread .priority t) (level p)).mask = v.mask := by simp [View.mask]
  rw [hmask] at hlink
  exact hlink.putKernel (by decide) (by decide) 1#32

theorem Scheduled.placeWaiting {p : Fin 32} (h : Scheduled L live v W ls) (ht : t ∈ live)
    (ht0 : t ≠ 0#32) (hstate : v.state t = kThreadStateWaiting) (hq : q ∈ W)
    (hoff : onRunQueueArray q = false) (hmem : t ∈ ls q) :
    Scheduled L live (v.placeWaiting q t p ((ls q).erase t)) W
      (Function.update ls q (v.insertByPriority (level p) t ((ls q).erase t))) := by
  obtain ⟨xs, ys, hls, herase, _⟩ := h.split hq hmem
  obtain ⟨hremoved, hout⟩ := h.unlinkWait hq hoff hls
  rw [← herase] at hremoved hout
  have hput := hremoved.putField (f := .priority) (t := t) (x := level p) (by simp) (by simp)
    (by simp) (Or.inl fun p' => hout _ (h.runs p'))
  have hlink := hput.linkWait (n := v.insertionPoint (level p) ((ls q).erase t)) ht
    ht0 hout hstate hq
    hoff (by rw [Function.update_self]; exact List.takeWhile_append_dropWhile.symm) rfl
  rw [Function.update_idem] at hlink
  exact hlink

theorem goes_resumeReady (hstop : ∀ e s, C.stops e s) (hL : L.Sound) (h : Scheduled L live v W ls)
    (ht : t ∈ live) (hout : Unlinked W ls t) (hc : L.ContextClear v.currentContext) (cpu : CpuPtr)
    (irqState : Word) :
    Goes L C (resumeReady fuel cpu t irqState) v fun _ w =>
      ∃ p, IsEffective L v t (level p) ∧ w = v.placeReady t p := by
  have hT := h.threads t ht
  have ht0 := hL.thread_ne_zero hT
  refine goes_bind (goes_checkedPriority hstop hT hc cpu irqState) ?_
  rintro _ v ⟨rfl, p, rfl, hp⟩
  refine (runs_write (c := .thread .priority t) hT rfl _).then ?_
  have hput := h.putField (f := .priority) (t := t) (x := level p) (by simp) (by simp) (by simp)
    (Or.inl fun p' => hout _ (h.runs p'))
  have hpoint : (v.put (.thread .priority t) (level p)).insertionPoint (level p)
      (ls (runQueue p)) = 0#32 := by
    refine (View.insertionPoint_congr _ fun x hx => ?_).trans (h.insertionPoint_run p)
    have hxt : x ≠ t := fun he => hout _ (h.runs p) (he ▸ hx)
    simp [hxt]
  rw [show runQueueOf (level p) = runQueue p from rfl, insertThread_eq]
  refine goes_bind (R := fun _ w => w = ((v.put (.thread .priority t) (level p)).linkBefore
    (runQueue p) t 0#32).setMask (v.mask ||| pendingBit (level p))) ?_ ?_
  · refine goes_bind (goes_insertByPriority (Or.inl fun s => hstop _ s)
      (isQueue_runQueue L p) hT ht0
      (hput.lists.queue _ (h.runs p)) (fun z hz => h.threads z (h.member _ (h.runs p) z hz))
      (hout _ (h.runs p)) (level p)) ?_
    rintro _ w rfl
    rw [hpoint]
    have hmask : ((v.put (.thread .priority t) (level p)).linkBefore (runQueue p) t 0#32).mask =
        v.mask := by
      rw [View.mask, View.linkBefore_plain (c := .global _) trivial (by simp)]
      simp [View.mask]
    refine (Writes.runs (writes_markPendingForQueue p)).goes ?_
    rw [hmask]
  rintro _ w rfl
  refine (Writes.runs (writes_write_resched 1#32)).then ?_
  refine (goes_resumeFiber t).mono ?_
  rintro _ w rfl
  exact ⟨p, hp, rfl⟩

/-- Where a thread of a wait queue goes that is suspended no more. -/
def WaitsAgain (L : Layout) (v : View) (ls : Word → List Word) (t : Word) (w : View) : Prop :=
  (v.word (.thread .queue t) = 0#32 ∧ ∃ p, IsEffective L v t (level p) ∧
    w = v.put (.thread .priority t) (level p)) ∨
  ∃ q p, v.word (.thread .queue t) = q ∧ q ≠ 0#32 ∧
  IsEffective L (v.remove q t) t (level p) ∧
    w = v.placeWaiting q t p ((ls q).erase t)

theorem goes_resumeWaiting (hstop : ∀ e s, C.stops e s) (hL : L.Sound)
    (h : Scheduled L live v W ls) (ht : t ∈ live) (hstate : v.state t = kThreadStateWaiting)
    (hc : L.ContextClear v.currentContext) (cpu : CpuPtr) (irqState : Word) :
    Goes L C (resumeWaiting fuel cpu t irqState) v fun _ w => WaitsAgain L v ls t w := by
  have hT := h.threads t ht
  have ht0 := hL.thread_ne_zero hT
  refine goes_bind (goes_read_any (fun e s _ => hstop e s) _) ?_
  rintro mutex v rfl
  split
  · exact goes_abortResume hstop hc _ cpu irqState
  refine (runs_read (c := .thread .queue t) hT rfl).then ?_
  by_cases hq0 : v.word (.thread .queue t) = 0#32
  · rw [hq0]
    have hnone : Runs L (ResumeThread.removeThreadFromQueue t) v () v := by
      refine runs_bind (runs_read (c := .thread .queue t) hT rfl) ?_
      rw [if_pos hq0]
      exact runs_pure ()
    refine hnone.then ?_
    refine goes_bind (goes_checkedPriority hstop hT hc cpu irqState) ?_
    rintro _ v ⟨rfl, p, rfl, hp⟩
    refine (runs_write (c := .thread .priority t) hT rfl _).then ?_
    exact goes_pure (Or.inl ⟨hq0, p, hp, rfl⟩)
  · generalize hqt : v.word (.thread .queue t) = q at hq0
    obtain ⟨hq, hoff, hmem⟩ := h.placed t ht hstate (by rw [hqt]; exact hq0)
    rw [hqt] at hq hoff hmem
    obtain ⟨xs, ys, hls, herase, hn, hp⟩ := h.split hq hmem
    have hthreads : ∀ z ∈ ls q, z ∈ L.threads := fun z hz => h.threads z (h.member q hq z hz)
    refine (Writes.runs
      (writes_resume_removeThreadFromQueue hT ht0 hqt hq0 (h.isQueue q hq) hn hp)).then ?_
    rw [View.clearEmpty_of_off hoff]
    have hc' : L.ContextClear (v.remove q t).currentContext := by
      rw [View.currentContext, View.remove_plain (c := .global _) trivial (by simp)]
      exact hc
    refine goes_bind (goes_checkedPriority hstop hT hc' cpu irqState) ?_
    rintro _ _ ⟨rfl, p, rfl, hp⟩
    refine (runs_write (c := .thread .priority t) hT rfl _).then ?_
    obtain ⟨hremoved, hout⟩ := h.unlinkWait hq hoff hls
    rw [← herase] at hremoved hout
    have hput := hremoved.putField (f := .priority) (t := t) (x := level p) (by simp) (by simp)
      (by simp) (Or.inl fun p' => hout _ (h.runs p'))
    have hin := hput.lists.queue q hq
    rw [Function.update_self] at hin
    have htz : t ∉ (ls q).erase t := by
      have := hout q hq
      rwa [Function.update_self] at this
    unfold onlyIf
    rw [if_pos (decide_eq_true hq0), insertThread_eq]
    refine goes_bind (goes_insertByPriority (Or.inl fun s => hstop _ s) (h.isQueue q hq) hT ht0 hin
      (fun z hz => hthreads z (List.mem_of_mem_erase hz)) htz (level p)) ?_
    rintro _ w rfl
    have hpoint : ((v.remove q t).put (.thread .priority t) (level p)).insertionPoint (level p)
        ((ls q).erase t) = v.insertionPoint (level p) ((ls q).erase t) := by
      refine View.insertionPoint_congr _ fun x hx => ?_
      have hxt : x ≠ t := fun he => htz (he ▸ hx)
      rw [View.put_word, if_neg (by simpa using hxt),
        View.remove_plain (by simp [Cell.Plain]) (by simp)]
    rw [hpoint, markPendingForQueue_off hoff]
    exact goes_pure (Or.inr ⟨q, p, hqt, hq0, hp, rfl⟩)

end

/-! ## The call up to SelectThread -/

/-- The count that OSResumeThread leaves. -/
def lowered (n : Word) : Word :=
  if n.toInt - 1 < 0 then 0#32 else BitVec.ofInt 32 (n.toInt - 1)

theorem lowered_toInt {n : Word} (h : 0 ≤ n.toInt) : (lowered n).toInt = max (n.toInt - 1) 0 := by
  unfold lowered
  split
  · simp only [BitVec.toInt_zero]
    omega
  · have hlt := BitVec.toInt_lt (x := n)
    rw [BitVec.toInt_ofInt_eq_self (by decide) (by omega) (by omega)]
    omega

@[simp] theorem lowered_one : lowered 1#32 = 0#32 := by decide

@[simp] theorem lowered_zero : lowered 0#32 = 0#32 := by decide

def View.suspendOf (v : View) (t : Word) : Word := v.word (.thread .suspend t)

/-- The thread with its count lowered. -/
def View.lower (v : View) (t : Word) : View :=
  v.put (.thread .suspend t) (lowered (v.suspendOf t))

/-- What OSResumeThread does to the view and to the queues before SelectThread. -/
inductive Resumed (L : Layout) (v : View) (ls : Word → List Word) (t : Word) :
    View → (Word → List Word) → Prop
  | counted : v.suspendOf t ≠ 1#32 → Resumed L v ls t (v.lower t) ls
  | ready (p : Fin 32) : v.suspendOf t = 1#32 → v.state t = kThreadStateReady →
    IsEffective L (v.lower t) t (level p) →
    Resumed L v ls t ((v.lower t).placeReady t p)
      (Function.update ls (runQueue p) (ls (runQueue p) ++ [t]))
  | nowhere (p : Fin 32) : v.suspendOf t = 1#32 → v.state t = kThreadStateWaiting →
    v.word (.thread .queue t) = 0#32 → IsEffective L (v.lower t) t (level p) →
    Resumed L v ls t ((v.lower t).put (.thread .priority t) (level p)) ls
  | waiting (q : Word) (p : Fin 32) : v.suspendOf t = 1#32 → v.state t = kThreadStateWaiting →
    v.word (.thread .queue t) = q → q ≠ 0#32 →
    IsEffective L ((v.lower t).remove q t) t (level p) →
    Resumed L v ls t ((v.lower t).placeWaiting q t p ((ls q).erase t))
      (Function.update ls q ((v.lower t).insertByPriority (level p) t ((ls q).erase t)))
  | ended : v.suspendOf t = 1#32 → v.state t ≠ kThreadStateReady →
    v.state t ≠ kThreadStateWaiting → v.state t ≠ kThreadStateRunning →
    Resumed L v ls t (v.lower t) ls

namespace ResumeThread

/-- `lowerSuspendCount` without SelectThread, and whether it goes there. -/
def lowerOnly (fuel : Nat) (cpu : CpuPtr) (threadPtr irqState suspendCount : Word) : OS Bool := do
  let newSuspend := suspendCount.toInt - 1
  if newSuspend < 0 then
    write32 (threadPtr + kThreadSuspendOffset) 0#32
    return false
  write32 (threadPtr + kThreadSuspendOffset) (BitVec.ofInt 32 newSuspend)
  if newSuspend ≠ 0 then return false
  resumeByState fuel cpu threadPtr irqState
  return (← read32 kSchedulerReschedCounterAddr) ≠ 0#32

/-- SelectThread without force, when it is called for. -/
def reschedule (fuel : Nat) (cpu : CpuPtr) (again : Bool) : OS Unit :=
  onlyIf again do
    setGpr cpu 3 0#32
    selectThread fuel cpu

end ResumeThread

theorem lowerSuspendCount_eq (fuel : Nat) (cpu : CpuPtr) (t irqState n : Word) :
    lowerSuspendCount fuel cpu t irqState n = (do
      let again ← lowerOnly fuel cpu t irqState n
      reschedule fuel cpu again) := by
  funext s
  unfold lowerSuspendCount lowerOnly reschedule
  simp only [bind_apply, Routine.ite_apply]
  split
  · simp only [bind_apply, Coop.bind_assoc, pure_apply, Coop.bind_ret, onlyIf_apply,
      Bool.false_eq_true, if_false]
    exact (Coop.bind_pure _).symm
  simp only [Coop.bind_assoc]
  congr 1
  funext _ s
  split
  · simp only [pure_apply, Coop.bind_ret, onlyIf_apply, Bool.false_eq_true, if_false]
  simp only [Coop.bind_assoc]
  congr 1
  funext _ s
  congr 1
  funext counter s
  by_cases hc : counter = 0#32
  · simp [hc]
  · simp [hc]

namespace View

theorem placeReady_plain {v : View} {t : Word} {p : Fin 32} {c : Cell} (hc : c.Plain)
    (hq : c ≠ .thread .queue t) (hp : c ≠ .thread .priority t)
    (hmask : c ≠ .global kSchedulerPendingFlagAddr)
    (hcount : c ≠ .global kSchedulerReschedCounterAddr) :
    (v.placeReady t p).word c = v.word c := by
  rw [placeReady, put_word, if_neg hcount, setMask_word hmask, linkBefore_plain hc hq, put_word,
    if_neg hp]

theorem placeWaiting_plain {v : View} {q t : Word} {p : Fin 32} {zs : List Word} {c : Cell}
    (hc : c.Plain) (hq : c ≠ .thread .queue t) (hp : c ≠ .thread .priority t) :
    (v.placeWaiting q t p zs).word c = v.word c := by
  rw [placeWaiting, linkBefore_plain hc hq, put_word, if_neg hp, remove_plain hc hq]

end View

section

variable {L : Layout} {C : Coop.Contract (Machine Memory) Stop Away} {live : Set Word}
  {v w : View} {W : Set Word} {ls ls' : Word → List Word} {q r t : Word} {fuel : Nat}

/-- The running thread goes on running. -/
theorem Running.keep (h : Running L live v W ls r) (hs : Scheduled L live w W ls')
    (hrun : w.runningContext = v.runningContext) (hcur : w.currentContext = v.currentContext)
    (hstate : w.state r = v.state r) (hsuspend : w.suspendOf r = v.suspendOf r) :
    Running L live w W ls' r :=
  ⟨hs, h.live, hrun.trans h.running, hcur.trans h.current, hstate.trans h.state,
    hsuspend.trans h.suspend⟩

/-- The count of any thread may go down: a queued thread and the running one have 0. -/
theorem Running.lower (h : Running L live v W ls r) (t : Word) :
    Running L live (v.lower t) W ls r := by
  have hzero : v.suspendOf t = 0#32 → v.suspendOf t = lowered (v.suspendOf t) := by
    intro h0
    rw [h0, lowered_zero]
  refine h.keep (h.scheduled.putField (by simp) (by simp) (by simp) ?_) ?_ ?_ rfl ?_
  · by_cases hqueued : ∃ p, t ∈ ls (runQueue p)
    · obtain ⟨p, hp⟩ := hqueued
      exact Or.inr (hzero (h.scheduled.ready p t hp).2.1)
    · exact Or.inl fun p hp => hqueued ⟨p, hp⟩
  · simp [View.runningContext, View.lower]
  · simp [View.currentContext, View.lower]
  · rw [View.suspendOf, View.lower, View.put_word]
    split
    · rename_i heq
      obtain ⟨_, rfl⟩ := Cell.thread.inj heq
      exact (hzero h.suspend).symm
    · rfl

/-- A ready thread that is suspended is in no queue. -/
theorem Scheduled.unlinked_of_suspended (h : Scheduled L live v W ls)
    (hsuspend : v.suspendOf t = 1#32) (hstate : v.state t = kThreadStateReady) :
    Unlinked W ls t := by
  intro q hq hmem
  cases hon : onRunQueueArray q with
  | true =>
    obtain ⟨p, rfl⟩ := runQueue_of_onArray hon
    have h0 : v.suspendOf t = 0#32 := (h.ready p t hmem).2.1
    rw [hsuspend] at h0
    exact absurd h0 (by decide)
  | false =>
    have := h.waiting q hq hon t hmem
    rw [hstate] at this
    exact absurd this (by decide)

/-- Of the kernel words only the mask and the counter change. -/
theorem Resumed.global (h : Resumed L v ls t w ls') {a : Word}
    (hmask : a ≠ kSchedulerPendingFlagAddr) (hcount : a ≠ kSchedulerReschedCounterAddr) :
    w.word (.global a) = v.word (.global a) := by
  have hlow : (v.lower t).word (.global a) = v.word (.global a) := by simp [View.lower]
  refine Eq.trans ?_ hlow
  cases h with
  | counted _ => rfl
  | ended _ _ _ _ => rfl
  | ready p _ _ _ =>
    exact View.placeReady_plain (c := .global a) trivial (by simp) (by simp) (by simpa using hmask)
      (by simpa using hcount)
  | nowhere p _ _ _ _ => simp
  | waiting q p _ _ _ _ _ =>
    exact View.placeWaiting_plain (c := .global a) trivial (by simp) (by simp)

/-- The scheduler stays in order. -/
theorem Resumed.running (hres : Resumed L v ls t w ls') (hL : L.Sound) (h : Running L live v W ls r)
    (ht : t ∈ live) : Running L live w W ls' r := by
  have ht0 := hL.thread_ne_zero (h.scheduled.threads t ht)
  have hlow := h.lower t
  have hrun : w.runningContext = (v.lower t).runningContext :=
    (hres.global (by decide) (by decide)).trans (by simp [View.runningContext, View.lower])
  have hcur : w.currentContext = (v.lower t).currentContext :=
    (hres.global (by decide) (by decide)).trans (by simp [View.currentContext, View.lower])
  cases hres with
  | counted _ => exact hlow
  | ended _ _ _ _ => exact hlow
  | ready p hone hstate _ =>
    have hzero : (v.lower t).word (.thread .suspend t) = 0#32 := by simp [View.lower, hone]
    have hsched := hlow.scheduled.placeReady (p := p) ht ht0
      (h.scheduled.unlinked_of_suspended hone hstate) hstate hzero
    refine hlow.keep hsched hrun hcur rfl ?_
    exact View.placeReady_plain (by simp [Cell.Plain]) (by simp) (by simp) (by simp) (by simp)
  | nowhere p hone hstate _ _ =>
    have hout : ∀ p', t ∉ ls (runQueue p') := by
      intro p' hmem
      have := (h.scheduled.ready p' t hmem).1
      rw [hstate] at this
      exact absurd this (by decide)
    have hsched := hlow.scheduled.putField (f := .priority) (t := t) (x := level p) (by simp)
      (by simp) (by simp) (Or.inl hout)
    refine hlow.keep hsched hrun hcur rfl ?_
    simp [View.suspendOf]
  | waiting q p hone hstate hq hq0 _ =>
    obtain ⟨hin, hoff, hmem⟩ := h.scheduled.placed t ht hstate (hq ▸ hq0)
    rw [hq] at hin hoff hmem
    have hsched := hlow.scheduled.placeWaiting (p := p) ht ht0 hstate hin hoff hmem
    refine hlow.keep hsched hrun hcur rfl ?_
    exact View.placeWaiting_plain (by simp [Cell.Plain]) (by simp) (by simp)

/-- With any other count than 1, only the count changes, whichever cell it is in. -/
theorem runs_lowerOnly_cell {c : Cell} (hc : L.HasCell c)
    (ha : t + kThreadSuspendOffset = c.address) (hone : v.word c ≠ 1#32) (cpu : CpuPtr)
    (irqState : Word) :
    Runs L (lowerOnly fuel cpu t irqState (v.word c)) v false (v.put c (lowered (v.word c))) := by
  unfold lowerOnly
  by_cases hneg : (v.word c).toInt - 1 < 0
  · rw [if_pos hneg]
    refine runs_bind (runs_write hc ha 0#32) ?_
    rw [show (0#32 : Word) = lowered (v.word c) from (if_pos hneg).symm]
    exact runs_pure false
  · have hne : (v.word c).toInt - 1 ≠ 0 := by
      intro h0
      refine hone (BitVec.toInt_inj.mp ?_)
      rw [show (1#32 : Word).toInt = 1 from rfl]
      omega
    rw [if_neg hneg]
    refine runs_bind (runs_write hc ha _) ?_
    rw [show BitVec.ofInt 32 ((v.word c).toInt - 1) = lowered (v.word c) from
      (if_neg hneg).symm, if_pos hne]
    exact runs_pure false

theorem runs_lowerOnly_counted (ht : t ∈ L.threads) (hone : v.suspendOf t ≠ 1#32) (cpu : CpuPtr)
    (irqState : Word) :
    Runs L (lowerOnly fuel cpu t irqState (v.suspendOf t)) v false (v.lower t) :=
  runs_lowerOnly_cell (c := .thread .suspend t) ht rfl hone cpu irqState

theorem goes_lowerOnly (hstop : ∀ e s, C.stops e s) (hL : L.Sound) (h : Running L live v W ls r)
    (ht : t ∈ live) (cpu : CpuPtr) (irqState : Word) :
    Goes L C (lowerOnly fuel cpu t irqState (v.suspendOf t)) v fun again w =>
      (∃ ls', Resumed L v ls t w ls') ∧ (again = true → v.suspendOf t = 1#32) := by
  have hT := h.scheduled.threads t ht
  have hlow := h.lower t
  have hc : L.ContextClear (v.lower t).currentContext :=
    InOrder.contextClear ⟨W, ls, r, hlow⟩ hL
  by_cases hone : v.suspendOf t = 1#32
  · unfold lowerOnly
    rw [if_neg (by rw [hone]; decide)]
    refine (runs_write (c := .thread .suspend t) hT rfl _).then ?_
    rw [show BitVec.ofInt 32 ((v.suspendOf t).toInt - 1) = lowered (v.suspendOf t) by
      rw [hone]; decide]
    change Goes L C _ (v.lower t) _
    rw [if_neg (by rw [hone]; decide)]
    have hzero : (v.lower t).word (.thread .suspend t) = 0#32 := by simp [View.lower, hone]
    refine goes_bind (R := fun _ w => ∃ ls', Resumed L v ls t w ls') ?_ ?_
    · refine (runs_read_state hT).then ?_
      rw [show (v.lower t).state t = v.state t from rfl]
      by_cases hwait : v.state t = kThreadStateWaiting
      · rw [if_pos hwait]
        refine (goes_resumeWaiting hstop hL hlow.scheduled ht hwait hc cpu irqState).mono ?_
        rintro _ w hw
        have hqueue : (v.lower t).word (.thread .queue t) = v.word (.thread .queue t) := by
          simp [View.lower]
        rw [WaitsAgain, hqueue] at hw
        rcases hw with ⟨hq, p, hp, rfl⟩ | ⟨q, p, hq, hq0, hp, rfl⟩
        · exact ⟨_, .nowhere p hone hwait hq hp⟩
        · exact ⟨_, .waiting q p hone hwait hq hq0 hp⟩
      rw [if_neg hwait]
      by_cases hready : v.state t = kThreadStateReady
      · rw [if_pos hready]
        have hout := h.scheduled.unlinked_of_suspended hone hready
        refine (goes_resumeReady hstop hL hlow.scheduled ht hout hc cpu irqState).mono ?_
        rintro _ w ⟨p, hp, rfl⟩
        exact ⟨_, .ready p hone hready hp⟩
      rw [if_neg hready]
      by_cases hrun : v.state t = kThreadStateRunning
      · rw [if_pos hrun]
        exact goes_abortResume hstop hc _ cpu irqState
      · rw [if_neg hrun]
        exact goes_pure ⟨ls, .ended hone hready hwait hrun⟩
    rintro _ w hw
    refine (runs_read (c := .global kSchedulerReschedCounterAddr) reschedCounter_mem rfl).then ?_
    exact goes_pure ⟨hw, fun _ => hone⟩
  · exact (runs_lowerOnly_counted hT hone cpu irqState).goes ⟨⟨ls, .counted hone⟩, by simp⟩

end

/-! ## The whole call -/

namespace ResumeThread

/-- `mkw_switch_hle_os_resume_thread` up to SelectThread: the interrupt state, the suspend
count, and whether it goes there. -/
def untilSelect (fuel : Nat) (cpu : CpuPtr) (threadPtr : Word) : OS (Word × Word × Bool) := do
  osDisableInterrupts cpu
  let irqState ← getGpr cpu 3
  unless ← mapped32 (threadPtr + kThreadSuspendOffset) do
    return ← abortResumeBoundary "OSRESUMETHREAD_BAD_GUEST_STATE" cpu threadPtr irqState
  unless ← contains (threadPtr + kThreadStateOffset) 2#64 do
    return ← abortResumeBoundary "OSRESUMETHREAD_BAD_GUEST_STATE" cpu threadPtr irqState
  let suspendCount ← read32 (threadPtr + kThreadSuspendOffset)
  let again ← lowerOnly fuel cpu threadPtr irqState suspendCount
  return (irqState, suspendCount, again)

/-- The rest of it. -/
def finish (fuel : Nat) (cpu : CpuPtr) : Word × Word × Bool → OS Unit
  | (irqState, suspendCount, again) => do
    reschedule fuel cpu again
    setGpr cpu 3 suspendCount
    restoreInterrupts cpu irqState

end ResumeThread

section

variable {L : Layout} {live : Set Word} {v w : View} {W : Set Word} {ls ls' : Word → List Word}
  {q r t : Word} {fuel : Nat}

/-- A boundary is never passed. -/
theorem abortResume_bind {α β γ : Type} (kind : String) (cpu : CpuPtr) (t irqState : Word)
    (f : α → OS γ) (g : β → OS γ) :
    (abortResumeBoundary kind cpu t irqState >>= f : OS γ) =
      (abortResumeBoundary kind cpu t irqState >>= g) := by
  funext s
  simp only [abortResumeBoundary, bind_apply, Coop.bind_assoc]
  congr 1

theorem osResumeThread_eq {ctx : CpuPtr} {s : Machine Memory} (ht : s.gpr (cpuOf ctx) 3 = t)
    (ht0 : t ≠ 0#32) : osResumeThread fuel ctx s =
      (untilSelect fuel (cpuOf ctx) t >>= finish fuel (cpuOf ctx)) s := by
  unfold osResumeThread
  rw [bind_of (getGpr_apply ..), ht, Routine.ite_apply, if_neg ht0]
  unfold untilSelect resume
  simp only [bind_apply, Coop.bind_assoc, lowerSuspendCount_eq]
  congr 1
  funext _ s
  congr 1
  funext irqState s
  congr 1
  funext b s
  cases b with
  | false => exact congrFun (abortResume_bind _ _ t irqState _ _) s
  | true =>
    simp only [if_true, bind_apply, Coop.bind_assoc]
    congr 1
    funext b s
    cases b with
    | false => exact congrFun (abortResume_bind _ _ t irqState _ _) s
    | true =>
      simp only [if_true, bind_apply, Coop.bind_assoc]
      rfl

/-- What the call has done when it goes into SelectThread. -/
theorem goes_untilSelect {C : Coop.Contract (Machine Memory) Stop Away}
    (hstop : ∀ e s, C.stops e s) (hL : L.Sound) (h : Running L live v W ls r)
    (ht : t ∈ live) (cpu : CpuPtr) :
    Goes L C (untilSelect fuel cpu t) v fun e w =>
      e.2.1 = v.suspendOf t ∧ (∃ ls', Resumed L v ls t w ls') ∧
        (e.2.2 = true → v.suspendOf t = 1#32) := by
  have hT := h.scheduled.threads t ht
  have hc : L.ContextClear v.currentContext := InOrder.contextClear ⟨W, ls, r, h⟩ hL
  refine goes_bind (goes_exchangeInterrupts hc cpu false) ?_
  rintro _ v rfl
  refine goes_bind (goes_gets _) ?_
  rintro irqState v rfl
  refine (runs_mapped (c := .thread .suspend t) hT rfl).then ?_
  rw [if_pos rfl]
  refine (runs_contains_state hT).then ?_
  rw [if_pos rfl]
  refine (runs_read (c := .thread .suspend t) hT rfl).then ?_
  refine goes_bind (goes_lowerOnly hstop hL h ht cpu irqState) ?_
  rintro again w ⟨hw, hagain⟩
  exact goes_pure ⟨rfl, hw, hagain⟩

/-- OSResumeThread on a live thread. -/
theorem osResumeThread_meetsIn {ω : Type} {C : Coop.WorldContract ω (Machine Memory) Away}
    {g : ω} {Q : ω → View → Prop} (hL : L.Sound)
    (h : Running L live v W ls r) (ht : t ∈ live) (hleaves : LeavesView L C g v.callback)
    (hand : ∀ ls' w u ls'' x, v.suspendOf t = 1#32 → Resumed L v ls t w ls' →
      Dispatched w ls' r u ls'' x → HandsOverIn L C g u Q)
    (hstay : ∀ ls' w, Resumed L v ls t w ls' → Q g w)
    (hQ : ∀ g' w, Q g' w → ∃ live', InOrder L live' w) {ctx : CpuPtr} {s : Machine Memory}
    (hs : Represents L s.mem v) (ht3 : s.gpr (cpuOf ctx) 3 = t) :
    (osResumeThread fuel ctx s).MeetsIn C
      (fun g' _ t' => ∃ w, Represents L t'.mem w ∧ Q g' w) g := by
  have ht0 := hL.thread_ne_zero (h.scheduled.threads t ht)
  rw [osResumeThread_eq ht3 ht0]
  refine (Goes.thenIn (goes_untilSelect (C := C.still g) (fun _ _ => still_stops _ _) hL h ht _)
    (Q := fun g' _ w => Q g' w) ?_) s hs
  rintro ⟨irqState, n, again⟩ w ⟨_, ⟨ls', hres⟩, hone⟩
  have hrun := hres.running hL h ht
  refine goesIn_bind (R := fun g' _ w => Q g' w) ?_ ?_
  · unfold reschedule onlyIf
    split
    · rename_i hagain
      refine (goes_setGpr _ 3 0#32).thenIn ?_
      rintro _ w rfl
      have hcb : w.callback = v.callback := hres.global (by decide) (by decide)
      exact goesIn_selectThread hL hrun.atSelect (hcb.symm ▸ hleaves)
        (fun u ls'' x hd => hand ls' w u ls'' x (hone hagain) hres hd) (fun _ => hstay ls' w hres) _
    · exact goesIn_pure (hstay ls' w hres)
  rintro g' _ w hw
  obtain ⟨live', hw'⟩ := hQ g' w hw
  refine (goes_setGpr _ 3 n).thenIn ?_
  rintro _ w rfl
  refine (goes_restoreInterrupts (hw'.contextClear hL) _ irqState).goesIn.mono ?_
  rintro _ _ u ⟨rfl, rfl⟩
  exact hw

end

end wii_switch
