-- The copies of the queue routines. SelectThread, OSSleepThread and OSResumeThread each carry
-- their own code to link a thread in and to unlink one, with the writes in an order of their
-- own; on a well-formed queue all copies leave one memory.
import Mathlib.Data.List.TakeWhile
import WiiSwitch.RunQueues
import WiiSwitch.WiiLayout

namespace wii_switch

open OS Routine Ring

/-! ## The insertions -/

/-- The link of SelectThread, and its mark of the run queue. -/
def linkAndMark (thread priority : Word) : OS Unit := do
  SelectThread.linkThreadOnRunQueue thread priority
  SelectThread.markRunQueuePending priority

section

variable {L : Layout} {v : View} {q t : Word} {p : Fin 32} {xs : List Word} {fuel : Nat}

/-- Among threads of one priority a thread of that priority goes to the end. -/
theorem insertionPoint_of_level (h : ∀ x ∈ xs, v.word (.thread .priority x) = level p) :
    v.insertionPoint (level p) xs = 0#32 := by
  have hnil : xs.dropWhile (fun x => (v.word (.thread .priority x)).toInt ≤ (level p).toInt) =
      [] := by
    rw [List.dropWhile_eq_nil_iff]
    intro x hx
    rw [h x hx]
    simp
  rw [View.insertionPoint, hnil, first_nil]

theorem tail_threadOrNone (h : v.Queue q xs) (hxs : ∀ x ∈ xs, x ∈ L.threads) :
    L.ThreadOrNone (v.word (.tail q)) := threadOrNone_of_mem hxs h.tail_mem

/-- SelectThread puts the thread at the tail, and also asks for a new selection. -/
theorem writes_linkAndMark (h : v.Queue (runQueue p) xs) (hxs : ∀ x ∈ xs, x ∈ L.threads)
    (ht : t ∈ L.threads) : Writes L (linkAndMark t (level p)) v ()
      (((v.linkBefore (runQueue p) t 0#32).setMask (v.mask ||| pendingBit (level p))).put
        (.global kSchedulerReschedCounterAddr) 1#32) := by
  have hvalid : validPriority (level p) = true := (validPriority_iff _).mpr ⟨p, rfl⟩
  have hlink := writes_linkThreadOnRunQueue (L := L) (v := v) hvalid (isQueue_runQueue L p) ht
    (tail_threadOrNone h hxs)
  have hmask : (v.linkBefore (runQueue p) t 0#32).mask = v.mask :=
    View.linkBefore_plain (c := .global kSchedulerPendingFlagAddr) trivial (by simp)
  rw [← hmask]
  exact writes_bind hlink (writes_markRunQueuePending p)

/-- OSResumeThread finds the tail of a run queue by a search. -/
theorem writes_resumeInsert (hL : L.Sound) (h : v.Queue (runQueue p) xs)
    (hxs : ∀ x ∈ xs, x ∈ L.threads ∧ v.word (.thread .priority x) = level p)
    (ht : t ∈ L.threads) (htx : t ∉ xs) (hfuel : xs.length < fuel) :
    Writes L (ResumeThread.insertThreadIntoQueueByPriority fuel (runQueue p) t (level p)) v ()
      ((v.linkBefore (runQueue p) t 0#32).setMask (v.mask ||| pendingBit (level p))) := by
  have hlink := writes_insertByPriority_of_length (isQueue_runQueue L p) ht (hL.thread_ne_zero ht) h
    (fun x hx => (hxs x hx).1) htx hfuel (level p)
  rw [insertionPoint_of_level fun x hx => (hxs x hx).2] at hlink
  have hmask : (v.linkBefore (runQueue p) t 0#32).mask = v.mask :=
    View.linkBefore_plain (c := .global kSchedulerPendingFlagAddr) trivial (by simp)
  rw [insertThread_eq, ← hmask]
  exact writes_bind hlink (writes_markPendingForQueue p)

/-- Outside the run queues there is nothing to mark. -/
theorem resumeInsert_off (hoff : onRunQueueArray q = false) (fuel : Nat) (t priority : Word) :
    ResumeThread.insertThreadIntoQueueByPriority fuel q t priority =
      SleepThread.insertThreadIntoQueueByPriority fuel q t priority := by
  rw [insertThread_eq, markPendingForQueue_off hoff]
  funext s
  exact Coop.bind_pure _

end

/-! ## The law -/

/-- The copies of the queue routines agree. -/
structure CopiesAgree (L : Layout) : Prop where
  /-- A thread goes into the run queue of its priority. All reads but those of the reschedule
  counter are the same. -/
  link : ∀ {v p t xs s} (fuel : Nat), Represents L s.mem v → v.Queue (runQueue p) xs →
    (∀ x ∈ xs, x ∈ L.threads ∧ v.word (.thread .priority x) = level p) →
    t ∈ L.threads → t ∉ xs →
    xs.length < fuel → ∃ m₁ m₂, linkAndMark t (level p) s = .ret () (s.withMem m₁) ∧
      ResumeThread.insertThreadIntoQueueByPriority fuel (runQueue p) t (level p) s =
        .ret () (s.withMem m₂) ∧
      ∀ k a, Apart L.config a.toNat k.bytes kSchedulerReschedCounterAddr.toNat 4 →
        m₂.read k a = m₁.read k a
  /-- A thread goes into a queue outside the run queues. The two copies are one routine. -/
  insert : ∀ {q}, onRunQueueArray q = false → ∀ fuel t priority,
    ResumeThread.insertThreadIntoQueueByPriority fuel q t priority =
      SleepThread.insertThreadIntoQueueByPriority fuel q t priority
  /-- On a well-formed queue it ends. -/
  ends : ∀ {v q t xs s} (fuel : Nat) (priority : Word), Represents L s.mem v → v.Queue q xs →
    L.IsQueue q → (∀ x ∈ xs, x ∈ L.threads) → t ∈ L.threads → t ∉ xs →
    xs.length < fuel →
    ∃ m, SleepThread.insertThreadIntoQueueByPriority fuel q t priority s = .ret () (s.withMem m)
  /-- A thread leaves its queue, in SelectThread and in OSResumeThread. -/
  remove : ∀ {v q t xs s}, Represents L s.mem v → v.Queue q xs → L.IsQueue q →
    (∀ x ∈ xs, x ∈ L.threads) → t ∈ xs → v.word (.thread .queue t) = q →
    ∃ m₁ m₂, SelectThread.removeThreadFromQueue t s = .ret () (s.withMem m₁) ∧
      ResumeThread.removeThreadFromQueue t s = .ret () (s.withMem m₂) ∧
      ∀ k a, m₂.read k a = m₁.read k a
  /-- A thread leaves a queue outside the run queues, in SelectThread and in OSSleepThread. -/
  unlink : ∀ {v q t xs s}, Represents L s.mem v → v.Queue q xs → L.IsQueue q →
    onRunQueueArray q = false → (∀ x ∈ xs, x ∈ L.threads) → t ∈ xs →
    v.word (.thread .queue t) = q →
    ∃ m₁ m₂, SelectThread.removeThreadFromQueue t s = .ret () (s.withMem m₁) ∧
      (do
        SleepThread.unlinkWaitQueueNode q t
        write32 (t + kThreadQueueOffset) 0#32) s = .ret () (s.withMem m₂) ∧
      ∀ k a, m₂.read k a = m₁.read k a

section

variable {L : Layout} {v : View} {q t : Word} {xs : List Word}

/-- The neighbours of a thread of a queue. -/
theorem neighbours (h : v.Queue q xs) (hxs : ∀ x ∈ xs, x ∈ L.threads) (ht : t ∈ xs) :
    L.ThreadOrNone (v.nextOf q t) ∧ L.ThreadOrNone (v.prevOf q t) := by
  obtain ⟨ys, zs, rfl⟩ := List.append_of_mem ht
  constructor
  · rw [h.nextOf_mem]
    exact threadOrNone_of_mem (fun y hy => hxs y (by simp [hy])) first_mem
  · exact threadOrNone_of_mem (fun y hy => hxs y (by simp [hy])) (h.prevOf_mem rfl)

theorem the_queue_copies_agree (hL : L.Sound) : CopiesAgree L where
  link := by
    intro v p t xs s fuel hs h hxs ht htx hfuel
    obtain ⟨m₁, hx₁, h₁, e₁⟩ := writes_linkAndMark h (fun x hx => (hxs x hx).1) ht s hs
    obtain ⟨m₂, hx₂, h₂, e₂⟩ := writes_resumeInsert hL h hxs ht htx hfuel s hs
    refine ⟨m₁, m₂, hx₁, hx₂, fun k a hap => ?_⟩
    refine h₁.read_eq h₂ e₁ e₂ (fun c hc => ?_) fun _ _ => rfl
    by_cases hcount : c = .global kSchedulerReschedCounterAddr
    · subst hcount
      exact Or.inr hap
    · rw [View.put_word, if_neg hcount]
      exact Or.inl rfl
  insert := fun hoff fuel t priority => resumeInsert_off hoff fuel t priority
  ends := by
    intro v q t xs s fuel priority hs h hq hxs ht htx hfuel
    obtain ⟨m, hrun, _⟩ := writes_insertByPriority_of_length hq ht (hL.thread_ne_zero ht) h hxs
      htx hfuel priority s hs
    exact ⟨m, hrun⟩
  remove := by
    intro v q t xs s hs h hq hxs ht hqt
    obtain ⟨hn, hp⟩ := neighbours h hxs ht
    have htT := hxs t ht
    have ht0 := hL.thread_ne_zero htT
    have hq0 := hL.queue_ne_zero hq
    exact (writes_select_removeThreadFromQueue htT ht0 hqt hq0 hq hn hp).same_memory
      (writes_resume_removeThreadFromQueue htT ht0 hqt hq0 hq hn hp) hs
  unlink := by
    intro v q t xs s hs h hq hoff hxs ht hqt
    obtain ⟨hn, hp⟩ := neighbours h hxs ht
    have htT := hxs t ht
    have ht0 := hL.thread_ne_zero htT
    have hselect := writes_select_removeThreadFromQueue htT ht0 hqt (hL.queue_ne_zero hq) hq hn hp
    rw [View.clearEmpty_of_off hoff] at hselect
    exact hselect.same_memory (writes_unlinkWaitQueueNode hq htT ht0 hn hp) hs

end

/-! ## A queue with one thread -/

/-- A thread, and the wait queue at `0x80500000`. -/
def oneThread : Layout := wiiLayout [0x80400000#32] [0x80500000#32] []

theorem oneThread_sound : oneThread.Sound := wiiLayout_sound (by decide +kernel)

/-- The thread waits in the queue. -/
def oneWaitsCells : List (Cell × Word) :=
  [(.head 0x80500000#32, 0x80400000#32), (.tail 0x80500000#32, 0x80400000#32),
    (.thread .queue 0x80400000#32, 0x80500000#32)]

def oneWaits : View := View.ofList oneWaitsCells []

theorem oneWaits_queue : oneWaits.Queue 0x80500000#32 [0x80400000#32] := by
  refine ⟨⟨⟨?_, ?_⟩, ?_, ?_⟩, by decide⟩ <;> decide +kernel

/-- The law where that thread leaves. -/
theorem the_copies_remove_one_thread : ∃ (s : Machine Memory) (m₁ m₂ : Memory),
    Represents oneThread s.mem oneWaits ∧
    SelectThread.removeThreadFromQueue 0x80400000#32 s = .ret () (s.withMem m₁) ∧
    ResumeThread.removeThreadFromQueue 0x80400000#32 s = .ret () (s.withMem m₂) ∧
    ∀ k a, m₂.read k a = m₁.read k a := by
  obtain ⟨m, hm⟩ := exists_view oneThread_sound rfl oneWaitsCells []
    (by simp [oneWaitsCells, oneThread, wiiLayout, Layout.HasCell, Layout.IsQueue, Layout.HasBlock])
    (by simp)
  obtain ⟨m₁, m₂, h⟩ :=
    (the_queue_copies_agree oneThread_sound).remove (s := bootMachine m) hm
    oneWaits_queue (Or.inl (Or.inr (List.mem_singleton.mpr rfl)))
    (fun x hx => by simpa [oneThread, wiiLayout] using hx) (List.mem_singleton.mpr rfl)
    (by decide +kernel)
  exact ⟨bootMachine m, m₁, m₂, hm, h⟩

end wii_switch
