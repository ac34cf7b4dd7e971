-- Wait queues as stable priority queues. Threads go into a queue and out of it by any of the
-- routines, in any order; the queue then has the threads that are in it, in the order of the
-- priorities, and threads of one priority in the order in which they came.
import WiiSwitch.Lib.StableQueue
import WiiSwitch.QueueCopies

namespace wii_switch

open OS Routine Ring

/-! ## The walks -/

/-- The threads from `x` on along the links at `offset`, up to a null link. -/
def walk (m : Memory) (offset : Word) : Nat → Word → Option (List Word)
  | 0, _ => none
  | fuel + 1, x =>
    if x = 0#32 then some []
    else
      match m.read32 (x + offset) with
      | none => none
      | some y => (walk m offset fuel y).map fun xs => x :: xs

/-- The walk from the head of the queue. -/
def forwardWalk (m : Memory) (fuel : Nat) (q : Word) : Option (List Word) :=
  (m.read32 q).bind (walk m kThreadNextOffset fuel)

/-- The walk from the tail of the queue. -/
def backwardWalk (m : Memory) (fuel : Nat) (q : Word) : Option (List Word) :=
  (m.read32 (q + 4#32)).bind (walk m kThreadPrevOffset fuel)

section

variable {L : Layout} {m : Memory} {v : View} {q : Word} {xs : List Word} {fuel : Nat}

/-- A walk follows a path to its end. -/
theorem walk_path {offset : Word} {fd bk : Word → Word} {a : Word} (h : Path fd bk a xs 0#32)
    (h0 : ∀ x ∈ xs, x ≠ 0#32) (hread : ∀ x ∈ xs, m.read32 (x + offset) = some (fd x))
    (hfuel : xs.length < fuel) : walk m offset fuel (fd a) = some xs := by
  induction xs generalizing a fuel with
  | nil =>
    obtain ⟨fuel, rfl⟩ := Nat.exists_eq_add_of_lt hfuel
    rw [h.1, Nat.add_succ, walk, if_pos rfl]
  | cons x xs ih =>
    obtain ⟨fuel, rfl⟩ : ∃ n, fuel = n + 1 := ⟨fuel - 1, by omega⟩
    have hx := hread x List.mem_cons_self
    rw [h.1.1, walk, if_neg (h0 x List.mem_cons_self), hx]
    have hrest : walk m offset fuel (fd x) = some xs := by
      apply ih h.2 (fun y hy => h0 y (List.mem_cons_of_mem x hy))
      · exact fun y hy => hread y (List.mem_cons_of_mem x hy)
      · rw [List.length_cons] at hfuel
        omega
    simp only [hrest, Option.map_some]

/-- Both walks of a queue visit its threads and end. -/
theorem walks_queue (hm : Represents L m v) (h : v.Queue q xs) (hq : L.IsQueue q)
    (hxs : ∀ x ∈ xs, x ∈ L.threads) (hfuel : xs.length < fuel) :
    forwardWalk m fuel q = some xs ∧ backwardWalk m fuel q = some xs.reverse := by
  have hhead : m.read32 q = some (v.nextOf q 0#32) := hm.words (.head q) hq
  have htail : m.read32 (q + 4#32) = some (v.prevOf q 0#32) := hm.words (.tail q) hq
  have h0 : ∀ x ∈ xs, x ≠ 0#32 := fun x hx => h.ne_zero hx
  constructor
  · rw [forwardWalk, hhead, Option.bind_some]
    refine walk_path h.1 h0 (fun x hx => ?_) hfuel
    rw [View.nextOf, nextCell_thread q (h0 x hx)]
    exact hm.words (.thread .next x) (hxs x hx)
  · rw [backwardWalk, htail, Option.bind_some]
    refine walk_path h.1.reverse (fun x hx => h0 x (List.mem_reverse.mp hx)) (fun x hx => ?_)
      (by rwa [List.length_reverse])
    have hx' := List.mem_reverse.mp hx
    rw [View.prevOf, prevCell_thread q (h0 x hx')]
    exact hm.words (.thread .prev x) (hxs x hx')

end

/-! ## The runs of one queue -/

/-- The two copies of `InsertThreadIntoQueueByPriority`. -/
inductive Insertion where
  | sleep
  | resume
deriving DecidableEq

def Insertion.code : Insertion → Nat → Word → Word → Word → OS Unit
  | sleep => SleepThread.insertThreadIntoQueueByPriority
  | resume => ResumeThread.insertThreadIntoQueueByPriority

/-- The ways out of a queue: `UnlinkWaitQueueNode`, and the two copies of
`RemoveThreadFromQueue`. -/
inductive Removal where
  | sleep
  | resume
  | select
deriving DecidableEq

def Removal.code : Removal → Word → Word → OS Unit
  | sleep, queue, thread => SleepThread.unlinkWaitQueueNode queue thread
  | resume, _, thread => ResumeThread.removeThreadFromQueue thread
  | select, _, thread => SelectThread.removeThreadFromQueue thread

/-- The cells of the queue `q` with the threads `ts`. -/
def queueCells (q : Word) (ts : List Word) : List Cell :=
  [.head q, .tail q] ++ ts.flatMap fun t =>
    [.thread .queue t, .thread .next t, .thread .prev t, .thread .priority t]

/-- The runs of the queue `q`, with the threads that were put in and not taken out, in the
order of their arrival. A thread is put in with its stored priority. Between the routines
memory may change, but for the cells of the queue. -/
inductive QueueRun (L : Layout) (q : Word) : List Word → Machine Memory → Prop
  | start {v : View} {s : Machine Memory} : Represents L s.mem v → v.word (.head q) = 0#32 →
    v.word (.tail q) = 0#32 → QueueRun L q [] s
  | insert {ts : List Word} {s s' : Machine Memory} {t priority : Word} {fuel : Nat}
    (i : Insertion) : QueueRun L q ts s → t ∈ L.threads → t ∉ ts →
    s.mem.read32 (t + kThreadPriorityOffset) = some priority →
    i.code fuel q t priority s = .ret () s' → QueueRun L q (ts ++ [t]) s'
  | remove {ts : List Word} {s s' : Machine Memory} {t : Word} (r : Removal) : QueueRun L q ts s →
    t ∈ ts → r.code q t s = .ret () s' → QueueRun L q (ts.erase t) s'
  | other {ts : List Word} {s s' : Machine Memory} : QueueRun L q ts s →
    Serves L.config s'.mem →
    (∀ c ∈ queueCells q ts, s'.mem.read32 c.address = s.mem.read32 c.address) →
    QueueRun L q ts s'

/-- The stored priority of a thread. -/
def View.priorityOf (v : View) (t : Word) : Int := (v.word (.thread .priority t)).toInt

/-- The queue has the threads `ts` in the order of a stable priority queue. -/
structure Queued (L : Layout) (q : Word) (ts : List Word) (v : View) (xs : List Word) : Prop where
  queue : v.Queue q xs
  ordered : StableQueue.Ordered v.priorityOf ts xs
  nodup : ts.Nodup
  threads : ∀ t ∈ ts, t ∈ L.threads
  field : ∀ t ∈ ts, v.word (.thread .queue t) = q

section

variable {L : Layout} {v w : View} {q t priority : Word} {ts xs : List Word} {fuel : Nat}

theorem Queued.threads' (h : Queued L q ts v xs) : ∀ x ∈ xs, x ∈ L.threads := fun x hx =>
  h.threads x (h.ordered.mem_iff.mp hx)

theorem Queued.length (h : Queued L q ts v xs) : xs.length = ts.length := h.ordered.perm.length_eq

/-- Only the cells of the queue matter. -/
theorem Queued.congr (h : Queued L q ts v xs)
    (hw : ∀ c ∈ queueCells q ts, w.word c = v.word c) : Queued L q ts w xs := by
  have hcell : ∀ t ∈ ts, ∀ f ∈ [ThreadField.queue, .next, .prev, .priority],
      w.word (.thread f t) = v.word (.thread f t) := by
    intro t ht f hf
    apply hw
    rw [queueCells, List.mem_append, List.mem_flatMap]
    refine Or.inr ⟨t, ht, ?_⟩
    simp only [List.mem_cons, List.not_mem_nil, or_false] at hf ⊢
    rcases hf with rfl | rfl | rfl | rfl <;> simp
  have hmem : ∀ x ∈ xs, x ∈ ts := fun x hx => h.ordered.mem_iff.mp hx
  refine ⟨h.queue.congr (fun x hx => ?_) fun x hx => ?_, h.ordered.congr fun x hx => ?_, h.nodup,
    h.threads, fun t ht => ?_⟩
  · unfold View.nextOf nextCell
    rcases List.mem_cons.mp hx with rfl | hx
    · exact hw _ (by simp [queueCells])
    · rw [if_neg (h.queue.ne_zero hx)]
      exact hcell x (hmem x hx) .next (by simp)
  · unfold View.prevOf prevCell
    rcases List.mem_cons.mp hx with rfl | hx
    · exact hw _ (by simp [queueCells])
    · rw [if_neg (h.queue.ne_zero hx)]
      exact hcell x (hmem x hx) .prev (by simp)
  · rw [View.priorityOf, hcell x (hmem x hx) .priority (by simp)]
    rfl
  · rw [hcell t ht .queue (by simp)]
    exact h.field t ht

/-- A thread comes in. -/
theorem Queued.insert (h : Queued L q ts v xs) (ht : t ∈ L.threads) (ht0 : t ≠ 0#32)
    (hts : t ∉ ts) : Queued L q (ts ++ [t])
      (v.linkBefore q t (v.insertionPoint (v.word (.thread .priority t)) xs))
      (StableQueue.insert v.priorityOf t xs) := by
  have htx : t ∉ xs := fun hx => hts (h.ordered.mem_iff.mp hx)
  have hsplit := List.takeWhile_append_dropWhile
    (p := fun y => decide (v.priorityOf y ≤ v.priorityOf t)) (l := xs)
  have hprio : ∀ x, (v.linkBefore q t (v.insertionPoint (v.word (.thread .priority t)) xs)).word
      (.thread .priority x) = v.word (.thread .priority x) := fun x =>
    View.linkBefore_plain (by simp [Cell.Plain]) (by simp)
  refine ⟨?_, ?_, ?_, ?_, ?_⟩
  · exact View.Queue.linkBefore (hsplit.symm ▸ h.queue) ht0 (hsplit.symm ▸ htx) rfl
  · refine (h.ordered.insert t).congr fun x _ => ?_
    rw [View.priorityOf, hprio]
    rfl
  · exact List.nodup_append.mpr ⟨h.nodup, List.nodup_singleton t, fun x hx y hy he => by
      rw [List.mem_singleton.mp hy] at he
      exact hts (he ▸ hx)⟩
  · intro x hx
    rcases List.mem_append.mp hx with hx | hx
    · exact h.threads x hx
    · rw [List.mem_singleton.mp hx]
      exact ht
  · intro x hx
    rcases List.mem_append.mp hx with hx | hx
    · have hxt : x ≠ t := fun he => hts (he ▸ hx)
      rw [View.linkBefore_plain (by simp [Cell.Plain]) (by simpa using hxt)]
      exact h.field x hx
    · rw [List.mem_singleton.mp hx]
      exact View.linkBefore_queue v q t _

/-- A thread goes out, in any view that agrees but for the thread. -/
theorem Queued.erase (h : Queued L q ts v xs) (ht : t ∈ ts)
    (hn : ∀ x, x ≠ t → w.nextOf q x = (v.unlink q t).nextOf q x)
    (hp : ∀ x, x ≠ t → w.prevOf q x = (v.unlink q t).prevOf q x)
    (hf : ∀ x, x ≠ t → w.word (.thread .queue x) = v.word (.thread .queue x) ∧
      w.word (.thread .priority x) = v.word (.thread .priority x)) :
    Queued L q (ts.erase t) w (xs.erase t) := by
  have hne : ∀ x ∈ ts.erase t, x ≠ t ∧ x ∈ ts := fun x hx => h.nodup.mem_erase_iff.mp hx
  have hordered := h.ordered.erase h.nodup t
  obtain ⟨ys, zs, hsplit⟩ := List.append_of_mem (h.ordered.mem_iff.mpr ht)
  have hqueue : v.Queue q (ys ++ t :: zs) := hsplit ▸ h.queue
  have hys : t ∉ ys := fun hx =>
    (List.nodup_append.mp (List.nodup_cons.mp hqueue.2).2).2.2 t hx t List.mem_cons_self rfl
  refine ⟨?_, hordered.congr fun x hx => ?_, h.nodup.erase t, fun x hx =>
    h.threads x (hne x hx).2,
    fun x hx => ?_⟩
  · rw [hsplit, List.erase_append_right _ hys, List.erase_cons_head]
    exact hqueue.unlink hn hp
  · rw [View.priorityOf, (hf x (hne x (hordered.mem_iff.mp hx)).1).2]
    rfl
  · rw [(hf x (hne x hx).1).1]
    exact h.field x (hne x hx).2

end

/-! ## The routines -/

section

variable {L : Layout} {v : View} {q t priority : Word} {ts xs : List Word} {fuel : Nat}

/-- The bit of a run queue that a thread came into. -/
def View.markQueue (v : View) (q : Word) : View :=
  if onRunQueueArray q = true then v.setMask (v.mask ||| pendingBit (runQueueIndex q)) else v

theorem View.markQueue_word {c : Cell} (hc : c ≠ .global kSchedulerPendingFlagAddr) (v : View)
    (q : Word) : (v.markQueue q).word c = v.word c := by
  unfold markQueue
  split
  · exact setMask_word hc _
  · rfl

theorem runs_markPending (q : Word) :
    Runs L (ResumeThread.markPendingForQueue q) v () (v.markQueue q) := by
  unfold View.markQueue
  by_cases hon : onRunQueueArray q = true
  · obtain ⟨p, rfl⟩ := runQueue_of_onArray hon
    rw [if_pos hon, runQueue_index]
    exact (writes_markPendingForQueue p).runs
  · rw [if_neg hon, markPendingForQueue_off (by simpa using hon)]
    exact runs_pure ()

/-- The cells of a queue are not the pending mask. -/
theorem queueCells_ne_global {c : Cell} (hc : c ∈ queueCells q ts)
    (a : Word) : c ≠ .global a := by
  rintro rfl
  simp [queueCells] at hc

/-- What an insertion leaves. -/
def Insertion.view (i : Insertion) (v : View) (q t n : Word) : View :=
  match i with
  | sleep => v.linkBefore q t n
  | resume => (v.linkBefore q t n).markQueue q

theorem Queued.inserted (h : Queued L q ts v xs) (ht : t ∈ L.threads) (ht0 : t ≠ 0#32)
    (hts : t ∉ ts) (i : Insertion) : Queued L q (ts ++ [t])
      (i.view v q t (v.insertionPoint (v.word (.thread .priority t)) xs))
      (StableQueue.insert v.priorityOf t xs) := by
  cases i with
  | sleep => exact h.insert ht ht0 hts
  | resume =>
    refine (h.insert ht ht0 hts).congr fun c hc => ?_
    exact View.markQueue_word (queueCells_ne_global hc _) _ q

/-- An insertion with enough fuel ends. -/
theorem Queued.runs_insertion (h : Queued L q ts v xs) (hL : L.Sound) (hq : L.IsQueue q)
    (ht : t ∈ L.threads) (hts : t ∉ ts) (hfuel : ts.length < fuel) (i : Insertion)
    (priority : Word) : Runs L (i.code fuel q t priority) v ()
      (i.view v q t (v.insertionPoint priority xs)) := by
  have hlink := (writes_insertByPriority_of_length hq ht (hL.thread_ne_zero ht) h.queue h.threads'
    (fun hx => hts (h.ordered.mem_iff.mp hx)) (h.length ▸ hfuel) priority).runs
  cases i with
  | sleep => exact hlink
  | resume => exact runs_bind hlink (runs_markPending q)

/-- Every end of an insertion. -/
theorem Queued.goes_insertion (h : Queued L q ts v xs) (hL : L.Sound) (hq : L.IsQueue q)
    (ht : t ∈ L.threads) (hts : t ∉ ts) (i : Insertion) (priority : Word) :
    Goes L .any (i.code fuel q t priority) v fun _ w =>
      w = i.view v q t (v.insertionPoint priority xs) := by
  have hany :
    (∀ s, (Coop.Contract.any : Coop.Contract (Machine Memory) Stop Away).stops .diverge s) ∨
      xs.length < fuel := Or.inl fun _ => trivial
  have hlink := goes_insertByPriority hany hq ht (hL.thread_ne_zero ht) h.queue h.threads'
    (fun hx => hts (h.ordered.mem_iff.mp hx)) priority
  cases i with
  | sleep => exact hlink
  | resume =>
    refine goes_bind hlink ?_
    rintro _ w rfl
    exact (runs_markPending q).goes rfl

/-- What a removal leaves. -/
def Removal.view (r : Removal) (v : View) (q t : Word) : View :=
  match r with
  | sleep => ((v.unlink q t).put (.thread .next t) 0#32).put (.thread .prev t) 0#32
  | resume => (v.remove q t).clearEmpty q
  | select => (v.remove q t).clearEmpty q

theorem Queued.removed (h : Queued L q ts v xs) (ht : t ∈ ts) (r : Removal) :
    Queued L q (ts.erase t) (r.view v q t) (xs.erase t) := by
  have hremove : Queued L q (ts.erase t) ((v.remove q t).clearEmpty q) (xs.erase t) := by
    refine h.erase ht (fun x hx => ?_) (fun x hx => ?_) fun x hx => ⟨?_, ?_⟩
    · rw [View.clearEmpty_nextOf, View.remove_nextOf hx]
    · rw [View.clearEmpty_prevOf, View.remove_prevOf hx]
    · rw [View.clearEmpty_word (by simp), View.remove_plain (by simp [Cell.Plain])
        (by simpa using hx)]
    · rw [View.clearEmpty_word (by simp), View.remove_plain (by simp [Cell.Plain]) (by simp)]
  cases r with
  | sleep =>
    refine h.erase ht (fun x hx => ?_) (fun x hx => ?_) fun x hx => ⟨?_, ?_⟩
    · have hplain := Cell.Plain.ne_nextCell (c := .thread .queue t) (by simp [Cell.Plain]) q x
      rw [← View.remove_nextOf hx, View.nextOf, View.nextOf, View.remove, View.put_word,
        if_neg hplain.symm]
      rfl
    · have hplain := Cell.Plain.ne_prevCell (c := .thread .queue t) (by simp [Cell.Plain]) q x
      rw [← View.remove_prevOf hx, View.prevOf, View.prevOf, View.remove, View.put_word,
        if_neg hplain.symm]
      rfl
    · simpa [Removal.view] using View.unlink_plain (by simp [Cell.Plain])
    · simpa [Removal.view] using View.unlink_plain (by simp [Cell.Plain])
  | resume => exact hremove
  | select => exact hremove

theorem Queued.runs_removal (h : Queued L q ts v xs) (hL : L.Sound) (hq : L.IsQueue q)
    (ht : t ∈ ts) (r : Removal) : Runs L (r.code q t) v () (r.view v q t) := by
  obtain ⟨hn, hp⟩ := neighbours h.queue h.threads' (h.ordered.mem_iff.mpr ht)
  have htT := h.threads t ht
  have ht0 := hL.thread_ne_zero htT
  have hq0 := hL.queue_ne_zero hq
  cases r with
  | sleep => exact (writes_unlinkNode hq htT ht0 hn hp).runs
  | resume => exact (writes_resume_removeThreadFromQueue htT ht0 (h.field t ht) hq0 hq hn hp).runs
  | select => exact (writes_select_removeThreadFromQueue htT ht0 (h.field t ht) hq0 hq hn hp).runs

end

/-! ## The law -/

section

variable {L : Layout} {q : Word} {ts : List Word} {s : Machine Memory}

/-- Every run keeps the order of the queue. -/
theorem QueueRun.queued (hq : L.IsQueue q) (h : QueueRun L q ts s) :
    ∃ v xs, Represents L s.mem v ∧ Queued L q ts v xs := by
  induction h with
  | @start v s hs hhead htail =>
    refine ⟨v, [], hs, ⟨⟨?_, ?_⟩, by simp⟩, .nil _, .nil, by simp, by simp⟩
    · exact hhead
    · exact htail
  | @insert ts s s' t priority fuel i _ ht hts hread hrun ih =>
    obtain ⟨v, xs, hs, hqueued⟩ := ih
    have hL := hs.sound
    have hprio : v.word (.thread .priority t) = priority := by
      have := hs.words (.thread .priority t) ht
      exact Option.some.inj (this.symm.trans hread)
    obtain ⟨w, hw, rfl⟩ := hrun ▸ hqueued.goes_insertion hL hq ht hts i priority s hs
    rw [← hprio] at hw
    exact ⟨_, _, hw, hqueued.inserted ht (hL.thread_ne_zero ht) hts i⟩
  | @remove ts s s' t r _ ht hrun ih =>
    obtain ⟨v, xs, hs, hqueued⟩ := ih
    obtain ⟨m, hrun', hm⟩ := hqueued.runs_removal hs.sound hq ht r s hs
    obtain ⟨_, rfl⟩ := Coop.ret.inj (hrun'.symm.trans hrun)
    exact ⟨_, _, hm, hqueued.removed ht r⟩
  | @other ts s s' _ hserves hsame ih =>
    obtain ⟨v, xs, hs, hqueued⟩ := ih
    have hs' := represents_viewOf hs.sound hserves
    refine ⟨_, xs, hs', hqueued.congr fun c hc => viewOf_word ((hsame c hc).trans ?_)⟩
    apply hs.words
    simp only [queueCells, List.mem_append, List.mem_cons, List.not_mem_nil, or_false,
      List.mem_flatMap] at hc
    rcases hc with (rfl | rfl) | ⟨t, ht, rfl | rfl | rfl | rfl⟩
    · exact hq
    · exact hq
    all_goals exact hqueued.threads t ht

/-- The stored priority in a memory. -/
def storedPriority (m : Memory) (t : Word) : Int :=
  ((m.read32 (t + kThreadPriorityOffset)).getD 0#32).toInt

/-- At the end of every run both walks end, and visit the threads that are in the queue in
opposite orders, as a stable priority queue has them. Each routine that goes on ends. -/
theorem wait_queues_are_stable_priority_queues (hq : L.IsQueue q) (h : QueueRun L q ts s) :
    (∃ xs, StableQueue.Ordered (storedPriority s.mem) ts xs ∧ ∀ fuel, ts.length < fuel →
      forwardWalk s.mem fuel q = some xs ∧ backwardWalk s.mem fuel q = some xs.reverse) ∧
    (∀ (i : Insertion) fuel t priority, ts.length < fuel → t ∈ L.threads → t ∉ ts →
      ∃ m, i.code fuel q t priority s = .ret () (s.withMem m)) ∧
    ∀ (r : Removal), ∀ t ∈ ts, ∃ m, r.code q t s = .ret () (s.withMem m) := by
  obtain ⟨v, xs, hs, hqueued⟩ := h.queued hq
  refine ⟨⟨xs, hqueued.ordered.congr fun x hx => ?_, fun fuel hfuel => ?_⟩, ?_, ?_⟩
  · have hread : s.mem.read32 (x + kThreadPriorityOffset) = some (v.word (.thread .priority x)) :=
      hs.words (.thread .priority x) (hqueued.threads' x hx)
    rw [storedPriority, hread]
    rfl
  · exact walks_queue hs hqueued.queue hq hqueued.threads' (hqueued.length ▸ hfuel)
  · intro i fuel t priority hfuel ht hts
    obtain ⟨m, hrun, _⟩ := hqueued.runs_insertion hs.sound hq ht hts hfuel i priority s hs
    exact ⟨m, hrun⟩
  · intro r t ht
    obtain ⟨m, hrun, _⟩ := hqueued.runs_removal hs.sound hq ht r s hs
    exact ⟨m, hrun⟩

end

/-- The law for a thread that came into an empty queue. -/
theorem a_thread_comes_into_an_empty_queue : ∃ s : Machine Memory,
    QueueRun oneThread 0x80500000#32 [0x80400000#32] s ∧ ∃ xs,
      StableQueue.Ordered (storedPriority s.mem) [0x80400000#32] xs ∧ ∀ fuel, 1 < fuel →
        forwardWalk s.mem fuel 0x80500000#32 = some xs ∧
          backwardWalk s.mem fuel 0x80500000#32 = some xs.reverse := by
  obtain ⟨m, hm⟩ := exists_view oneThread_sound rfl [] [] (by simp) (by simp)
  have hq : oneThread.IsQueue 0x80500000#32 := Or.inl (Or.inr (List.mem_singleton.mpr rfl))
  have ht : 0x80400000#32 ∈ oneThread.threads := List.mem_singleton.mpr rfl
  have hstart : QueueRun oneThread 0x80500000#32 [] (bootMachine m) := .start hm rfl rfl
  obtain ⟨_, hinserts, _⟩ := wait_queues_are_stable_priority_queues hq hstart
  have hread := hm.words (.thread .priority 0x80400000#32) ht
  obtain ⟨m', hrun⟩ := hinserts .sleep 1 0x80400000#32 _ (by simp) ht (by simp)
  have hone := QueueRun.insert .sleep hstart ht (by simp) hread hrun
  exact ⟨_, hone, (wait_queues_are_stable_priority_queues hq hone).1⟩

end wii_switch
