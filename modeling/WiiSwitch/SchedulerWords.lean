-- The scheduler in the words of guest memory: the run queues, the pending mask, the wait queues
-- and the running context, as each of them is read. The runs of the scheduler keep them in
-- order, whichever threads make the calls.
import WiiSwitch.SchedulerRuns

namespace wii_switch

open OS Routine Ring

/-! ## The words -/

/-- From `a` the links lead on through the threads to the end of the queue `q`, and back. The
head of the queue leads on from its start, and its tail leads back from its end. -/
def Memory.Links (m : Memory) (q : Word) : Word → List Word → Prop
  | a, [] => m.read32 (nextCell q a).address = some 0#32 ∧ m.read32 (q + 4#32) = some a
  | a, t :: ts => m.read32 (nextCell q a).address = some t ∧
    m.read32 (t + kThreadPrevOffset) = some a ∧ m.Links q t ts

/-- The words at `q` are the head and the tail of a doubly linked list of the threads. -/
def Memory.LinkedQueue (m : Memory) (q : Word) (ts : List Word) : Prop :=
  m.Links q 0#32 ts ∧ (0#32 :: ts).Nodup

/-- The words of the scheduler for the live threads. `W` holds the run queues and the wait
queues in use, `ls` their threads, and `r` runs. -/
structure Memory.Schedules (m : Memory) (L : Layout) (live : Set Word) (W : Set Word)
    (ls : Word → List Word) (r : Word) : Prop where
  runs : ∀ p, runQueue p ∈ W
  linked : ∀ q ∈ W, m.LinkedQueue q (ls q)
  field : ∀ q ∈ W, ∀ t ∈ ls q, m.read32 (t + kThreadQueueOffset) = some q
  ready : ∀ p, ∀ t ∈ ls (runQueue p), m.read16 (t + kThreadStateOffset) =
    some kThreadStateReady ∧ m.read32 (t + kThreadSuspendOffset) = some 0#32 ∧
      m.read32 (t + kThreadPriorityOffset) = some (level p)
  mask : ∃ x, m.read32 kSchedulerPendingFlagAddr = some x ∧
    ∀ p, maskBit x p = true ↔ ls (runQueue p) ≠ []
  once : ∀ q ∈ W, ∀ q' ∈ W, ∀ t, t ∈ ls q → t ∈ ls q' → q = q'
  waiting : ∀ q ∈ W, onRunQueueArray q = false → ∀ t ∈ ls q,
    m.read16 (t + kThreadStateOffset) = some kThreadStateWaiting
  placed : ∀ t ∈ live, m.read16 (t + kThreadStateOffset) = some kThreadStateWaiting →
    ∀ q ≠ 0#32, m.read32 (t + kThreadQueueOffset) = some q →
    q ∈ W ∧ onRunQueueArray q = false ∧ t ∈ ls q
  running : m.read32 kOSRunningContextAddr = some r
  current : m.read32 kOSCurrentContextAddr = some r
  state : m.read16 (r + kThreadStateOffset) = some kThreadStateRunning
  suspend : m.read32 (r + kThreadSuspendOffset) = some 0#32
  unlinked : ∀ q ∈ W, r ∉ ls q
  runs_live : r ∈ live
  threads : ∀ t ∈ live, t ∈ L.threads
  member : ∀ q ∈ W, ∀ t ∈ ls q, t ∈ live
  isQueue : ∀ q ∈ W, L.IsQueue q
  tail : ∃ x, m.read32 kThreadListTailAddr = some x ∧ L.ThreadOrNone x

/-- The scheduler is in order in the memory. -/
def Memory.InOrder (m : Memory) (L : Layout) (live : Set Word) : Prop :=
  ∃ W ls r, m.Schedules L live W ls r

/-! ## They are the words of a view in order -/

section

variable {L : Layout} {m : Memory} {v : View} {live W : Set Word} {ls : Word → List Word}
  {q r t a : Word} {ts : List Word}

theorem Represents.word_iff (h : Represents L m v) {c : Cell} (hc : L.HasCell c) {x : Word} :
    m.read32 c.address = some x ↔ v.word c = x := by
  rw [h.words c hc, Option.some_inj]

theorem Represents.state_iff (h : Represents L m v) (ht : t ∈ L.threads) {x : Half} :
    m.read16 (t + kThreadStateOffset) = some x ↔ v.state t = x := by
  rw [h.states t ht, Option.some_inj]

theorem Represents.links_iff (h : Represents L m v) (hq : L.IsQueue q)
    (ha : L.ThreadOrNone a) (hts : ∀ t ∈ ts, t ≠ 0#32 ∧ t ∈ L.threads) :
    m.Links q a ts ↔ Path (v.nextOf q) (v.prevOf q) a ts 0#32 := by
  induction ts generalizing a with
  | nil =>
    exact and_congr (h.word_iff (hasCell_next hq ha)) (h.word_iff (c := .tail q) hq)
  | cons t ts ih =>
    obtain ⟨ht0, ht⟩ := hts t List.mem_cons_self
    have hprev : m.read32 (t + kThreadPrevOffset) = some a ↔ v.prevOf q t = a := by
      rw [View.prevOf, prevCell_thread q ht0]
      exact h.word_iff (c := .thread .prev t) ht
    unfold Memory.Links
    rw [h.word_iff (hasCell_next hq ha), hprev,
      ih (Or.inr ht) fun u hu => hts u (List.mem_cons_of_mem t hu), path_cons, and_assoc]
    rfl

/-- A linked queue in the memory is one in the view. -/
theorem Represents.linkedQueue_iff (h : Represents L m v) (hq : L.IsQueue q)
    (hts : ∀ t ∈ ts, t ∈ L.threads) : m.LinkedQueue q ts ↔ v.Queue q ts := by
  unfold Memory.LinkedQueue View.Queue Ring.Linked
  apply and_congr_left
  intro hnodup
  have hzero := (List.nodup_cons.mp hnodup).1
  exact h.links_iff hq (Or.inl rfl) fun t ht =>
    ⟨fun h0 => hzero (h0 ▸ ht), hts t ht⟩

/-- The words of the scheduler are in order exactly when their view is. -/
theorem Represents.schedules_iff (h : Represents L m v) :
    m.Schedules L live W ls r ↔ Running L live v W ls r := by
  have hqueue : ∀ {t x}, t ∈ L.threads → (m.read32 (t + kThreadQueueOffset) = some x ↔
      v.word (.thread .queue t) = x) := fun ht => h.word_iff (c := .thread .queue _) ht
  have hsuspend : ∀ {t x}, t ∈ L.threads → (m.read32 (t + kThreadSuspendOffset) = some x ↔
      v.word (.thread .suspend t) = x) := fun ht => h.word_iff (c := .thread .suspend _) ht
  have hpriority : ∀ {t x}, t ∈ L.threads → (m.read32 (t + kThreadPriorityOffset) = some x ↔
      v.word (.thread .priority t) = x) := fun ht => h.word_iff (c := .thread .priority _) ht
  have hglobal : ∀ {a x}, a ∈ kernelWords → (m.read32 a = some x ↔
      v.word (.global a) = x) := fun ha => h.word_iff (c := .global _) ha
  constructor
  · intro hm
    have hthread : ∀ q ∈ W, ∀ t ∈ ls q, t ∈ L.threads :=
      fun q hq t ht => hm.threads t (hm.member q hq t ht)
    obtain ⟨x, hx, hmask⟩ := hm.mask
    obtain ⟨y, hy, htail⟩ := hm.tail
    have hr := hm.threads r hm.runs_live
    refine ⟨⟨⟨?_, ?_⟩, hm.threads, hm.member, hm.isQueue, hm.runs, ?_, ?_, ?_, ?_, ?_⟩,
      hm.runs_live, ?_, ?_, ?_, ?_⟩
    · exact fun q hq => (h.linkedQueue_iff (hm.isQueue q hq) (hthread q hq)).mp (hm.linked q hq)
    · exact fun q hq t ht => (hqueue (hthread q hq t ht)).mp (hm.field q hq t ht)
    · intro p t ht
      have hin := hthread _ (hm.runs p) t ht
      obtain ⟨hstate, hcount, hlevel⟩ := hm.ready p t ht
      exact ⟨(h.state_iff hin).mp hstate, (hsuspend hin).mp hcount, (hpriority hin).mp hlevel⟩
    · exact fun q hq hoff t ht => (h.state_iff (hthread q hq t ht)).mp (hm.waiting q hq hoff t ht)
    · intro t ht hstate hne
      have hin := hm.threads t ht
      exact hm.placed t ht ((h.state_iff hin).mpr hstate) _ hne ((hqueue hin).mpr rfl)
    · rw [View.mask, (hglobal pendingFlag_mem).mp hx]
      exact hmask
    · rw [(hglobal (by simp [kernelWords])).mp hy]
      exact htail
    · exact (hglobal runningContext_mem).mp hm.running
    · exact (hglobal currentContext_mem).mp hm.current
    · exact (h.state_iff hr).mp hm.state
    · exact (hsuspend hr).mp hm.suspend
  · intro hv
    obtain ⟨hs, hlive, hrunning, hcurrent, hstate, hcount⟩ := hv
    have hthread : ∀ q ∈ W, ∀ t ∈ ls q, t ∈ L.threads :=
      fun q hq t ht => hs.threads t (hs.member q hq t ht)
    have hr := hs.threads r hlive
    constructor
    · exact hs.runs
    · exact fun q hq =>
        (h.linkedQueue_iff (hs.isQueue q hq) (hthread q hq)).mpr (hs.lists.queue q hq)
    · exact fun q hq t ht => (hqueue (hthread q hq t ht)).mpr (hs.lists.field q hq t ht)
    · intro p t ht
      have hin := hthread _ (hs.runs p) t ht
      obtain ⟨hready, hzero, hlevel⟩ := hs.ready p t ht
      exact ⟨(h.state_iff hin).mpr hready, (hsuspend hin).mpr hzero, (hpriority hin).mpr hlevel⟩
    · exact ⟨v.mask, (hglobal pendingFlag_mem).mpr rfl, hs.mask⟩
    · exact fun q hq q' hq' t ht ht' => hs.lists.unique hq hq' ht ht'
    · exact fun q hq hoff t ht => (h.state_iff (hthread q hq t ht)).mpr (hs.waiting q hq hoff t ht)
    · intro t ht hwaits q hq0 hq
      have hin := hs.threads t ht
      have hfield := (hqueue hin).mp hq
      have hplaced := hs.placed t ht ((h.state_iff hin).mp hwaits)
      rw [hfield] at hplaced
      exact hplaced hq0
    · exact (hglobal runningContext_mem).mpr hrunning
    · exact (hglobal currentContext_mem).mpr hcurrent
    · exact (h.state_iff hr).mpr hstate
    · exact (hsuspend hr).mpr hcount
    · -- A thread in a queue is ready or waits, and `r` runs.
      apply hs.unlinked_of_state
      · rw [hstate]
        decide
      · rw [hstate]
        decide
    · exact hlive
    · exact hs.threads
    · exact hs.member
    · exact hs.isQueue
    · exact ⟨_, (hglobal (by simp [kernelWords])).mpr rfl, hs.tail⟩

theorem Represents.inOrder_iff (h : Represents L m v) : m.InOrder L live ↔ InOrder L live v := by
  simp only [Memory.InOrder, InOrder, h.schedules_iff]

end

/-! ## The law -/

/-- The queues of a Wii on which the thread `0x80400400` is ready and `0x80400000` runs. -/
def switchLists (q : Word) : List Word := if q = runQueue 4 then [0x80400400#32] else []

theorem switchLists_runQueue (p : Fin 32) : switchLists (runQueue p) = switchQueues p := by
  simp [switchLists, switchQueues, runQueue_inj]

theorem switch_running : Running (wiiLayout [0x80400000#32, 0x80400400#32] [] [])
    {t | t ∈ [0x80400000#32, 0x80400400#32]} (View.ofList switchCells switchStates)
    {q | ∃ p, q = runQueue p} switchLists 0x80400000#32 := by
  have hmem : ∀ {q t}, t ∈ switchLists q → q = runQueue 4 ∧ t = 0x80400400#32 := by
    intro q t ht
    unfold switchLists at ht
    split at ht
    · exact ⟨‹_›, List.mem_singleton.mp ht⟩
    · cases ht
  have hrunning : (View.ofList switchCells switchStates).state 0x80400000#32 ≠
      kThreadStateWaiting := by decide +kernel
  have hready : (View.ofList switchCells switchStates).state 0x80400400#32 ≠
      kThreadStateWaiting := by decide +kernel
  refine ⟨⟨⟨?_, ?_⟩, fun t ht => ht, ?_, ?_, fun p => ⟨p, rfl⟩, ?_, ?_, ?_, ?_, ?_⟩,
    ?_, ?_, ?_, ?_, ?_⟩
  · rintro q ⟨p, rfl⟩
    rw [switchLists_runQueue]
    exact switch_readyQueues.queue p
  · rintro q _ t ht
    obtain ⟨rfl, rfl⟩ := hmem ht
    decide +kernel
  · rintro q _ t ht
    obtain ⟨_, rfl⟩ := hmem ht
    exact List.mem_cons_of_mem _ List.mem_cons_self
  · rintro q ⟨p, rfl⟩
    exact isQueue_runQueue _ p
  · intro p t ht
    obtain ⟨hp, rfl⟩ := hmem ht
    rw [runQueue_inj.mp hp]
    decide +kernel
  · rintro q ⟨p, rfl⟩ hoff
    rw [runQueue_onArray] at hoff
    cases hoff
  · intro t ht hwait
    rcases List.mem_pair.mp ht with rfl | rfl
    · exact absurd hwait hrunning
    · exact absurd hwait hready
  · intro p
    rw [switchLists_runQueue]
    exact switch_readyQueues.mask p
  · exact Or.inl (by decide +kernel)
  · exact List.mem_cons_self
  · decide +kernel
  · decide +kernel
  · decide +kernel
  · decide +kernel

/-- A Wii with these queues, and a call on any word. -/
theorem exists_switch (t : Word) : ∃ s : Machine Memory,
    Represents (wiiLayout [0x80400000#32, 0x80400400#32] [] []) s.mem
      (View.ofList switchCells switchStates) ∧ s.gpr (cpuOf 0) 3 = t := by
  obtain ⟨m, hm⟩ := exists_wii switch_fits switchCells switchStates switch_hasCells
    (by simp [switchStates])
  exact ⟨(bootMachine m).setGpr (cpuOf 0) 3 t, hm, by simp⟩

end wii_switch
