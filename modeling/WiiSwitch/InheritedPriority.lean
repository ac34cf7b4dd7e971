-- The effective priority of a thread. The code follows the held mutexes and looks at the
-- first waiter of each. A wait queue is in the order of the priorities, so no other waiter
-- counts for more.
import WiiSwitch.Lib.StableQueue
import WiiSwitch.Resuming
import WiiSwitch.WiiLayout

namespace wii_switch

open OS Routine Ring ResumeThread

/-- The held list of the thread is well linked, and so are the wait queues of the mutexes,
which are in the order of the priorities. -/
structure HoldsWaiters (L : Layout) (v : View) (t : Word) (ms : List Word)
    (waiters : Word → List Word) : Prop where
  held : v.HeldList t ms
  mutexes : ∀ m ∈ ms, m ∈ L.mutexes
  queue : ∀ m ∈ ms, v.Queue m (waiters m)
  threads : ∀ m ∈ ms, ∀ u ∈ waiters m, u ∈ L.threads
  sorted : ∀ m ∈ ms, (waiters m).Pairwise fun a b =>
    (v.word (.thread .priority a)).toInt ≤ (v.word (.thread .priority b)).toInt

namespace View

/-- The base priority of the thread, and the priorities of all waiters on its mutexes. -/
def inherited (v : View) (t : Word) (ms : List Word) (waiters : Word → List Word) : List Word :=
  v.word (.thread .basePriority t) ::
    (ms.flatMap waiters).map fun u => v.word (.thread .priority u)

end View

section

variable {L : Layout} {v : View} {t m : Word} {ms : List Word} {waiters : Word → List Word}
  {s : Machine Memory} {fuel : Nat}

theorem HoldsWaiters.inOrder (h : HoldsWaiters L v t ms waiters) : HoldsInOrder L v t ms := by
  refine ⟨h.held, h.mutexes, fun m hm => ?_⟩
  rw [View.Queue.head_eq (h.queue m hm)]
  exact threadOrNone_of_mem (h.threads m hm) first_mem

/-- The head of a wait queue is its first waiter. -/
theorem HoldsWaiters.head_eq (h : HoldsWaiters L v t ms waiters) (hm : m ∈ ms) :
    v.word (.head m) = first (waiters m) 0#32 := (h.queue m hm).head_eq

/-- A wait queue without a head is empty. -/
theorem HoldsWaiters.eq_nil (h : HoldsWaiters L v t ms waiters) (hm : m ∈ ms)
    (h0 : v.word (.head m) = 0#32) : waiters m = [] := by
  have hhead := h.head_eq hm
  cases hw : waiters m with
  | nil => rfl
  | cons u us =>
    rw [hw, first_cons, h0] at hhead
    have hne := (h.queue m hm).ne_zero (x := u) (by simp [hw])
    exact absurd hhead.symm hne

/-- The first waiter is among the waiters, and none of them has a lower number. -/
theorem HoldsWaiters.head_least (h : HoldsWaiters L v t ms waiters) (hm : m ∈ ms)
    (h0 : v.word (.head m) ≠ 0#32) : v.word (.head m) ∈ waiters m ∧ ∀ u ∈ waiters m,
      (v.word (.thread .priority (v.word (.head m)))).toInt ≤
        (v.word (.thread .priority u)).toInt := by
  have hhead := h.head_eq hm
  have hsorted := h.sorted m hm
  cases hw : waiters m with
  | nil =>
    rw [hw, first_nil] at hhead
    exact absurd hhead h0
  | cons a as =>
    rw [hw, first_cons] at hhead
    rw [hw] at hsorted
    rw [hhead]
    refine ⟨List.mem_cons_self, fun u hu => ?_⟩
    rcases List.mem_cons.mp hu with rfl | hu
    · exact le_rfl
    · exact (List.pairwise_cons.mp hsorted).1 u hu

/-- The least priority of the first waiters is the least of all. -/
theorem HoldsWaiters.least_inherited (h : HoldsWaiters L v t ms waiters) {x : Word}
    (hx : LeastOf (v.priorities t ms) x) : LeastOf (v.inherited t ms waiters) x := by
  obtain ⟨hmem, hle⟩ := hx
  constructor
  · rcases List.mem_cons.mp hmem with rfl | hmem
    · exact List.mem_cons_self
    obtain ⟨m, hm, hsome⟩ := List.mem_filterMap.mp hmem
    split at hsome
    · cases hsome
    rename_i h0
    have hhead := (h.head_least hm h0).1
    apply List.mem_cons_of_mem
    exact List.mem_map.mpr ⟨_, List.mem_flatMap.mpr ⟨m, hm, hhead⟩, Option.some.inj hsome⟩
  · intro y hy
    rcases List.mem_cons.mp hy with rfl | hy
    · exact hle _ List.mem_cons_self
    obtain ⟨u, hu, rfl⟩ := List.mem_map.mp hy
    obtain ⟨m, hm, hum⟩ := List.mem_flatMap.mp hu
    have h0 : v.word (.head m) ≠ 0#32 := by
      intro h0
      rw [h.eq_nil hm h0] at hum
      cases hum
    have hfirst : x.toInt ≤ (v.word (.thread .priority (v.word (.head m)))).toInt := by
      apply hle
      apply List.mem_cons_of_mem
      exact List.mem_filterMap.mpr ⟨m, hm, by rw [if_neg h0]⟩
    exact hfirst.trans ((h.head_least hm h0).2 u hum)

/-- A thread's effective priority is the least of its base priority and the priorities of all
threads that wait on a mutex that it holds. -/
theorem the_effective_priority_is_inherited (hs : Represents L s.mem v) (ht : t ∈ L.threads)
    (h : HoldsWaiters L v t ms waiters) (hfuel : ms.length < fuel) :
    ∃ x, computeThreadEffectivePriority fuel t s = .ret x s ∧
      LeastOf (v.inherited t ms waiters) x := by
  have hbase : s.mem.read32 (t + kThreadBasePriorityOffset) =
      some (v.word (.thread .basePriority t)) := hs.words (.thread .basePriority t) ht
  have hheld : s.mem.read32 (t + kThreadMutexQueueOffset) =
      some (v.word (.thread .heldHead t)) := hs.words (.thread .heldHead t) ht
  have hfirst : v.word (.thread .heldHead t) = first ms 0#32 := Linked.fd_eq h.held
  refine ⟨ms.foldl v.lowerTo (v.word (.thread .basePriority t)), ?_, ?_⟩
  · rw [computeThreadEffectivePriority, bind_of (read32_ret hbase), bind_of (read32_ret hheld),
      hfirst, lowestWaiterPriority_eq hs h.inOrder [] ms rfl, if_pos hfuel]
  · apply h.least_inherited
    exact foldl_lowerTo v ms [v.word (.thread .basePriority t)] _ ⟨by simp, by simp⟩

end

/-! ## A thread with two waiters -/

/-- An owner, two waiters, and a mutex. -/
def waitedLayout : Layout := wiiLayout [0x80400000#32, 0x80401000#32, 0x80402000#32]
    [] [0x80403000#32]

theorem waitedLayout_sound : waitedLayout.Sound := wiiLayout_sound (by decide +kernel)

/-- The owner has the base priority 16, and its waiters have the priorities 3 and 20. -/
def waitedCells : List (Cell × Word) :=
  [(.thread .basePriority 0x80400000#32, 16#32), (.thread .heldHead 0x80400000#32, 0x80403000#32),
    (.thread .heldTail 0x80400000#32, 0x80403000#32), (.head 0x80403000#32, 0x80401000#32),
    (.tail 0x80403000#32, 0x80402000#32), (.thread .next 0x80401000#32, 0x80402000#32),
    (.thread .prev 0x80402000#32, 0x80401000#32), (.thread .priority 0x80401000#32, 3#32),
    (.thread .priority 0x80402000#32, 20#32)]

def waitedView : View := View.ofList waitedCells []

/-- The waiters of the example. -/
def waitedQueue (_ : Word) : List Word := [0x80401000#32, 0x80402000#32]

theorem waited_holds : HoldsWaiters waitedLayout waitedView 0x80400000#32 [0x80403000#32]
    waitedQueue where
  held := by
    refine ⟨⟨⟨?_, ?_⟩, ?_, ?_⟩, by decide⟩ <;> decide +kernel
  mutexes := by simp [waitedLayout, wiiLayout]
  queue := by
    intro m hm
    obtain rfl := List.mem_singleton.mp hm
    refine ⟨⟨⟨?_, ?_⟩, ⟨?_, ?_⟩, ?_, ?_⟩, by decide⟩ <;> decide +kernel
  threads := by simp [waitedLayout, wiiLayout, waitedQueue]
  sorted := by
    intro m hm
    obtain rfl := List.mem_singleton.mp hm
    decide +kernel

/-- The law for that owner. -/
theorem the_owner_inherits_a_priority : ∃ (s : Machine Memory) (x : Word),
    computeThreadEffectivePriority 2 0x80400000#32 s = .ret x s ∧
      LeastOf [16#32, 3#32, 20#32] x := by
  obtain ⟨m, hm⟩ := exists_view waitedLayout_sound rfl waitedCells []
    (by simp [waitedCells, waitedLayout, wiiLayout, Layout.HasCell, Layout.IsQueue]) (by simp)
  have hs : Represents waitedLayout (bootMachine m).mem waitedView := hm
  have hfuel : [0x80403000#32].length < 2 := by decide
  obtain ⟨x, hx, hleast⟩ := the_effective_priority_is_inherited hs
    (by simp [waitedLayout, wiiLayout]) waited_holds hfuel
  have hsame : waitedView.inherited 0x80400000#32 [0x80403000#32] waitedQueue =
      [16#32, 3#32, 20#32] := by decide +kernel
  exact ⟨bootMachine m, x, hx, hsame ▸ hleast⟩

end wii_switch
