-- A view of guest memory by the fields of the OS structures. A layout says which
-- blocks of memory hold threads, wait queues, mutexes and words. Blocks do not overlap,
-- so each field is a cell of its own: the memory represents a view when every cell
-- reads as the view says, and a write changes one cell of the view.
import WiiSwitch.MemoryFrames
import WiiSwitch.OSThread

namespace wii_switch

/-! ## Blocks and cells -/

/-- A block of guest memory, by its address. -/
inductive OSBlock where
  | global (a : Word)
  | queue (q : Word)
  | thread (t : Word)
  | mutex (m : Word)
  | word (a : Word)
deriving DecidableEq

namespace OSBlock

def address : OSBlock → Word
  | global a => a
  | queue q => q
  | thread t => t
  | mutex m => m
  | word a => a

def size : OSBlock → Nat
  | global _ => 4
  | queue _ => 8
  | thread _ => kThreadSize
  | mutex _ => 0x18
  | word _ => 4

@[simp] theorem size_thread (t : Word) : (thread t).size = 0x318 := rfl

end OSBlock

/-- The words of an OSThread that the scheduler and the mutexes use. -/
inductive ThreadField where
  | suspend
  | priority
  | basePriority
  | queue
  | next
  | prev
  | heldHead
  | heldTail
deriving DecidableEq

def ThreadField.offset : ThreadField → Word
  | suspend => kThreadSuspendOffset
  | priority => kThreadPriorityOffset
  | basePriority => kThreadBasePriorityOffset
  | queue => kThreadQueueOffset
  | next => kThreadNextOffset
  | prev => kThreadPrevOffset
  | heldHead => kThreadMutexQueueOffset
  | heldTail => kThreadMutexTailOffset

theorem ThreadField.offset_range (f : ThreadField) :
    0x2CC ≤ f.offset.toNat ∧ f.offset.toNat + 4 ≤ 0x2FC ∧
      (f.offset.toNat + 4 ≤ 0x2D8 ∨ 0x2DC ≤ f.offset.toNat) ∧
      (f.offset.toNat + 4 ≤ 0x2E8 ∨ 0x2F4 ≤ f.offset.toNat) := by
  cases f <;> decide

theorem ThreadField.offset_disjoint {f g : ThreadField} (h : f ≠ g) :
    f.offset.toNat + 4 ≤ g.offset.toNat ∨ g.offset.toNat + 4 ≤ f.offset.toNat := by
  revert h
  cases f <;> cases g <;> decide

/-- The words of an OSMutex behind its wait queue. -/
inductive MutexField where
  | owner
  | count
  | next
  | prev
deriving DecidableEq

def MutexField.offset : MutexField → Word
  | owner => kMutexOwnerOffset
  | count => kMutexCountOffset
  | next => kMutexThreadNextOffset
  | prev => kMutexThreadPrevOffset

theorem MutexField.offset_range (f : MutexField) :
    8 ≤ f.offset.toNat ∧ f.offset.toNat + 4 ≤ 0x18 := by
  cases f <;> decide

theorem MutexField.offset_disjoint {f g : MutexField} (h : f ≠ g) :
    f.offset.toNat + 4 ≤ g.offset.toNat ∨ g.offset.toNat + 4 ≤ f.offset.toNat := by
  revert h
  cases f <;> cases g <;> decide

/-- A word that a view names. A queue is two words, wherever it lies: on its own,
as the join queue of a thread, or as the wait queue of a mutex. -/
inductive Cell where
  | global (a : Word)
  | head (q : Word)
  | tail (q : Word)
  | thread (f : ThreadField) (t : Word)
  | mutex (f : MutexField) (m : Word)
  | word (a : Word)
deriving DecidableEq

def Cell.address : Cell → Word
  | global a => a
  | head q => q
  | tail q => q + 4#32
  | thread f t => t + f.offset
  | mutex f m => m + f.offset
  | word a => a

/-! ## Layouts -/

/-- The low-memory and scheduler words that a view names. -/
def kernelWords : List Word :=
  [kOSPhysicalContextAddr, kOSCurrentContextAddr, kOSExceptionContextAddr, kThreadListHeadAddr,
    kThreadListTailAddr, kOSRunningContextAddr, kSwitchThreadCallbackPtrAddr,
    kSchedulerIdleFlagAddr, kSchedulerReschedCounterAddr, kSchedulerPendingFlagAddr]

/-- The blocks of a layout; `words` are single words that are of interest besides. -/
structure Layout where
  config : List RegionConfig
  threads : Set Word
  waits : Set Word
  mutexes : Set Word
  words : Set Word

namespace Layout

def HasBlock (L : Layout) : OSBlock → Prop
  | .global a => a ∈ kernelWords
  | .queue q => (∃ p : Fin 32, q = runQueueOf (BitVec.ofNat 32 p)) ∨ q ∈ L.waits
  | .thread t => t ∈ L.threads
  | .mutex m => m ∈ L.mutexes
  | .word a => a ∈ L.words

/-- The blocks are mapped and nowhere null, and no two of them overlap. -/
structure Sound (L : Layout) : Prop where
  admissible : Admissible L.config
  mapped : ∀ b, L.HasBlock b → InOneRegion L.config b.address.toNat b.size
  nonnull : ∀ b, L.HasBlock b → b.address ≠ 0#32
  apart : ∀ b c, L.HasBlock b → L.HasBlock c → b ≠ c →
    Apart L.config b.address.toNat b.size c.address.toNat c.size

/-- The queue words of the layout. -/
def IsQueue (L : Layout) (q : Word) : Prop :=
  L.HasBlock (.queue q) ∨ (∃ t ∈ L.threads, q = t + kThreadJoinQueueOffset) ∨
    q ∈ L.mutexes

def HasCell (L : Layout) : Cell → Prop
  | .global a => a ∈ kernelWords
  | .head q => L.IsQueue q
  | .tail q => L.IsQueue q
  | .thread _ t => t ∈ L.threads
  | .mutex _ m => m ∈ L.mutexes
  | .word a => a ∈ L.words

end Layout

/-- Where a cell lies: in which block, and how far into it. -/
inductive Within : Cell → OSBlock → Nat → Prop
  | global (a : Word) : Within (.global a) (.global a) 0
  | head (q : Word) : Within (.head q) (.queue q) 0
  | tail (q : Word) : Within (.tail q) (.queue q) 4
  | joinHead (t : Word) : Within (.head (t + kThreadJoinQueueOffset)) (.thread t) 0x2E8
  | joinTail (t : Word) : Within (.tail (t + kThreadJoinQueueOffset)) (.thread t) 0x2EC
  | mutexHead (m : Word) : Within (.head m) (.mutex m) 0
  | mutexTail (m : Word) : Within (.tail m) (.mutex m) 4
  | thread (f : ThreadField) (t : Word) : Within (.thread f t) (.thread t) f.offset.toNat
  | mutex (f : MutexField) (m : Word) : Within (.mutex f m) (.mutex m) f.offset.toNat
  | word (a : Word) : Within (.word a) (.word a) 0

theorem Within.fits {c : Cell} {b : OSBlock} {i : Nat} (h : Within c b i) : i + 4 ≤ b.size := by
  cases h with
  | thread f t =>
    have := f.offset_range
    simp only [OSBlock.size, kThreadSize]
    omega
  | mutex f m => exact f.offset_range.2
  | _ => simp [OSBlock.size, kThreadSize]

/-- The words of a thread that a view names lie in three parts of its block. -/
theorem Within.in_thread {c : Cell} {t : Word} {i : Nat} (h : Within c (.thread t) i) :
    (0x2CC ≤ i ∧ i + 4 ≤ 0x2D8) ∨ (0x2DC ≤ i ∧ i + 4 ≤ 0x2F0) ∨
    (0x2F4 ≤ i ∧ i + 4 ≤ 0x2FC) := by
  cases h with
  | thread f t =>
    have := f.offset_range
    omega
  | joinHead t => omega
  | joinTail t => omega

/-- The bytes of a thread that hold neither its state nor such a word. -/
def OffThreadFields (i n : Nat) : Prop :=
  (i + n ≤ 0x2C8 ∨ 0x2CA ≤ i) ∧ (i + n ≤ 0x2CC ∨ 0x2D8 ≤ i) ∧
    (i + n ≤ 0x2DC ∨ 0x2F0 ≤ i) ∧
    (i + n ≤ 0x2F4 ∨ 0x2FC ≤ i)

/-- Two cells of one block do not overlap. -/
theorem Within.disjoint {c d : Cell} {b : OSBlock} {i j : Nat} (hc : Within c b i)
    (hd : Within d b j) (hne : c ≠ d) : i + 4 ≤ j ∨ j + 4 ≤ i := by
  cases hc with
  | global a =>
    cases hd with
    | global a => exact absurd rfl hne
  | word a =>
    cases hd with
    | word a => exact absurd rfl hne
  | head q =>
    cases hd with
    | head q => exact absurd rfl hne
    | tail q => omega
  | tail q =>
    cases hd with
    | head q => omega
    | tail q => exact absurd rfl hne
  | joinHead t =>
    cases hd with
    | joinHead t => exact absurd rfl hne
    | joinTail t => omega
    | thread g t =>
      have := g.offset_range
      omega
  | joinTail t =>
    cases hd with
    | joinHead t => omega
    | joinTail t => exact absurd rfl hne
    | thread g t =>
      have := g.offset_range
      omega
  | mutexHead m =>
    cases hd with
    | mutexHead m => exact absurd rfl hne
    | mutexTail m => omega
    | mutex g m =>
      have := g.offset_range
      omega
  | mutexTail m =>
    cases hd with
    | mutexHead m => omega
    | mutexTail m => exact absurd rfl hne
    | mutex g m =>
      have := g.offset_range
      omega
  | thread f t =>
    have := f.offset_range
    cases hd with
    | joinHead t => omega
    | joinTail t => omega
    | thread g t => exact ThreadField.offset_disjoint fun h => hne (by rw [h])
  | mutex f m =>
    have := f.offset_range
    cases hd with
    | mutexHead m => omega
    | mutexTail m => omega
    | mutex g m => exact MutexField.offset_disjoint fun h => hne (by rw [h])

namespace Layout

variable {L : Layout}

theorem HasCell.within {c : Cell} (h : L.HasCell c) : ∃ b i, L.HasBlock b ∧ Within c b i := by
  cases c with
  | global a => exact ⟨.global a, 0, h, .global a⟩
  | word a => exact ⟨.word a, 0, h, .word a⟩
  | thread f t => exact ⟨.thread t, _, h, .thread f t⟩
  | mutex f m => exact ⟨.mutex m, _, h, .mutex f m⟩
  | head q =>
    rcases h with h | ⟨t, ht, rfl⟩ | h
    · exact ⟨_, _, h, .head q⟩
    · exact ⟨.thread t, _, ht, .joinHead t⟩
    · exact ⟨.mutex q, _, h, .mutexHead q⟩
  | tail q =>
    rcases h with h | ⟨t, ht, rfl⟩ | h
    · exact ⟨_, _, h, .tail q⟩
    · exact ⟨.thread t, _, ht, .joinTail t⟩
    · exact ⟨.mutex q, _, h, .mutexTail q⟩

theorem Sound.thread_ne_zero (hL : L.Sound) {t : Word} (ht : t ∈ L.threads) : t ≠ 0#32 :=
  hL.nonnull (.thread t) ht

theorem Sound.mutex_ne_zero (hL : L.Sound) {m : Word} (hm : m ∈ L.mutexes) : m ≠ 0#32 :=
  hL.nonnull (.mutex m) hm

/-- A block does not wrap around. -/
theorem Sound.end_le (hL : L.Sound) {b : OSBlock} (hb : L.HasBlock b) :
    b.address.toNat + b.size ≤ 0x100000000 := by
  obtain ⟨r, hr, h1, h2⟩ := hL.mapped b hb
  have := hL.admissible.end_le hr
  omega

/-- The address of a place inside a block. -/
theorem Sound.toNat_add (hL : L.Sound) {b : OSBlock} (hb : L.HasBlock b) {i : Nat}
    (hi : i < b.size) : (b.address + BitVec.ofNat 32 i).toNat = b.address.toNat + i := by
  have := hL.end_le hb
  rw [BitVec.toNat_add, BitVec.toNat_ofNat]
  omega

theorem Sound.address_toNat (hL : L.Sound) {c : Cell} {b : OSBlock} {i : Nat} (hb : L.HasBlock b)
    (h : Within c b i) : c.address.toNat = b.address.toNat + i := by
  have hi : i < b.size := by have := h.fits; omega
  rw [← hL.toNat_add hb hi]
  congr 1
  cases h with
  | thread f t => cases f <;> rfl
  | mutex f m => cases f <;> rfl
  | joinTail t => exact BitVec.add_assoc t _ _
  | global a => exact (BitVec.add_zero a).symm
  | word a => exact (BitVec.add_zero a).symm
  | head q => exact (BitVec.add_zero q).symm
  | mutexHead q => exact (BitVec.add_zero q).symm
  | _ => rfl

/-- Two ranges of bytes in blocks of the layout are apart, unless they overlap in
one block. -/
theorem Sound.ranges_apart (hL : L.Sound) {b c : OSBlock} (hb : L.HasBlock b) (hc : L.HasBlock c)
    {i n j k : Nat} (hi : i + n ≤ b.size) (hj : j + k ≤ c.size)
    (h : b = c → i + n ≤ j ∨ j + k ≤ i) :
    Apart L.config (b.address.toNat + i) n (c.address.toNat + j) k := by
  intro x hx y hy hs
  by_cases hbc : b = c
  · subst hbc
    obtain ⟨r, hr, h1, h2⟩ := hL.mapped b hb
    have hmod := hL.admissible.mod_add_le hr
    rw [Nat.add_assoc, Nat.add_assoc] at hs
    have := hs.near (by omega) (by omega)
    rcases h rfl with h | h <;> omega
  · rw [Nat.add_assoc, Nat.add_assoc] at hs
    exact hL.apart b c hb hc hbc (i + x) (by omega) (j + y) (by omega) hs

theorem Sound.range_mapped (hL : L.Sound) {b : OSBlock} (hb : L.HasBlock b) {i n : Nat}
    (hi : i + n ≤ b.size) : InOneRegion L.config (b.address.toNat + i) n := by
  obtain ⟨r, hr, h1, h2⟩ := hL.mapped b hb
  exact ⟨r, hr, by omega, by omega⟩

theorem Sound.cell_mapped (hL : L.Sound) {c : Cell} (hc : L.HasCell c) :
    InOneRegion L.config c.address.toNat 4 := by
  obtain ⟨b, i, hb, h⟩ := hc.within
  rw [hL.address_toNat hb h]
  exact hL.range_mapped hb h.fits

theorem Sound.cells_apart (hL : L.Sound) {c d : Cell} (hc : L.HasCell c) (hd : L.HasCell d)
    (hne : c ≠ d) : Apart L.config c.address.toNat 4 d.address.toNat 4 := by
  obtain ⟨b, i, hb, h⟩ := hc.within
  obtain ⟨b', j, hb', h'⟩ := hd.within
  rw [hL.address_toNat hb h, hL.address_toNat hb' h']
  refine hL.ranges_apart hb hb' h.fits h'.fits fun hbb => ?_
  subst hbb
  exact h.disjoint h' hne

theorem Sound.queue_ne_zero (hL : L.Sound) {q : Word} (hq : L.IsQueue q) : q ≠ 0#32 := by
  rcases hq with hq | ⟨t, ht, rfl⟩ | hq
  · exact hL.nonnull _ hq
  · have hadd := hL.toNat_add (b := .thread t) ht (i := 0x2E8) (by simp)
    intro h0
    have h1 : (t + kThreadJoinQueueOffset).toNat = 0 := by
      rw [h0]
      rfl
    have h2 : (t + kThreadJoinQueueOffset).toNat = t.toNat + 0x2E8 := hadd
    omega
  · exact hL.nonnull (.mutex q) hq

/-- A range of bytes that no cell and no thread state shares. -/
structure Clear (L : Layout) (a n : Nat) : Prop where
  mapped : InOneRegion L.config a n
  cells : ∀ c, L.HasCell c → Apart L.config a n c.address.toNat 4
  states : ∀ t ∈ L.threads, Apart L.config a n (t + kThreadStateOffset).toNat 2

theorem Sound.state_toNat (hL : L.Sound) {t : Word} (ht : t ∈ L.threads) :
    (t + kThreadStateOffset).toNat = t.toNat + 0x2C8 :=
  hL.toNat_add (b := .thread t) ht (i := 0x2C8) (by simp)

theorem Sound.state_mapped (hL : L.Sound) {t : Word} (ht : t ∈ L.threads) :
    InOneRegion L.config (t + kThreadStateOffset).toNat 2 := by
  rw [hL.state_toNat ht]
  exact hL.range_mapped (b := .thread t) ht (by simp)

theorem Sound.state_cell_apart (hL : L.Sound) {t : Word} (ht : t ∈ L.threads) {c : Cell}
    (hc : L.HasCell c) :
    Apart L.config (t + kThreadStateOffset).toNat 2 c.address.toNat 4 := by
  obtain ⟨b, i, hb, h⟩ := hc.within
  rw [hL.state_toNat ht, hL.address_toNat hb h]
  refine hL.ranges_apart (b := .thread t) ht hb (by simp) h.fits fun hbb => ?_
  subst hbb
  have := h.in_thread
  omega

theorem Sound.states_apart (hL : L.Sound) {t u : Word} (ht : t ∈ L.threads) (hu : u ∈ L.threads)
    (hne : t ≠ u) :
    Apart L.config (t + kThreadStateOffset).toNat 2 (u + kThreadStateOffset).toNat 2 := by
  rw [hL.state_toNat ht, hL.state_toNat hu]
  refine hL.ranges_apart (b := .thread t) (c := .thread u) ht hu (by simp) (by simp) ?_
  intro h
  exact absurd (OSBlock.thread.inj h) hne

/-- The rest of a thread block is clear. -/
theorem Sound.clear_thread (hL : L.Sound) {t : Word} (ht : t ∈ L.threads) {i n : Nat}
    (hn : i + n ≤ kThreadSize) (h : OffThreadFields i n) : L.Clear (t.toNat + i) n where
  mapped := hL.range_mapped (b := .thread t) ht hn
  cells := by
    intro c hc
    obtain ⟨b, j, hb, hw⟩ := hc.within
    rw [hL.address_toNat hb hw]
    refine hL.ranges_apart (b := .thread t) ht hb hn hw.fits fun hbb => ?_
    subst hbb
    have := hw.in_thread
    unfold OffThreadFields at h
    omega
  states := by
    intro u hu
    rw [hL.state_toNat hu]
    refine hL.ranges_apart (b := .thread t) (c := .thread u) ht hu hn (by simp) fun _ => ?_
    unfold OffThreadFields at h
    omega

/-- The same, by the offset of a field. -/
theorem Sound.clear_offset (hL : L.Sound) {t : Word} (ht : t ∈ L.threads)
    {offset : Word} {n : Nat} (hn : offset.toNat + n ≤ kThreadSize) (hpos : 0 < n)
    (h : OffThreadFields offset.toNat n) :
    L.Clear (t + offset).toNat n := by
  have hadd := hL.toNat_add (b := .thread t) ht (i := offset.toNat)
    (by rw [OSBlock.size_thread]; unfold kThreadSize at hn; omega)
  rw [BitVec.ofNat_toNat, BitVec.setWidth_eq] at hadd
  rw [show (t + offset).toNat = t.toNat + offset.toNat from hadd]
  exact hL.clear_thread ht hn h

/-- The mode flags of the context of a thread. -/
theorem Sound.clear_modeFlags (hL : L.Sound) {t : Word} (ht : t ∈ L.threads) :
    L.Clear (t + kContextModeFlagsOffset).toNat 2 :=
  hL.clear_offset ht (by decide) (by decide) (by unfold OffThreadFields; decide)

end Layout

end wii_switch
