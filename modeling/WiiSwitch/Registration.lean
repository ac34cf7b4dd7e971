-- OSCreateThread as a registration. The check at its start is exact: once it passes, every
-- store behind it lands in the block of the thread, in its stack words, in the list of all
-- threads or in a word of the system, and the thread stands at the end of the list.
import WiiSwitch.InterruptReturn
import WiiSwitch.Lib.Ring
import WiiSwitch.StoreRanges
import WiiSwitch.WiiLayout

namespace wii_switch

open Bytes OS CreateThread

/-! ## The list of all threads -/

/-- The block of a thread. -/
def threadRange (t : Word) : MemRange := (t, kThreadSize)

/-- The words of the list of all threads. -/
inductive ListWord where
  | head
  | tail
  | next (t : Word)
  | prev (t : Word)
deriving DecidableEq

namespace ListWord

def address : ListWord → Word
  | head => kThreadListHeadAddr
  | tail => kThreadListTailAddr
  | next t => t + kThreadListNextOffset
  | prev t => t + kThreadListPrevOffset

/-- The word belongs to the list of these threads. -/
def Of (ts : List Word) : ListWord → Prop
  | head | tail => True
  | next t | prev t => t ∈ ts

/-- The thread that the word is a link of. -/
def owner : ListWord → Option Word
  | head | tail => none
  | next t | prev t => some t

theorem of_owner {w : ListWord} {ts : List Word} {t : Word} (ht : w.owner = some t) (h : w.Of ts) :
    t ∈ ts := by
  cases w with
  | head => cases ht
  | tail => cases ht
  | next u => exact Option.some_inj.mp ht ▸ h
  | prev u => exact Option.some_inj.mp ht ▸ h

/-- The value of the word in the ring that leads on by `fd` and back by `bk`. -/
def value (fd bk : Word → Word) : ListWord → Word
  | head => fd 0#32
  | tail => bk 0#32
  | next t => fd t
  | prev t => bk t

end ListWord

/-- The list of all threads. -/
structure ActiveThreads (config : List RegionConfig) (m : Memory) (ts : List Word) : Prop where
  mapped : ∀ t ∈ ts, (threadRange t).Mapped config
  linked : ∃ fd bk : Word → Word, Ring.Linked fd bk 0#32 ts ∧
    ∀ w : ListWord, w.Of ts → m.read32 w.address = some (w.value fd bk)

def listWords (ts : List Word) : Set MemRange :=
  {r | ∃ w : ListWord, w.Of ts ∧ r = (w.address, 4)}

/-- The words of the system that OSCreateThread uses. -/
def createGlobals : List Word :=
  [kOSCurrentContextAddr, kCurrentFpuContextAddr, kThreadListHeadAddr, kThreadListTailAddr]

/-- The words of the stack that OSCreateThread writes. -/
def CreateThread.Arguments.stackWords (a : Arguments) : List MemRange :=
  [(a.alignedStack - 8#32, 8), (a.stackTop - a.stackSize, 4)]

/-- The new block, its stack words, the listed threads and the words of the system are apart. -/
structure FreshThread (config : List RegionConfig) (ts : List Word) (a : Arguments) : Prop where
  blocks : (a.threadPtr :: ts).Pairwise fun t u => (threadRange t).Off config (threadRange u)
  globals : ∀ t ∈ a.threadPtr :: ts, ∀ g ∈ createGlobals, (threadRange t).Off config (g, 4)
  stackBlocks : ∀ r ∈ a.stackWords, ∀ t ∈ a.threadPtr :: ts, r.Off config (threadRange t)
  stackGlobals : ∀ r ∈ a.stackWords, ∀ g ∈ createGlobals, r.Off config (g, 4)

/-- What the check at the start asks for. -/
structure Accepts (config : List RegionConfig) (a : Arguments) : Prop where
  priority : 0 ≤ a.priority.toInt ∧ a.priority.toInt ≤ 31
  block : (threadRange a.threadPtr).Mapped config
  aligned : 8#32 ≤ a.alignedStack
  top : MemRange.Mapped config (a.alignedStack - 8#32, 8)
  size : a.stackSize ≤ a.stackTop
  bottom : MemRange.Mapped config (a.stackTop - a.stackSize, 4)

/-! ## Parts of a mapped range -/

section

variable {config : List RegionConfig} {b off off' : Word} {size n n' : Nat}

theorem part_toNat (hc : Admissible config) (h : MemRange.Mapped config (b, size)) (off : Word)
    (hoff : off.toNat < size) : (b + off).toNat = b.toNat + off.toNat := by
  obtain ⟨r, hr, hlow, hhigh⟩ := h
  have hend := hc.end_le hr
  rw [BitVec.toNat_add]
  simp only at hlow hhigh
  omega

theorem part_inside (hc : Admissible config) (h : MemRange.Mapped config (b, size))
    (hn : 0 < n) (hoff : off.toNat + n ≤ size) : MemRange.Inside (b + off, n) (b, size) := by
  unfold MemRange.Inside
  rw [part_toNat hc h off (by omega)]
  simp only
  omega

/-- Two parts of one mapped range that do not overlap are apart. -/
theorem parts_off (hc : Admissible config) (h : MemRange.Mapped config (b, size)) (hn : 0 < n)
    (hn' : 0 < n') (hoff : off.toNat + n ≤ size) (hoff' : off'.toNat + n' ≤ size)
    (hapart : off.toNat + n ≤ off'.toNat ∨ off'.toNat + n' ≤ off.toNat) :
    MemRange.Off config (b + off, n) (b + off', n') := by
  have hstart := part_toNat hc h off (by omega)
  have hstart' := part_toNat hc h off' (by omega)
  obtain ⟨r, hr, hlow, hhigh⟩ := h
  have hmod := hc.mod_add_le hr
  simp only at hlow hhigh
  apply apart_of_mod
  · simp only [hstart]
    omega
  · simp only [hstart']
    omega
  · simp only [hstart, hstart']
    omega

end

/-! ## The stores to the block -/

/-- The store at an offset of the block. -/
def GuestStore.under (t : Word) : GuestStore → GuestStore
  | half address value => half (t + address) value
  | word address value => word (t + address) value

theorem GuestStore.range_under (t : Word) (e : GuestStore) :
    (e.under t).range = (t + e.range.1, e.range.2) := by cases e <;> rfl

theorem GuestStore.range_pos (e : GuestStore) : 0 < e.range.2 := by
  cases e with
  | half address value => exact Nat.succ_pos 1
  | word address value => exact Nat.succ_pos 3

/-- The fields of a new thread, by their offsets. -/
def threadFields (attributes priority : Word) : List GuestStore :=
  [.half kThreadStateOffset kThreadStateReady,
    .half kThreadAttrOffset (attributes.setWidth 16 &&& 1#16),
    .word kThreadBasePriorityOffset priority, .word kThreadPriorityOffset priority,
    .word kThreadSuspendOffset 1#32, .word kThreadExitValueOffset 0xFFFFFFFF#32,
    .word kThreadMutexOffset 0#32, .word (kThreadJoinQueueOffset + 4#32) 0#32,
    .word kThreadJoinQueueOffset 0#32, .word kThreadMutexTailOffset 0#32,
    .word kThreadMutexQueueOffset 0#32]

theorem threadStores_eq (a : Arguments) :
    threadStores a.threadPtr a.attributes a.priority a.alignedStack =
      (threadFields a.attributes a.priority).map (GuestStore.under a.threadPtr) ++
        [.word (a.alignedStack - 8#32) 0#32, .word (a.alignedStack - 4#32) 0#32] := by
  simp [threadStores, threadFields, GuestStore.under, BitVec.add_assoc]

/-- The fields lie between the context and the links of the list. -/
theorem threadFields_inside (attributes priority : Word) :
    ∀ e ∈ threadFields attributes priority,
      0x2C8 ≤ e.range.1.toNat ∧ e.range.1.toNat + e.range.2 ≤ 0x2FC := by
  intro e he
  have hranges : ∀ r ∈ (threadFields attributes priority).map GuestStore.range,
      0x2C8 ≤ r.1.toNat ∧ r.1.toNat + r.2 ≤ 0x2FC := by
    change ∀ r ∈ [(0x2C8#32, 2), (0x2CA#32, 2), (0x2D4#32, 4), (0x2D0#32, 4), (0x2CC#32, 4),
      (0x2D8#32, 4), (0x2F0#32, 4), (0x2EC#32, 4), (0x2E8#32, 4), (0x2F8#32, 4), (0x2F4#32, 4)],
      0x2C8 ≤ (r : MemRange).1.toNat ∧ r.1.toNat + r.2 ≤ 0x2FC
    decide
  exact hranges _ (List.mem_map_of_mem he)

/-- No two fields overlap. -/
theorem threadFields_pairwise (attributes priority : Word) :
    (threadFields attributes priority).Pairwise fun e e' =>
      e'.range.1.toNat + e'.range.2 ≤ e.range.1.toNat ∨
        e.range.1.toNat + e.range.2 ≤ e'.range.1.toNat := by
  have hranges : ((threadFields attributes priority).map GuestStore.range).Pairwise
      fun r r' => r'.1.toNat + r'.2 ≤ r.1.toNat ∨ r.1.toNat + r.2 ≤ r'.1.toNat := by
    change ([(0x2C8#32, 2), (0x2CA#32, 2), (0x2D4#32, 4), (0x2D0#32, 4), (0x2CC#32, 4),
      (0x2D8#32, 4), (0x2F0#32, 4), (0x2EC#32, 4), (0x2E8#32, 4), (0x2F8#32, 4),
      (0x2F4#32, 4)] : List MemRange).Pairwise
      fun r r' => r'.1.toNat + r'.2 ≤ r.1.toNat ∨ r.1.toNat + r.2 ≤ r'.1.toNat
    decide
  exact List.pairwise_map.mp hranges

/-- The ranges of the block before and behind the fields, the stack words, and the word of the
floating-point context. -/
def outerRanges (a : Arguments) : Set MemRange :=
  {r | (∃ off : Word, r.1 = a.threadPtr + off ∧ 0 < r.2 ∧
      (off.toNat + r.2 ≤ 0x2C8 ∨ 0x2FC ≤ off.toNat ∧ off.toNat + r.2 ≤ kThreadSize)) ∨
    (∃ w ∈ a.stackWords, r.Inside w) ∨ r = (kCurrentFpuContextAddr, 4)}

/-- All ranges that the initialization of the block stores to. -/
def blockRanges (a : Arguments) : Set MemRange :=
  {r | r = threadRange a.threadPtr ∨ r ∈ a.stackWords ∨ r = (kCurrentFpuContextAddr, 4)}

/-- The store is at an offset of the block away from the fields. -/
def OuterStore (t : Word) (e : GuestStore) : Prop :=
  ∃ off : Word, e.range.1 = t + off ∧ (off.toNat + e.range.2 ≤ 0x2C8 ∨
    0x2FC ≤ off.toNat ∧ off.toNat + e.range.2 ≤ kThreadSize)

theorem outer_word (t : Word) {off : Word} (x : Word) (hoff : off.toNat + 4 ≤ 0x2C8 ∨
    0x2FC ≤ off.toNat ∧ off.toNat + 4 ≤ kThreadSize) : OuterStore t (.word (t + off) x) :=
  ⟨off, rfl, hoff⟩

theorem outer_half (t : Word) {off : Word} (x : Half) (hoff : off.toNat + 2 ≤ 0x2C8 ∨
    0x2FC ≤ off.toNat ∧ off.toNat + 2 ≤ kThreadSize) : OuterStore t (.half (t + off) x) :=
  ⟨off, rfl, hoff⟩

theorem outer_clearWords (t base : Word) (words : List Nat)
    (hwords : ∀ i ∈ words, base.toNat + 4 * i + 4 ≤ 0x2C8) :
    ∀ e ∈ clearWords (t + base) words, OuterStore t e := by
  intro e he
  obtain ⟨i, hi, rfl⟩ := List.mem_map.mp he
  have hend := hwords i hi
  refine ⟨base + BitVec.ofNat 32 (4 * i), BitVec.add_assoc _ _ _, Or.inl ?_⟩
  rw [BitVec.toNat_add, BitVec.toNat_ofNat]
  simp only [GuestStore.range]
  omega

section

variable {config : List RegionConfig} {a : Arguments} {ts : List Word}

theorem outer_mem {e : GuestStore} (h : OuterStore a.threadPtr e) : e.range ∈ outerRanges a := by
  obtain ⟨off, hstart, hoff⟩ := h
  exact Or.inl ⟨off, hstart, e.range_pos, hoff⟩

theorem Accepts.outer_mapped (hacc : Accepts config a) (hc : Admissible config) {e : GuestStore}
    (h : OuterStore a.threadPtr e) : e.range.Mapped config := by
  obtain ⟨off, hstart, hoff⟩ := h
  have hpos := e.range_pos
  have hin : off.toNat + e.range.2 ≤ kThreadSize := by
    unfold kThreadSize at hoff ⊢
    omega
  have hrange : e.range = (a.threadPtr + off, e.range.2) := by rw [← hstart]
  rw [hrange]
  exact (part_inside hc hacc.block hpos hin).mapped hacc.block

/-- The stores of a list, each away from the fields. -/
theorem Accepts.storesIn_outer (hacc : Accepts config a) (hc : Admissible config)
    {stores : List GuestStore} (h : ∀ e ∈ stores, OuterStore a.threadPtr e) :
    StoresIn config (outerRanges a) (storeAll stores) :=
  storesIn_storeAll fun e he => ⟨hacc.outer_mapped hc (h e he), outer_mem (h e he)⟩

theorem outer_contextStores (t entryFunc stackPointer r2 r13 : Word) :
    ∀ e ∈ contextStores t entryFunc stackPointer r2 r13, OuterStore t e := by
  unfold contextStores
  simp only [List.forall_mem_append, List.forall_mem_cons, List.not_mem_nil, false_implies,
    implies_true, and_true]
  have hzero : ∀ words : List Nat, clearWords t words = clearWords (t + 0#32) words := by
    intro words
    rw [BitVec.add_zero]
  have hlow : ∀ i ∈ List.range' 3 10, (0#32).toNat + 4 * i + 4 ≤ 0x2C8 := by decide
  have hhigh : ∀ i ∈ List.range' 14 18, (0#32).toNat + 4 * i + 4 ≤ 0x2C8 := by decide
  have hgqr : ∀ i ∈ List.range 8, kContextGqrOffset.toNat + 4 * i + 4 ≤ 0x2C8 := by decide
  refine ⟨⟨⟨⟨⟨outer_word _ _ (by decide), outer_word _ _ (by decide),
    outer_word _ _ (by decide),
    outer_word _ _ (by decide), outer_word _ _ (by decide), outer_word _ _ (by decide),
    outer_word _ _ (by decide)⟩, ?_⟩, ?_⟩, ?_⟩, outer_half _ _ (by decide),
    outer_half _ _ (by decide)⟩
  · rw [hzero]
    exact outer_clearWords t _ _ hlow
  · rw [hzero]
    exact outer_clearWords t _ _ hhigh
  · exact outer_clearWords t _ _ hgqr

theorem outer_thpStores (t entryFunc : Word) : ∀ e ∈ thpStores t entryFunc, OuterStore t e := by
  unfold thpStores
  split
  · simp only [List.forall_mem_cons, List.not_mem_nil, false_implies, implies_true, and_true]
    exact ⟨outer_word _ _ (by decide), outer_word _ _ (by decide), outer_word _ _ (by decide),
      outer_word _ _ (by decide)⟩
  · simp

/-- The part of a context that belongs to the floating-point context. -/
def FpPart (off : Word) (n : Nat) : Prop :=
  0x90 ≤ off.toNat ∧ off.toNat + n ≤ 0x198 ∨ 0x19C ≤ off.toNat ∧
    off.toNat + n ≤ 0x1A4 ∨
    0x1C8 ≤ off.toNat ∧ off.toNat + n ≤ 0x2C8

instance (off : Word) (n : Nat) : Decidable (FpPart off n) := inferInstanceAs (Decidable (_ ∨ _))

/-- The ranges of the floating-point context. -/
def fpRanges (t : Word) : Set MemRange :=
    {r | ∃ off : Word, r.1 = t + off ∧ 0 < r.2 ∧ FpPart off r.2}

theorem fpRanges_outer {e : GuestStore} {t : Word} (h : e.range ∈ fpRanges t) :
    OuterStore t e := by
  obtain ⟨off, hstart, _, hpart⟩ := h
  unfold FpPart at hpart
  exact ⟨off, hstart, Or.inl (by omega)⟩

theorem fpStores_part (t : Word) : ∀ e ∈ fpStores t, e.range ∈ fpRanges t := by
  intro e he
  obtain ⟨i, hi, hmem⟩ := List.mem_flatMap.mp he
  have hlt := List.mem_range.mp hi
  have hpart : ∀ base : Word, base = kContextFprOffset ∨ base = kContextPsfOffset →
      (t + base + BitVec.ofNat 32 (4 * i), 4) ∈ fpRanges t := by
    intro base hbase
    refine ⟨base + BitVec.ofNat 32 (4 * i), BitVec.add_assoc _ _ _, Nat.succ_pos 3, ?_⟩
    unfold FpPart
    rw [BitVec.toNat_add, BitVec.toNat_ofNat]
    rcases hbase with rfl | rfl
    · simp only [kContextFprOffset, BitVec.toNat_ofNat]
      omega
    · simp only [kContextPsfOffset, BitVec.toNat_ofNat]
      omega
  simp only [List.mem_cons, List.not_mem_nil, or_false] at hmem
  rcases hmem with rfl | rfl
  · exact hpart _ (Or.inl rfl)
  · exact hpart _ (Or.inr rfl)

/-- The end of the context, the bounds of the stack, and the word at its bottom. -/
theorem Accepts.storesIn_stackStores (hacc : Accepts config a) (hc : Admissible config) :
    StoresIn config (outerRanges a)
      (storeAll (stackStores a.threadPtr a.entryArg a.stackTop a.stackSize)) := by
  have houter : ∀ {e}, OuterStore a.threadPtr e →
      e.range.Mapped config ∧ e.range ∈ outerRanges a :=
    fun h => ⟨hacc.outer_mapped hc h, outer_mem h⟩
  have hbottom : (GuestStore.word (a.stackTop - a.stackSize) kStackGuard).range ∈ outerRanges a :=
    Or.inr (Or.inl ⟨(a.stackTop - a.stackSize, 4), by simp [Arguments.stackWords],
      le_refl _, le_refl _⟩)
  apply storesIn_storeAll
  unfold stackStores
  simp only [List.forall_mem_cons, List.not_mem_nil, false_implies, implies_true, and_true]
  exact ⟨houter (outer_word _ _ (by decide)), houter (outer_word _ _ (by decide)),
    houter (outer_word _ _ (by decide)), houter (outer_word _ _ (by decide)),
    ⟨hacc.bottom, hbottom⟩, houter (outer_word _ _ (by decide)),
    houter (outer_word _ _ (by decide)), houter (outer_word _ _ (by decide))⟩

theorem storesIn_dropFpuContext (t : Word) :
    StoresIn config {(kCurrentFpuContextAddr, 4)} (dropFpuContext t) := by
  unfold dropFpuContext
  apply storesIn_checked (n := 4) (by decide) (by decide)
  intro mapped hmapped
  apply storesIn_ite
  · intro hyes
    apply storesIn_bind (storesIn_read32 (hmapped hyes))
    intro x
    apply storesIn_ite
    · exact fun _ => storesIn_pure ()
    · exact fun _ => storesIn_write32 (hmapped hyes) (Set.mem_singleton _) _
  · exact fun _ => storesIn_pure ()

theorem Accepts.storesIn_initializeFpContext (hacc : Accepts config a) (hc : Admissible config) :
    StoresIn config (fpRanges a.threadPtr) (initializeFpContext a.threadPtr) := by
  have hword : ∀ off : Word, FpPart off 4 →
      MemRange.Mapped config (a.threadPtr + off, 4) ∧
        (a.threadPtr + off, 4) ∈ fpRanges a.threadPtr := by
    intro off hpart
    have hmem : (GuestStore.word (a.threadPtr + off) 0#32).range ∈ fpRanges a.threadPtr :=
      ⟨off, rfl, Nat.succ_pos 3, hpart⟩
    exact ⟨hacc.outer_mapped hc (fpRanges_outer hmem), hmem⟩
  have hmode : FpPart kContextModeFlagsOffset 2 := by decide
  have hflags : (GuestStore.half (a.threadPtr + kContextModeFlagsOffset) 0#16).range ∈
      fpRanges a.threadPtr := ⟨_, rfl, Nat.succ_pos 1, hmode⟩
  have hhalf : MemRange.Mapped config (a.threadPtr + kContextModeFlagsOffset, 2) :=
    hacc.outer_mapped hc (fpRanges_outer hflags)
  obtain ⟨hsrr1, hsrr1mem⟩ := hword kContextSrr1Offset (by decide)
  obtain ⟨hfpscr, hfpscrmem⟩ := hword kContextFpscrOffset (by decide)
  unfold initializeFpContext
  apply storesIn_checked (n := 4) (by decide) (by decide)
  intro mapped hmapped
  apply storesIn_ite
  · intro hyes
    apply storesIn_bind (storesIn_read32 (hmapped hyes))
    intro flag
    apply storesIn_ite
    · exact fun _ => storesIn_pure ()
    · intro _
      apply storesIn_bind (storesIn_read32 hsrr1)
      intro srr1
      apply storesIn_bind (storesIn_write32 hsrr1 hsrr1mem _)
      intro _
      apply storesIn_bind (storesIn_read16 hhalf)
      intro state
      apply storesIn_bind (storesIn_write16 hhalf hflags _)
      intro _
      apply storesIn_checked (n := 4) (by decide) (by decide)
      intro source hsource
      apply storesIn_bind
      · apply storesIn_onlyIf
        intro hyes
        apply storesIn_bind (storesIn_read32 (hsource hyes))
        exact fun attr => storesIn_write32 hfpscr hfpscrmem _
      · intro _
        apply storesIn_storeAll
        intro e he
        have hpart := fpStores_part _ e he
        exact ⟨hacc.outer_mapped hc (fpRanges_outer hpart), hpart⟩
  · exact fun _ => storesIn_pure ()

/-- Everything behind the fields. -/
theorem Accepts.storesIn_rest (hacc : Accepts config a) (hc : Admissible config) (cpu : CpuPtr) :
    StoresIn config (outerRanges a) (do
      let r2 ← getGpr cpu 2
      let r13 ← getGpr cpu 13
      storeAll (contextStores a.threadPtr a.entryFunc (a.alignedStack - 8#32) r2 r13)
      dropFpuContext a.threadPtr
      storeAll (thpStores a.threadPtr a.entryFunc)
      storeAll (stackStores a.threadPtr a.entryArg a.stackTop a.stackSize)
      initializeFpContext a.threadPtr) := by
  apply storesIn_bind (storesIn_getGpr cpu 2)
  intro r2
  apply storesIn_bind (storesIn_getGpr cpu 13)
  intro r13
  apply storesIn_bind (hacc.storesIn_outer hc (outer_contextStores _ _ _ _ _))
  intro _
  apply storesIn_bind ((storesIn_dropFpuContext _).mono fun _ hr => Or.inr (Or.inr hr))
  intro _
  apply storesIn_bind (hacc.storesIn_outer hc (outer_thpStores _ _))
  intro _
  apply storesIn_bind (hacc.storesIn_stackStores hc)
  intro _
  apply (hacc.storesIn_initializeFpContext hc).mono
  rintro r ⟨off, hstart, hpos, hpart⟩
  unfold FpPart at hpart
  exact Or.inl ⟨off, hstart, hpos, Or.inl (by omega)⟩

/-! ## The initialized block -/

/-- The fields of the new thread as they stand in memory. -/
def FieldsShown (m : Memory) (a : Arguments) : Prop :=
  ∀ e ∈ threadFields a.attributes a.priority, (e.under a.threadPtr).Shown m

theorem field_inside (hacc : Accepts config a) (hc : Admissible config) {e : GuestStore}
    (he : e ∈ threadFields a.attributes a.priority) :
    (e.under a.threadPtr).range.Inside (threadRange a.threadPtr) := by
  have hin := threadFields_inside _ _ e he
  rw [GuestStore.range_under]
  apply part_inside hc hacc.block e.range_pos
  unfold kThreadSize
  omega

/-- The two words below the top of the stack. -/
def topStores (a : Arguments) : List GuestStore :=
  [.word (a.alignedStack - 8#32) 0#32, .word (a.alignedStack - 4#32) 0#32]

theorem topStores_inside (hacc : Accepts config a) (hc : Admissible config) :
    ∀ e ∈ topStores a, e.range.Inside (a.alignedStack - 8#32, 8) := by
  have hfour : a.alignedStack - 4#32 = a.alignedStack - 8#32 + 4#32 := by bv_omega
  unfold topStores
  rw [hfour]
  simp only [List.forall_mem_cons, List.not_mem_nil, false_implies, implies_true, and_true]
  refine ⟨⟨le_refl _, ?_⟩, part_inside hc hacc.top (by decide) (by decide)⟩
  simp only [GuestStore.range]
  omega

theorem topStores_pairwise (hacc : Accepts config a) (hc : Admissible config) :
    (topStores a).Pairwise fun e e' => e'.range.Off config e.range := by
  have hfour : a.alignedStack - 4#32 = a.alignedStack - 8#32 + 4#32 := by bv_omega
  have hzero : a.alignedStack - 8#32 = a.alignedStack - 8#32 + 0#32 := (BitVec.add_zero _).symm
  unfold topStores
  rw [hfour, List.pairwise_pair]
  have hoff : MemRange.Off config (a.alignedStack - 8#32 + 4#32, 4)
      (a.alignedStack - 8#32 + 0#32, 4) :=
    parts_off hc hacc.top (by decide) (by decide) (by decide) (by decide) (by decide)
  rw [← hzero] at hoff
  exact hoff

/-- The stores to the fields, and to the two words below the top of the stack. -/
theorem threadStores_runs (hacc : Accepts config a) (hfresh : FreshThread config ts a)
    {s : Machine Memory} (hs : Serves config s.mem) :
    ∃ m, storeAll (threadStores a.threadPtr a.attributes a.priority a.alignedStack) s =
        .ret () (s.withMem m) ∧ Leaves config (blockRanges a) s.mem m ∧ FieldsShown m a := by
  have hc := hs.admissible
  have htop : (a.alignedStack - 8#32, 8) ∈ a.stackWords := List.mem_cons_self
  have hfields :
    ∀ e ∈ (threadFields a.attributes a.priority).map (GuestStore.under a.threadPtr),
      e.range.Inside (threadRange a.threadPtr) := by
    intro e he
    obtain ⟨field, hfield, rfl⟩ := List.mem_map.mp he
    exact field_inside (e := field) hacc hc hfield
  have hpair : ((threadFields a.attributes a.priority).map
      (GuestStore.under a.threadPtr)).Pairwise fun e e' => e'.range.Off config e.range := by
    rw [List.pairwise_map]
    refine (List.Pairwise.and_mem.mp (threadFields_pairwise _ _)).imp ?_
    rintro e e' ⟨he, he', hdis⟩
    have hin := threadFields_inside _ _ e he
    have hin' := threadFields_inside _ _ e' he'
    rw [GuestStore.range_under, GuestStore.range_under]
    have hblock : MemRange.Mapped config (a.threadPtr, 0x318) := hacc.block
    exact parts_off hc hblock e'.range_pos e.range_pos (by omega) (by omega) hdis
  have hmapped :
    ∀ e ∈ (threadFields a.attributes a.priority).map (GuestStore.under a.threadPtr) ++
      topStores a, e.range.Mapped config := by
    intro e he
    rcases List.mem_append.mp he with he | he
    · exact (hfields e he).mapped hacc.block
    · exact (topStores_inside hacc hc e he).mapped hacc.top
  have hapart : ((threadFields a.attributes a.priority).map (GuestStore.under a.threadPtr) ++
      topStores a).Pairwise fun e e' => e'.range.Off config e.range := by
    rw [List.pairwise_append]
    refine ⟨hpair, topStores_pairwise hacc hc, fun e he e' he' => ?_⟩
    have hoff := hfresh.stackBlocks _ htop a.threadPtr List.mem_cons_self
    exact (hfields e he).off_right ((topStores_inside hacc hc e' he').off hoff)
  obtain ⟨m, hrun, hm, hshown⟩ := storeAll_shown hs hmapped hapart
  refine ⟨m, ?_, hm.cover ?_, fun e he => ?_⟩
  · rw [threadStores_eq]
    exact hrun
  · rintro r ⟨e, he, rfl⟩
    rcases List.mem_append.mp he with he | he
    · exact ⟨_, Or.inl rfl, hfields e he⟩
    · exact ⟨_, Or.inr (Or.inl htop), topStores_inside hacc hc e he⟩
  · exact hshown _ (List.mem_append_left _ (List.mem_map_of_mem he))

theorem outerRanges_cover (hacc : Accepts config a) (hc : Admissible config) :
    ∀ r ∈ outerRanges a, ∃ r' ∈ blockRanges a, r.Inside r' := by
  rintro ⟨start, n⟩ (⟨off, hstart, hn, hoff⟩ | ⟨w, hw, hin⟩ | hfpu)
  · simp only at hstart hn hoff
    subst hstart
    refine ⟨_, Or.inl rfl, part_inside hc hacc.block hn ?_⟩
    unfold kThreadSize at hoff ⊢
    omega
  · exact ⟨w, Or.inr (Or.inl hw), hin⟩
  · exact ⟨_, Or.inr (Or.inr hfpu), le_refl _, le_refl _⟩

/-- What comes behind the fields is apart from them. -/
theorem outerRanges_off (hacc : Accepts config a) (hfresh : FreshThread config ts a)
    (hc : Admissible config) {e : GuestStore} (he : e ∈ threadFields a.attributes a.priority) :
    ∀ r ∈ outerRanges a, r.Off config (e.under a.threadPtr).range := by
  have hfield := threadFields_inside _ _ e he
  have hinside := field_inside hacc hc he
  have hblock : MemRange.Mapped config (a.threadPtr, 0x318) := hacc.block
  rintro ⟨start, n⟩ (⟨off, hstart, hn, hoff⟩ | ⟨w, hw, hin⟩ | hfpu)
  · simp only [kThreadSize] at hstart hn hoff
    subst hstart
    rw [GuestStore.range_under]
    exact parts_off hc hblock hn e.range_pos (by omega) (by omega) (by omega)
  · exact hinside.off_right (hin.off (hfresh.stackBlocks w hw a.threadPtr List.mem_cons_self))
  · rw [hfpu]
    have hoff := hfresh.globals a.threadPtr List.mem_cons_self kCurrentFpuContextAddr
      (by simp [createGlobals])
    exact hinside.off_right hoff.symm

theorem FieldsShown.of_leaves {m m' : Memory} {R : Set MemRange} (h : FieldsShown m a)
    (hm : Leaves config R m m')
    (hoff : ∀ e ∈ threadFields a.attributes a.priority, ∀ r ∈ R,
      r.Off config (e.under a.threadPtr).range) : FieldsShown m' a :=
  fun e he => (h e he).of_leaves hm (hoff e he)

/-- The initialization of the block. -/
theorem initializeBlock_runs (hacc : Accepts config a) (hfresh : FreshThread config ts a)
    {s : Machine Memory} (hs : Serves config s.mem) (cpu : CpuPtr) :
    ∃ m, initializeBlock cpu a s = .ret () (s.withMem m) ∧
      Leaves config (blockRanges a) s.mem m ∧ FieldsShown m a := by
  have hc := hs.admissible
  obtain ⟨m₁, hrun₁, hm₁, hshown⟩ := threadStores_runs hacc hfresh hs
  obtain ⟨_, m₂, hrun₂, hm₂⟩ := hacc.storesIn_rest hc cpu (s.withMem m₁) hm₁.serves
  refine ⟨m₂, ?_, hm₁.trans (hm₂.cover (outerRanges_cover hacc hc)),
    hshown.of_leaves hm₂ fun e he => outerRanges_off hacc hfresh hc he⟩
  unfold initializeBlock
  rw [Routine.bind_of hrun₁]
  exact hrun₂

/-! ## The end of the list -/

theorem ActiveThreads.of_leaves {m m' : Memory} {R : Set MemRange}
    (h : ActiveThreads config m ts) (hm : Leaves config R m m')
    (hoff : ∀ w ∈ listWords ts, ∀ r ∈ R, r.Off config w) : ActiveThreads config m' ts := by
  obtain ⟨fd, bk, hlinked, hwords⟩ := h.linked
  refine ⟨h.mapped, fd, bk, hlinked, fun w hw => ?_⟩
  exact (hm.read32 (hoff _ ⟨w, hw, rfl⟩)).trans (hwords w hw)

theorem ListWord.inside (hc : Admissible config) {w : ListWord} {t : Word} (hw : w.owner = some t)
    (hmapped : (threadRange t).Mapped config) :
    MemRange.Inside (w.address, 4) (threadRange t) := by
  cases w with
  | head => cases hw
  | tail => cases hw
  | next u =>
    obtain rfl := Option.some_inj.mp hw
    exact part_inside hc hmapped (by decide) (by decide)
  | prev u =>
    obtain rfl := Option.some_inj.mp hw
    exact part_inside hc hmapped (by decide) (by decide)

theorem ListWord.global {w : ListWord} (hw : w.owner = none) : w.address ∈ createGlobals := by
  cases w with
  | head => simp [ListWord.address, createGlobals]
  | tail => simp [ListWord.address, createGlobals]
  | next u => cases hw
  | prev u => cases hw

theorem FreshThread.blocks_off (hfresh : FreshThread config ts a) {t u : Word}
    (ht : t ∈ a.threadPtr :: ts) (hu : u ∈ a.threadPtr :: ts) (hne : t ≠ u) :
    (threadRange t).Off config (threadRange u) := by
  have hsymm : Std.Symm fun t u => (threadRange t).Off config (threadRange u) :=
    ⟨fun _ _ h => h.symm⟩
  exact hfresh.blocks.forall ht hu hne

/-- No two words of the list with the new thread share a byte. -/
theorem listWords_off (hc : Admissible config) (hfresh : FreshThread config ts a)
    (hmapped : ∀ t ∈ a.threadPtr :: ts, (threadRange t).Mapped config) {w w' : ListWord}
    (hw : w.Of (a.threadPtr :: ts)) (hw' : w'.Of (a.threadPtr :: ts)) (hne : w ≠ w') :
    MemRange.Off config (w.address, 4) (w'.address, 4) := by
  have hglobal : ∀ {w w' : ListWord}, w.owner = none → ∀ t ∈ w'.owner,
    w'.Of (a.threadPtr :: ts) →
      MemRange.Off config (w'.address, 4) (w.address, 4) := by
    intro w w' hw t ht hmem
    have hmem' := ListWord.of_owner ht hmem
    exact (ListWord.inside hc ht (hmapped t hmem')).off
      (hfresh.globals t hmem' _ (ListWord.global hw))
  rcases howner : w.owner with _ | t <;> rcases howner' : w'.owner with _ | u
  · cases w <;> cases w' <;> simp only [ListWord.owner, reduceCtorEq] at howner howner' hne
    · exact absurd rfl hne
    · exact apart_of_mod _ (by decide) (by decide) (by decide)
    · exact apart_of_mod _ (by decide) (by decide) (by decide)
    · exact absurd rfl hne
  · exact (hglobal howner u howner' hw').symm
  · exact hglobal howner' t howner hw
  · have ht := ListWord.of_owner howner hw
    have hu := ListWord.of_owner howner' hw'
    by_cases htu : t = u
    · subst htu
      have hlinks : MemRange.Off config (t + kThreadListNextOffset, 4)
          (t + kThreadListPrevOffset, 4) :=
        parts_off hc (hmapped t ht) (by decide) (by decide) (by decide) (by decide) (by decide)
      cases w <;> cases w' <;>
        simp only [ListWord.owner, reduceCtorEq, Option.some.injEq] at howner howner'
      all_goals subst howner howner'
      · exact absurd rfl hne
      · exact hlinks
      · exact hlinks.symm
      · exact absurd rfl hne
    · have hoff := hfresh.blocks_off ht hu htu
      exact (ListWord.inside hc howner' (hmapped u hu)).off_right
        ((ListWord.inside hc howner (hmapped t ht)).off hoff)

/-- The store of a value to a word of the list. -/
def listStore (e : ListWord × Word) : GuestStore := .word e.1.address e.2

/-- What the list gets when the thread goes behind `tailThread`. -/
def linkEntries (tailThread threadPtr newHead : Word) : List (ListWord × Word) :=
  (if tailThread = 0#32 then [] else [(.next tailThread, threadPtr)]) ++
    [(.head, newHead), (.prev threadPtr, tailThread), (.next threadPtr, 0#32), (.tail, threadPtr)]

/-- The stores that the list always gets. -/
theorem linkStores_eq (newHead tailThread threadPtr : Word) : storeAll
    ([(.head, newHead), (.prev threadPtr, tailThread), (.next threadPtr, 0#32),
      (.tail, threadPtr)].map listStore) = (do
    write32 kThreadListHeadAddr newHead
    write32 (threadPtr + kThreadListPrevOffset) tailThread
    write32 (threadPtr + kThreadListNextOffset) 0#32
    write32 kThreadListTailAddr threadPtr) := by
  have hlast : storeAll [listStore (.tail, threadPtr)] = write32 kThreadListTailAddr threadPtr := by
    funext s
    exact Coop.bind_pure _
  rw [← hlast]
  rfl

theorem linkActiveThread_eq {s : Machine Memory} {threadPtr tailThread head : Word}
    (hs : Serves config s.mem) (htail : s.mem.read32 kThreadListTailAddr = some tailThread)
    (hhead : s.mem.read32 kThreadListHeadAddr = some head)
    (hlink : tailThread ≠ 0#32 →
      MemRange.Mapped config (tailThread + kThreadListNextOffset, 4) ∧
      MemRange.Off config (tailThread + kThreadListNextOffset, 4) (kThreadListHeadAddr, 4)) :
    linkActiveThread threadPtr s = storeAll ((linkEntries tailThread threadPtr
      (if tailThread = 0#32 then threadPtr else head)).map listStore) s := by
  unfold linkActiveThread linkEntries linkBehind
  rw [Routine.bind_of (read32_ret htail), List.map_append]
  by_cases hz : tailThread = 0#32
  · rw [if_pos hz, if_pos hz, if_pos hz, List.map_nil, List.nil_append, linkStores_eq]
    rfl
  · obtain ⟨hmapped, hoff⟩ := hlink hz
    obtain ⟨m, hw⟩ := hs.write32_some hmapped threadPtr
    have hkeep : m.read32 kThreadListHeadAddr = some head :=
      (hs.frame32 (k := .w32) hw hoff).trans hhead
    have hread : read32 kThreadListHeadAddr (s.withMem m) = .ret head (s.withMem m) :=
      read32_ret hkeep
    have hbehind : (do
        write32 (tailThread + kThreadListNextOffset) threadPtr
        read32 kThreadListHeadAddr : OS Word) s = .ret head (s.withMem m) := by
      rw [Routine.bind_of (write32_ret hw), hread]
    rw [if_neg hz, if_neg hz, if_neg hz, Routine.bind_of hbehind, ← linkStores_eq]
    have hstore : store (listStore (.next tailThread, threadPtr)) s = .ret () (s.withMem m) :=
      write32_ret hw
    rw [List.map_singleton, List.singleton_append, storeAll, Routine.bind_of hstore]

theorem FreshThread.notMem (hfresh : FreshThread config ts a) : a.threadPtr ∉ ts := by
  intro hmem
  have hself := (List.pairwise_cons.mp hfresh.blocks).1 a.threadPtr hmem
  have hpos : 0 < kThreadSize := by decide
  exact hself 0 hpos 0 hpos (sameByte_self config _)

/-- The links of the ring with `t` at its end. -/
def linkedOn (fd bk : Word → Word) (t x : Word) : Word :=
  if x = t then 0#32 else if x = bk 0#32 then t else fd x

def linkedBack (bk : Word → Word) (t x : Word) : Word :=
  if x = t then bk 0#32 else if x = 0#32 then t else bk x

section Link

variable {fd bk : Word → Word} {t : Word}

/-- The head of the list behind the change. -/
def newHead (fd bk : Word → Word) (t : Word) : Word := if bk 0#32 = 0#32 then t else fd 0#32

theorem mem_linkEntries {e : ListWord × Word} {tailThread head : Word} :
    e ∈ linkEntries tailThread t head ↔ (tailThread ≠ 0#32 ∧ e = (.next tailThread, t)) ∨
      e = (.head, head) ∨ e = (.prev t, tailThread) ∨ e = (.next t, 0#32) ∨
      e = (.tail, t) := by
  unfold linkEntries
  split
  case isTrue hz => simp [hz]
  case isFalse hz => simp [hz]

/-- Each store puts the link of the new ring. -/
theorem linkEntries_value (ht : t ≠ 0#32) (htail : bk 0#32 ≠ t) :
    ∀ e ∈ linkEntries (bk 0#32) t (newHead fd bk t),
      e.2 = e.1.value (linkedOn fd bk t) (linkedBack bk t) := by
  intro e he
  rcases mem_linkEntries.mp he with ⟨hz, rfl⟩ | rfl | rfl | rfl | rfl
  · simp [ListWord.value, linkedOn, htail]
  · simp [ListWord.value, linkedOn, newHead, Ne.symm ht, eq_comm]
  · simp [ListWord.value, linkedBack]
  · simp [ListWord.value, linkedOn]
  · simp [ListWord.value, linkedBack, Ne.symm ht]

/-- The other words keep their links. -/
theorem linkEntries_other {w : ListWord} (hw : w.Of (ts ++ [t])) (hts : 0#32 ∉ ts)
    (hother : ∀ x, (w, x) ∉ linkEntries (bk 0#32) t (newHead fd bk t)) :
    w.Of ts ∧ w.value (linkedOn fd bk t) (linkedBack bk t) = w.value fd bk := by
  have hnot : ∀ x, ¬ ((bk 0#32 ≠ 0#32 ∧ (w, x) = (.next (bk 0#32), t)) ∨
      (w, x) = (.head, newHead fd bk t) ∨ (w, x) = (.prev t, bk 0#32) ∨
      (w, x) = (.next t, 0#32) ∨ (w, x) = (.tail, t)) :=
    fun x hx => hother x (mem_linkEntries.mpr hx)
  cases w with
  | head => exact absurd (Or.inr (Or.inl rfl)) (hnot _)
  | tail => exact absurd (Or.inr (Or.inr (Or.inr (Or.inr rfl)))) (hnot _)
  | next u =>
    have hut : u ≠ t := by
      rintro rfl
      exact absurd (Or.inr (Or.inr (Or.inr (Or.inl rfl)))) (hnot _)
    have hmem : u ∈ ts := by
      have hu : u ∈ ts ++ [t] := hw
      simpa [hut] using hu
    have hlast : u ≠ bk 0#32 := by
      rintro rfl
      have hz : bk 0#32 ≠ 0#32 := fun hz => hts (hz ▸ hmem)
      exact absurd (Or.inl ⟨hz, rfl⟩) (hnot _)
    refine ⟨hmem, ?_⟩
    simp [ListWord.value, linkedOn, hut, hlast]
  | prev u =>
    have hut : u ≠ t := by
      rintro rfl
      exact absurd (Or.inr (Or.inr (Or.inl rfl))) (hnot _)
    have hmem : u ∈ ts := by
      have hu : u ∈ ts ++ [t] := hw
      simpa [hut] using hu
    have hz : u ≠ 0#32 := fun hz => hts (hz ▸ hmem)
    refine ⟨hmem, ?_⟩
    simp [ListWord.value, linkedBack, hut, hz]

end Link

/-- The thread goes to the end of the list. -/
theorem linkActiveThread_runs (hacc : Accepts config a) (hfresh : FreshThread config ts a)
    (hzero : a.threadPtr ≠ 0#32) {s : Machine Memory} (hs : Serves config s.mem)
    (hlist : ActiveThreads config s.mem ts) :
    ∃ m, linkActiveThread a.threadPtr s = .ret () (s.withMem m) ∧
      Leaves config (listWords (a.threadPtr :: ts)) s.mem m ∧
      ActiveThreads config m (ts ++ [a.threadPtr]) := by
  have hc := hs.admissible
  have hmapped : ∀ t ∈ a.threadPtr :: ts, (threadRange t).Mapped config :=
    List.forall_mem_cons.mpr ⟨hacc.block, hlist.mapped⟩
  obtain ⟨fd, bk, hlinked, hwords⟩ := hlist.linked
  have hts : 0#32 ∉ ts := (List.nodup_cons.mp hlinked.2).1
  have htail : bk 0#32 ∈ 0#32 :: ts := hlinked.1.bk_mem
  have htailmem : bk 0#32 ≠ 0#32 → bk 0#32 ∈ ts := by
    intro hz
    exact (List.mem_cons.mp htail).resolve_left hz
  have htailne : bk 0#32 ≠ a.threadPtr := by
    intro heq
    rcases List.mem_cons.mp htail with hz | hmem
    · exact hzero (heq.symm.trans hz)
    · exact hfresh.notMem (heq ▸ hmem)
  have hof : ∀ e ∈ linkEntries (bk 0#32) a.threadPtr (newHead fd bk a.threadPtr),
      e.1.Of (a.threadPtr :: ts) := by
    intro e he
    rcases mem_linkEntries.mp he with ⟨hz, rfl⟩ | rfl | rfl | rfl | rfl
    · exact List.mem_cons_of_mem _ (htailmem hz)
    · trivial
    · exact List.mem_cons_self
    · exact List.mem_cons_self
    · trivial
  have hrange : ∀ w : ListWord, w.Of (a.threadPtr :: ts) →
      MemRange.Mapped config (w.address, 4) := by
    intro w hw
    cases howner : w.owner with
    | none =>
      have hts' : w.Of ts := by
        cases w <;> simp_all [ListWord.owner, ListWord.Of]
      exact (hs.read32_isSome _).mp (by rw [hwords w hts', Option.isSome_some])
    | some t =>
      have ht := hmapped t (ListWord.of_owner howner hw)
      exact (ListWord.inside hc howner ht).mapped ht
  have hpair : ((linkEntries (bk 0#32) a.threadPtr (newHead fd bk a.threadPtr)).map
      listStore).Pairwise fun e e' => e'.range.Off config e.range := by
    rw [List.pairwise_map]
    have hnodup : (linkEntries (bk 0#32) a.threadPtr (newHead fd bk a.threadPtr)).Pairwise
        fun e e' => e'.1 ≠ e.1 := by
      unfold linkEntries
      split
      case isTrue hz => simp
      case isFalse hz => simp [Ne.symm htailne]
    refine (List.Pairwise.and_mem.mp hnodup).imp ?_
    rintro e e' ⟨he, he', hne⟩
    exact listWords_off hc hfresh hmapped (hof e' he') (hof e he) hne
  have hin :
    ∀ e ∈ (linkEntries (bk 0#32) a.threadPtr (newHead fd bk a.threadPtr)).map listStore,
      e.range.Mapped config := by
    intro e he
    obtain ⟨entry, hentry, rfl⟩ := List.mem_map.mp he
    exact hrange entry.1 (hof entry hentry)
  obtain ⟨m, hrun, hm, hshown⟩ := storeAll_shown hs hin hpair
  refine ⟨m, ?_, hm.mono ?_, ?_⟩
  · rw [linkActiveThread_eq hs (hwords .tail trivial) (hwords .head trivial) fun hz => ?_]
    · exact hrun
    · have hlink : ListWord.Of (a.threadPtr :: ts) (.next (bk 0#32)) :=
        List.mem_cons_of_mem _ (htailmem hz)
      have hhead : ListWord.Of (a.threadPtr :: ts) .head := trivial
      have hoff := listWords_off hc hfresh hmapped hlink hhead (by simp)
      exact ⟨hrange (.next (bk 0#32)) hlink, hoff⟩
  · rintro r ⟨e, he, rfl⟩
    obtain ⟨entry, hentry, rfl⟩ := List.mem_map.mp he
    exact ⟨entry.1, hof entry hentry, rfl⟩
  · refine ⟨?_, linkedOn fd bk a.threadPtr, linkedBack bk a.threadPtr, ?_, fun w hw => ?_⟩
    · intro t ht
      exact hmapped t (by simpa [or_comm] using ht)
    · have hlinked' : Ring.Linked fd bk 0#32 (ts ++ []) := by rwa [List.append_nil]
      have hnot : a.threadPtr ∉ 0#32 :: (ts ++ []) := by
        simp [hzero, hfresh.notMem]
      exact hlinked'.insert hnot rfl (fun _ => rfl) fun _ => rfl
    · by_cases hentry : ∃ x,
        (w, x) ∈ linkEntries (bk 0#32) a.threadPtr (newHead fd bk a.threadPtr)
      · obtain ⟨x, hx⟩ := hentry
        have hvalue := linkEntries_value hzero htailne _ hx
        have hread := hshown _ (List.mem_map_of_mem hx)
        rw [← hvalue]
        exact hread
      · push Not at hentry
        obtain ⟨hold, hvalue⟩ := linkEntries_other hw hts hentry
        rw [hvalue, ← hwords w hold]
        apply hm.read32
        rintro r ⟨e, he, rfl⟩
        obtain ⟨entry, hmem, rfl⟩ := List.mem_map.mp he
        have hw' : w.Of (a.threadPtr :: ts) := by
          cases w <;> simp_all [ListWord.Of]
        refine listWords_off hc hfresh hmapped (hof entry hmem) hw' ?_
        rintro rfl
        exact hentry entry.2 hmem

end

end wii_switch
