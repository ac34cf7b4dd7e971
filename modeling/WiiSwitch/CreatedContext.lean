-- The context that OSCreateThread leaves for a new thread. The registers that the thread
-- starts with are stored once, and what the call stores behind them is known: the guard of
-- the stack, the words of the system and of the list of all threads, and the mode flags of
-- the current context.
import WiiSwitch.CreateThreadLaws

namespace wii_switch

open Bytes OS Routine CreateThread

/-! ## Words that stand -/

/-- The words read as the list says. -/
def Standing (config : List RegionConfig) (K : List (Word × Option Word)) (s : Machine Memory) :
    Prop := Serves config s.mem ∧ ∀ p ∈ K, s.mem.read32 p.1 = p.2

section

variable {config : List RegionConfig} {K : List (Word × Option Word)} {R : Set MemRange}
  {s : Machine Memory}

theorem Standing.word {a : Word} {x : Option Word} (h : Standing config K s) (hmem : (a, x) ∈ K) :
    s.mem.read32 a = x := h.2 (a, x) hmem

theorem Standing.of_leaves {s' : Machine Memory} (h : Standing config K s)
    (hm : Leaves config R s.mem s'.mem) (hoff : ∀ p ∈ K, ∀ r ∈ R, r.Off config (p.1, 4)) :
    Standing config K s' :=
  ⟨hm.serves, fun p hp => (hm.read32 (hoff p hp)).trans (h.2 p hp)⟩

theorem StoresIn.standing {α : Type} {x : OS α} (hx : StoresIn config R x)
    (hoff : ∀ p ∈ K, ∀ r ∈ R, r.Off config (p.1, 4)) :
    Leads (Standing config K) x fun _ => Standing config K := by
  intro s h
  obtain ⟨a, m, hrun, hm⟩ := hx s h.1
  have hkeep : Standing config K (s.withMem m) := h.of_leaves hm hoff
  rw [hrun]
  exact hkeep

theorem leads_read32 {P : Machine Memory → Prop} (a : Word) :
    Leads P (read32 a) fun x s => P s ∧ s.mem.read32 a = some x := by
  intro s h
  unfold read32
  cases hread : s.mem.read32 a with
  | none => exact trivial
  | some x => exact ⟨h, hread⟩

/-- A word of its own may be unmapped. -/
theorem leads_write32 {a : Word} (x : Word)
    (hoff : ∀ p ∈ K, MemRange.Off config (a, 4) (p.1, 4)) :
    Leads (Standing config K) (write32 a x) fun _ => Standing config K := by
  intro s h
  unfold write32
  cases hwrite : s.mem.write32 a x with
  | none => exact trivial
  | some m =>
    have hleaves : Leaves config {(a, 4)} s.mem m := .write (k := .w32) h.1 hwrite
    have hkeep : Standing config K (s.withMem m) := by
      apply h.of_leaves hleaves
      rintro p hp r rfl
      exact hoff p hp
    exact hkeep

/-- The stores of a list leave the words apart from all of them. -/
theorem storeAll_standing {stores : List GuestStore} (hin : ∀ e ∈ stores, e.range.Mapped config)
    (hoff : ∀ p ∈ K, ∀ e ∈ stores, e.range.Off config (p.1, 4)) :
    Leads (Standing config K) (storeAll stores) fun _ => Standing config K := by
  have hstores : StoresIn config {r | ∃ e ∈ stores, e.range = r} (storeAll stores) :=
    storesIn_storeAll fun e he => ⟨hin e he, e, he, rfl⟩
  apply hstores.standing
  rintro p hp r ⟨e, he, rfl⟩
  exact hoff p hp e he

theorem storeAll_append (before behind : List GuestStore) :
    storeAll (before ++ behind) = (storeAll before >>= fun _ => storeAll behind) := by
  induction before with
  | nil => rfl
  | cons e rest ih =>
    funext s
    simp only [List.cons_append, storeAll, ih, bind_apply, Coop.bind_assoc]

theorem store_standing {a x : Word} (hin : MemRange.Mapped config (a, 4))
    (hoff : ∀ p ∈ K, MemRange.Off config (a, 4) (p.1, 4)) :
    Leads (Standing config K) (store (.word a x))
      fun _ => Standing config ((a, some x) :: K) := by
  intro s h
  obtain ⟨m, hrun, hm, hshown⟩ := store_runs (e := .word a x) h.1 hin
  have hkeep : Standing config K (s.withMem m) := by
    apply h.of_leaves hm
    rintro p hp r rfl
    exact hoff p hp
  rw [hrun]
  exact ⟨hm.serves, List.forall_mem_cons.mpr ⟨hshown, hkeep.2⟩⟩

/-- A list of stores leaves the value of its last store to a word. -/
theorem storeAll_last {before behind : List GuestStore} {a x : Word}
    (hin : ∀ e ∈ before ++ .word a x :: behind, e.range.Mapped config)
    (hoff : ∀ p ∈ K, ∀ e ∈ before ++ .word a x :: behind, e.range.Off config (p.1, 4))
    (hbehind : ∀ e ∈ behind, e.range.Off config (a, 4)) :
    Leads (Standing config K) (storeAll (before ++ .word a x :: behind))
      fun _ => Standing config ((a, some x) :: K) := by
  have hself : GuestStore.word a x ∈ before ++ .word a x :: behind :=
    List.mem_append_right before List.mem_cons_self
  have hmem : ∀ e ∈ behind, e ∈ before ++ .word a x :: behind :=
    fun e he => List.mem_append_right _ (List.mem_cons_of_mem _ he)
  rw [storeAll_append]
  apply leads_bind
  · exact storeAll_standing (fun e he => hin e (List.mem_append_left _ he))
      fun p hp e he => hoff p hp e (List.mem_append_left _ he)
  intro _
  apply leads_bind (store_standing (hin _ hself) fun p hp => hoff p hp _ hself)
  intro _
  apply storeAll_standing fun e he => hin e (hmem e he)
  intro p hp e he
  rcases List.mem_cons.mp hp with rfl | hp
  · exact hbehind e he
  · exact hoff p hp e (hmem e he)

/-- Stores that are apart from each other leave each of their values. -/
theorem storeAll_each {stores : List GuestStore} {a x : Word} (hmem : .word a x ∈ stores)
    (hin : ∀ e ∈ stores, e.range.Mapped config)
    (hoff : ∀ p ∈ K, ∀ e ∈ stores, e.range.Off config (p.1, 4))
    (hapart : stores.Pairwise fun e e' => e'.range.Off config e.range) :
    Leads (Standing config K) (storeAll stores) fun _ => Standing config ((a, some x) :: K) := by
  obtain ⟨before, behind, rfl⟩ := List.append_of_mem hmem
  apply storeAll_last hin hoff
  exact fun e he => List.rel_of_pairwise_cons (List.pairwise_append.mp hapart).2.1 he

end

/-! ## The words that a thread starts with -/

/-- The words of a context that its load takes, and the entry of a fiber does not. -/
inductive StartWord where
  | arg
  | entry
  | cr
  | xer
  | gpr (i : Fin 32)
  | gqr (i : Fin 8)
deriving DecidableEq

/-- The quantization registers in the context of a new thread. -/
def startGqr (entryFunc : Word) : Fin 8 → Word :=
  if isThpVideoDecoderEntry entryFunc then
    ![0#32, 0#32, 0x00040004#32, 0x00050005#32, 0x00060006#32, 0x00070007#32, 0#32, 0#32]
  else fun _ => 0#32

namespace StartWord

def offset : StartWord → Word
  | arg => kContextR3Offset
  | entry => kContextSrr0Offset
  | cr => kContextCrOffset
  | xer => kContextXerOffset
  | gpr i => BitVec.ofNat 32 (4 * i)
  | gqr i => kContextGqrOffset + BitVec.ofNat 32 (4 * i)

/-- The fiber has its own r1, r2, r3 and r13, nobody starts with r0, and the load clears GQR0. -/
def Counts : StartWord → Prop
  | gpr i => i ∉ ([0, 1, 2, 3, 13] : List (Fin 32))
  | gqr i => i ≠ 0
  | _ => True

/-- What OSCreateThread puts there. -/
def value (a : Arguments) : StartWord → Word
  | arg => a.entryArg
  | entry => a.entryFunc
  | gqr i => startGqr a.entryFunc i
  | _ => 0#32

/-- Where the words lie: not over r1, r2, LR, CTR and the floating-point context. -/
theorem place {w : StartWord} (hw : w.Counts) : 0x0C ≤ w.offset.toNat ∧
    (w ≠ arg → 0x10 ≤ w.offset.toNat) ∧
    (w.offset.toNat + 4 ≤ 0x84 ∨ w.offset.toNat = 0x8C ∨
      w.offset.toNat = 0x198 ∨ 0x1A8 ≤ w.offset.toNat ∧ w.offset.toNat + 4 ≤ 0x1C4) := by
  cases w with
  | arg => decide
  | entry => decide
  | cr => decide
  | xer => decide
  | gpr i =>
    have hplace : ∀ i : Fin 32, i ∉ ([0, 1, 2, 3, 13] : List (Fin 32)) →
        0x10 ≤ (BitVec.ofNat 32 (4 * i)).toNat ∧
          (BitVec.ofNat 32 (4 * i)).toNat + 4 ≤ 0x84 := by decide
    obtain ⟨hlow, hhigh⟩ := hplace i hw
    exact ⟨Nat.le_trans (by decide) hlow, fun _ => hlow, Or.inl hhigh⟩
  | gqr i =>
    have hplace : ∀ i : Fin 8, i ≠ 0 →
      0x1A8 ≤ (kContextGqrOffset + BitVec.ofNat 32 (4 * i)).toNat ∧
        (kContextGqrOffset + BitVec.ofNat 32 (4 * i)).toNat + 4 ≤ 0x1C4 := by decide
    have hin := hplace i hw
    exact ⟨Nat.le_trans (by decide) hin.1, fun _ => Nat.le_trans (by decide) hin.1,
      Or.inr (Or.inr (Or.inr hin))⟩

theorem inside {w : StartWord} (hw : w.Counts) : w.offset.toNat + 4 ≤ kThreadSize := by
  have hplace := w.place hw
  unfold kThreadSize
  omega

end StartWord

/-- The stores of the context, by their offsets. -/
def contextFields (entryFunc stackPointer r2 r13 : Word) : List GuestStore :=
  contextStores 0#32 entryFunc stackPointer r2 r13

/-- The quantization registers of a video decoder, by their offsets. -/
def thpFields (entryFunc : Word) : List GuestStore := thpStores 0#32 entryFunc

theorem under_clearWords (t base : Word) (words : List Nat) :
    (clearWords base words).map (GuestStore.under t) = clearWords (t + base) words := by
  simp [clearWords, Function.comp_def, GuestStore.under, BitVec.add_assoc]

theorem contextStores_eq (t entryFunc stackPointer r2 r13 : Word) :
    contextStores t entryFunc stackPointer r2 r13 =
      (contextFields entryFunc stackPointer r2 r13).map (GuestStore.under t) := by
  simp [contextStores, contextFields, under_clearWords, GuestStore.under]

theorem thpStores_eq (t entryFunc : Word) :
    thpStores t entryFunc = (thpFields entryFunc).map (GuestStore.under t) := by
  unfold thpFields thpStores
  split <;> simp [GuestStore.under]

/-- Where a field ends before the other starts. -/
def FieldsApart (fields : List GuestStore) : Prop :=
  fields.Pairwise fun e e' => e'.range.1.toNat + e'.range.2 ≤ e.range.1.toNat ∨
    e.range.1.toNat + e.range.2 ≤ e'.range.1.toNat

/-- Whether fields are apart is a matter of their ranges. -/
theorem fieldsApart_of_ranges {fields fields' : List GuestStore}
    (h : fields.map GuestStore.range = fields'.map GuestStore.range)
    (h' : (fields'.map GuestStore.range).Pairwise fun r r' =>
      r'.1.toNat + r'.2 ≤ r.1.toNat ∨ r.1.toNat + r.2 ≤ r'.1.toNat) : FieldsApart fields := by
  rw [← h] at h'
  exact List.pairwise_map.mp h'

theorem contextFields_apart (entryFunc stackPointer r2 r13 : Word) :
    FieldsApart (contextFields entryFunc stackPointer r2 r13) := by
  have hranges : (contextFields entryFunc stackPointer r2 r13).map GuestStore.range =
      (contextFields 0#32 0#32 0#32 0#32).map GuestStore.range := rfl
  apply fieldsApart_of_ranges hranges
  decide +kernel

theorem thpFields_apart (entryFunc : Word) : FieldsApart (thpFields entryFunc) := by
  unfold thpFields thpStores
  split
  · apply fieldsApart_of_ranges rfl
    decide
  · exact List.Pairwise.nil

section

variable {config : List RegionConfig} {a : Arguments} {fields : List GuestStore}

/-- Fields of a mapped block that are apart. -/
theorem under_apart (hc : Admissible config) (hblock : (threadRange a.threadPtr).Mapped config)
    (hin : ∀ e ∈ fields, e.range.1.toNat + e.range.2 ≤ kThreadSize)
    (hapart : FieldsApart fields) : (fields.map (GuestStore.under a.threadPtr)).Pairwise
      fun e e' => e'.range.Off config e.range := by
  rw [List.pairwise_map]
  refine (List.Pairwise.and_mem.mp hapart).imp ?_
  rintro e e' ⟨he, he', hdis⟩
  rw [GuestStore.range_under, GuestStore.range_under]
  exact parts_off hc hblock e'.range_pos e.range_pos (hin e' he') (hin e he) hdis

/-- A field that ends before a word of the block starts, or starts behind it. -/
theorem under_off {e : GuestStore} {off : Word} (hc : Admissible config)
    (hblock : (threadRange a.threadPtr).Mapped config)
    (hin : e.range.1.toNat + e.range.2 ≤ kThreadSize) (hoff : off.toNat + 4 ≤ kThreadSize)
    (hapart : e.range.1.toNat + e.range.2 ≤ off.toNat ∨ off.toNat + 4 ≤ e.range.1.toNat) :
    (e.under a.threadPtr).range.Off config (a.threadPtr + off, 4) := by
  rw [GuestStore.range_under]
  exact parts_off hc hblock e.range_pos (by decide) hin hoff hapart

theorem under_mapped (hc : Admissible config) (hblock : (threadRange a.threadPtr).Mapped config)
    (hin : ∀ e ∈ fields, e.range.1.toNat + e.range.2 ≤ kThreadSize) :
    ∀ e ∈ fields.map (GuestStore.under a.threadPtr),
      e.range.Inside (threadRange a.threadPtr) := by
  intro e he
  obtain ⟨field, hfield, rfl⟩ := List.mem_map.mp he
  rw [GuestStore.range_under]
  exact part_inside hc hblock field.range_pos (hin field hfield)

end

/-- The fields lie in the block. -/
theorem contextFields_in (entryFunc stackPointer r2 r13 : Word) :
    ∀ e ∈ contextFields entryFunc stackPointer r2 r13,
      e.range.1.toNat + e.range.2 ≤ kThreadSize := by
  have hranges : ∀ r ∈ (contextFields 0#32 0#32 0#32 0#32).map GuestStore.range,
      r.1.toNat + r.2 ≤ kThreadSize := by decide +kernel
  intro e he
  have hmem : e.range ∈ (contextFields entryFunc stackPointer r2 r13).map GuestStore.range :=
    List.mem_map_of_mem he
  exact hranges _ hmem

theorem thpFields_in (entryFunc : Word) : ∀ e ∈ thpFields entryFunc,
    0x1AC ≤ e.range.1.toNat ∧ e.range.1.toNat + e.range.2 ≤ 0x1BC := by
  unfold thpFields thpStores
  split
  · simp only [List.forall_mem_cons, List.not_mem_nil, false_implies, implies_true, and_true]
    decide
  · simp

/-- The zeros of the general and of the quantization registers. -/
theorem clearWords_contextFields (entryFunc stackPointer r2 r13 : Word) :
    (∀ i : Fin 32, i ∉ ([0, 1, 2, 3, 13] : List (Fin 32)) →
      .word (BitVec.ofNat 32 (4 * i)) 0#32 ∈ contextFields entryFunc stackPointer r2 r13) ∧
    ∀ i : Fin 8, .word (kContextGqrOffset + BitVec.ofNat 32 (4 * i)) 0#32 ∈
      contextFields entryFunc stackPointer r2 r13 := by
  have hgpr : ∀ i : Fin 32, i ∉ ([0, 1, 2, 3, 13] : List (Fin 32)) →
      GuestStore.word (BitVec.ofNat 32 (4 * i)) 0#32 ∈
        clearWords 0#32 (List.range' 3 10) ++ clearWords 0#32 (List.range' 14 18) := by
          decide +kernel
  have hgqr : ∀ i : Fin 8, GuestStore.word (kContextGqrOffset + BitVec.ofNat 32 (4 * i)) 0#32 ∈
      clearWords (0#32 + kContextGqrOffset) (List.range 8) := by decide +kernel
  unfold contextFields contextStores
  constructor
  · intro i hi
    have hmem := hgpr i hi
    simp only [List.mem_append] at hmem ⊢
    tauto
  · intro i
    have hmem := hgqr i
    simp only [List.mem_append]
    tauto

/-- One of the two entries of the video decoder. -/
def kThpEntry : Word := 0x805529A8#32

/-- The quantization registers of the video decoder are its fields, but for zeros beside them. -/
theorem thpFields_gqr : ∀ i : Fin 8,
    .word (kContextGqrOffset + BitVec.ofNat 32 (4 * i)) (startGqr kThpEntry i) ∈
      thpFields kThpEntry ∨
    startGqr kThpEntry i = 0#32 ∧ ∀ e ∈ thpFields kThpEntry,
      e.range.1.toNat + e.range.2 ≤ (kContextGqrOffset + BitVec.ofNat 32 (4 * i)).toNat ∨
        (kContextGqrOffset + BitVec.ofNat 32 (4 * i)).toNat + 4 ≤ e.range.1.toNat := by
  decide +kernel

/-- Each word is the argument, a field of the video decoder, or a field of the context that
the video decoder does not touch. -/
theorem StartWord.stored (a : Arguments) {w : StartWord} (hw : w.Counts) (r2 r13 : Word) :
    w = .arg ∨ .word w.offset (w.value a) ∈ thpFields a.entryFunc ∨
      .word w.offset (w.value a) ∈
        contextFields a.entryFunc (a.alignedStack - 8#32) r2 r13 ∧
      ∀ e ∈ thpFields a.entryFunc, e.range.1.toNat + e.range.2 ≤ w.offset.toNat ∨
        w.offset.toNat + 4 ≤ e.range.1.toNat := by
  obtain ⟨hgpr, hgqr⟩ :=
    clearWords_contextFields a.entryFunc (a.alignedStack - 8#32) r2 r13
  have hbelow : w.offset.toNat + 4 ≤ 0x1AC → ∀ e ∈ thpFields a.entryFunc,
      e.range.1.toNat + e.range.2 ≤ w.offset.toNat ∨
      w.offset.toNat + 4 ≤ e.range.1.toNat := by
    intro hlow e he
    have hplace := thpFields_in _ e he
    omega
  cases w with
  | arg => exact Or.inl rfl
  | entry =>
    refine Or.inr (Or.inr ⟨?_, hbelow (by decide)⟩)
    simp [contextFields, contextStores, StartWord.offset, StartWord.value]
  | cr =>
    refine Or.inr (Or.inr ⟨?_, hbelow (by decide)⟩)
    simp [contextFields, contextStores, StartWord.offset, StartWord.value]
  | xer =>
    refine Or.inr (Or.inr ⟨?_, hbelow (by decide)⟩)
    simp [contextFields, contextStores, StartWord.offset, StartWord.value]
  | gpr i =>
    refine Or.inr (Or.inr ⟨hgpr i hw, hbelow ?_⟩)
    simp only [StartWord.offset, BitVec.toNat_ofNat]
    omega
  | gqr i =>
    cases hthp : isThpVideoDecoderEntry a.entryFunc with
    | false =>
      refine Or.inr (Or.inr ⟨?_, ?_⟩)
      · simp only [StartWord.value, startGqr, hthp, Bool.false_eq_true, if_false]
        exact hgqr i
      · simp [thpFields, thpStores, hthp]
    | true =>
      have hfields : thpFields a.entryFunc = thpFields kThpEntry := by
        simp only [thpFields, thpStores, hthp, if_true]
        rfl
      have hvalues : startGqr a.entryFunc = startGqr kThpEntry := by
        simp only [startGqr, hthp, if_true]
        rfl
      simp only [StartWord.value, StartWord.offset, hfields, hvalues]
      rcases thpFields_gqr i with hmem | ⟨hzero, hoff⟩
      · exact Or.inr (Or.inl hmem)
      · exact Or.inr (Or.inr ⟨hzero ▸ hgqr i, hoff⟩)

/-! ## The initialized block -/

/-- The words that say which context is current, and which thread is the last on the list. -/
def pointerWords : List Word := [kOSCurrentContextAddr, kThreadListTailAddr]

/-- The pointers as they read in the memory. -/
def pointersOf (m : Memory) : List (Word × Option Word) :=
    pointerWords.map fun p => (p, m.read32 p)

/-- The link of the last thread on the list. -/
def linkRange (m : Memory) : Set MemRange :=
  {r | ∃ tail, m.read32 kThreadListTailAddr = some tail ∧ tail ≠ 0#32 ∧
    r = (tail + kThreadListNextOffset, 4)}

/-- What OSCreateThread stores behind the context of the thread, apart from its block and its
stack: the words of the system, the link of the last thread, and the mirror of the flag. -/
def lateRanges (config : List RegionConfig) (m : Memory) : Set MemRange :=
  {r | r ∈ ([(kCurrentFpuContextAddr, 4), (kThreadListHeadAddr, 4), (kThreadListTailAddr, 4)] :
      List MemRange) ∨ r ∈ linkRange m ∨ r ∈ mirrorRange config m}

/-- The range of the guard at the end of the stack. -/
def CreateThread.Arguments.guardRange (a : Arguments) : MemRange := (a.stackTop - a.stackSize, 4)

/-- The range of a word in the context of the new thread. -/
def StartWord.range (w : StartWord) (t : Word) : MemRange := (t + w.offset, 4)

/-- The call does not store over the two pointers before it reads them. -/
def PointersClear (config : List RegionConfig) (m : Memory) (a : Arguments) : Prop :=
  ∀ p ∈ pointerWords, (threadRange a.threadPtr).Off config (p, 4) ∧
    (∀ r ∈ a.stackWords, r.Off config (p, 4)) ∧
    ∀ r, r ∈ linkRange m ∨ r ∈ mirrorRange config m → r.Off config (p, 4)

/-- Of what the call stores behind the context, the guard alone may lie over the words. -/
structure StoresApart (config : List RegionConfig) (m : Memory) (a : Arguments) : Prop where
  pointers : PointersClear config m a
  late : ∀ w : StartWord, w.Counts → ∀ r ∈ lateRanges config m,
    r.Off config (w.range a.threadPtr)

/-- The word with the guard over it: the bytes that the two share are those of the guard. -/
def guarded (config : List RegionConfig) (a : Arguments) (w : StartWord) : Word :=
  ofBE 32 4 fun j => (Store.mk .w32 (a.stackTop - a.stackSize) kStackGuard).apply config
    ((a.threadPtr + w.offset).toNat + j) (byteLE (w.value a) (3 - j))

section

variable {config : List RegionConfig} {K : List (Word × Option Word)} {a : Arguments}
  {m : Memory} {w : StartWord}

/-- The stores behind the guard. -/
def specificStores (threadPtr : Word) : List GuestStore :=
  [.word (threadPtr + kThreadSpecific0Offset) 0#32,
    .word (threadPtr + kThreadSpecific1Offset) 0#32,
    .word (threadPtr + kThreadSpecific2Offset) 0#32]

/-- The two bounds of the stack. -/
def boundStores (a : Arguments) : List GuestStore :=
  [.word (a.threadPtr + kThreadStackTopOffset) a.stackTop,
    .word (a.threadPtr + kThreadStackBottomOffset) (a.stackTop - a.stackSize)]

/-- A part of the block apart from the word. -/
theorem block_off (hacc : Accepts config a) (hc : Admissible config) (hw : w.Counts) {off : Word}
    {n : Nat} (hn : 0 < n) (hin : off.toNat + n ≤ kThreadSize)
    (hapart : off.toNat + n ≤ w.offset.toNat ∨ w.offset.toNat + 4 ≤ off.toNat) :
    MemRange.Off config (a.threadPtr + off, n) (w.range a.threadPtr) :=
  parts_off hc hacc.block hn (by decide) hin (w.inside hw) hapart

/-- The bounds of the stack and the words behind the guard lie behind the context. -/
theorem behind_off (hacc : Accepts config a) (hc : Admissible config) (hw : w.Counts) :
    ∀ e ∈ boundStores a ++ specificStores a.threadPtr,
      e.range.Off config (w.range a.threadPtr) := by
  have hplace := w.place hw
  have hoff : ∀ off : Word, 0x304 ≤ off.toNat → off.toNat + 4 ≤ kThreadSize →
      MemRange.Off config (a.threadPtr + off, 4) (w.range a.threadPtr) :=
    fun off hlow hin => block_off hacc hc hw (by decide) hin (Or.inr (by omega))
  simp only [boundStores, specificStores, List.cons_append, List.nil_append, List.forall_mem_cons,
    List.not_mem_nil, false_implies, implies_true, and_true]
  exact ⟨hoff _ (by decide) (by decide), hoff _ (by decide) (by decide),
    hoff _ (by decide) (by decide), hoff _ (by decide) (by decide),
    hoff _ (by decide) (by decide)⟩

/-- The floating-point context is apart from the word. -/
theorem fpRanges_off (hacc : Accepts config a) (hc : Admissible config) (hw : w.Counts) :
    ∀ r ∈ fpRanges a.threadPtr, r.Off config (w.range a.threadPtr) := by
  rintro ⟨start, n⟩ ⟨off, hstart, hpos, hpart⟩
  simp only at hstart hpos hpart
  subst hstart
  have hplace := w.place hw
  unfold FpPart at hpart
  have hin : off.toNat + n ≤ kThreadSize := by
    unfold kThreadSize
    omega
  exact block_off hacc hc hw hpos hin (by omega)

/-- All stores of the block, and the guard, are apart from a word that the block and the guard
are apart from. -/
theorem stackStores_off (hacc : Accepts config a) (hc : Admissible config) {r : MemRange}
    (hblock : (threadRange a.threadPtr).Off config r) (hguard : a.guardRange.Off config r) :
    ∀ e ∈ stackStores a.threadPtr a.entryArg a.stackTop a.stackSize, e.range.Off config r := by
  have hoff : ∀ off : Word, off.toNat + 4 ≤ kThreadSize →
      MemRange.Off config (a.threadPtr + off, 4) r :=
    fun off hin => (part_inside hc hacc.block (by decide) hin).off hblock
  unfold stackStores
  simp only [List.forall_mem_cons, List.not_mem_nil, false_implies, implies_true, and_true]
  exact ⟨hoff _ (by decide), hoff _ (by decide), hoff _ (by decide), hoff _ (by decide), hguard,
    hoff _ (by decide), hoff _ (by decide), hoff _ (by decide)⟩

/-- The word of the context reads so, and the pointers as they did. -/
def WordStands (config : List RegionConfig) (m : Memory) (t : Word) (w : StartWord) (x : Word) :
    Machine Memory → Prop :=
  Standing config ((t + w.offset, some x) :: pointersOf m)

/-- The pointers read as they did. -/
def PointersStand (config : List RegionConfig) (m : Memory) : Machine Memory → Prop :=
  Standing config (pointersOf m)

theorem forall_pointersOf {P : Word → Prop} (h : ∀ p ∈ pointerWords, P p) :
    ∀ p ∈ pointersOf m, P p.1 := by
  intro p hp
  obtain ⟨q, hq, rfl⟩ := List.mem_map.mp hp
  exact h q hq

section Keeps

variable {α : Type} {R : Set MemRange} {y : OS α} {x : Word}

theorem StoresIn.keepsPointers (hy : StoresIn config R y)
    (hp : ∀ p ∈ pointerWords, ∀ r ∈ R, r.Off config (p, 4)) :
    Leads (PointersStand config m) y fun _ => PointersStand config m :=
  hy.standing (forall_pointersOf hp)

theorem StoresIn.keepsWord {t : Word} (hy : StoresIn config R y)
    (hp : ∀ p ∈ pointerWords, ∀ r ∈ R, r.Off config (p, 4))
    (hw : ∀ r ∈ R, r.Off config (w.range t)) :
    Leads (WordStands config m t w x) y fun _ => WordStands config m t w x := by
  apply hy.standing
  intro p hp'
  rcases List.mem_cons.mp hp' with rfl | hp'
  · exact hw
  · exact forall_pointersOf hp p hp'

end Keeps

/-- The ranges of a list of stores. -/
def rangesOf (stores : List GuestStore) : Set MemRange := {r | ∃ e ∈ stores, e.range = r}

theorem storesIn_rangesOf {stores : List GuestStore} (h : ∀ e ∈ stores, e.range.Mapped config) :
    StoresIn config (rangesOf stores) (storeAll stores) :=
  storesIn_storeAll fun e he => ⟨h e he, e, he, rfl⟩

theorem rangesOf_off {stores : List GuestStore} {r : MemRange}
    (h : ∀ e ∈ stores, e.range.Off config r) : ∀ q ∈ rangesOf stores, q.Off config r := by
  rintro q ⟨e, he, rfl⟩
  exact h e he

/-- The stores at fields of the block are apart from the pointers. -/
theorem fields_off_pointers (hacc : Accepts config a) (hc : Admissible config)
    (hclear : PointersClear config m a) {fields : List GuestStore}
    (hin : ∀ e ∈ fields, e.range.1.toNat + e.range.2 ≤ kThreadSize) :
    ∀ p ∈ pointerWords, ∀ e ∈ fields.map (GuestStore.under a.threadPtr),
      e.range.Off config (p, 4) :=
  fun p hp e he => (under_mapped hc hacc.block hin e he).off (hclear p hp).1

/-- The stores of the fields and of the first words of the stack. -/
theorem threadStores_keep (hacc : Accepts config a) (hc : Admissible config)
    (hclear : PointersClear config m a) :
    Leads (PointersStand config m)
      (storeAll (threadStores a.threadPtr a.attributes a.priority a.alignedStack))
      fun _ => PointersStand config m := by
  have htop := topStores_inside hacc hc
  have hfields := fun e he => field_inside (e := e) hacc hc he
  rw [threadStores_eq]
  have hmapped : ∀ e ∈ (threadFields a.attributes a.priority).map
      (GuestStore.under a.threadPtr) ++ topStores a, e.range.Mapped config := by
    intro e he
    rcases List.mem_append.mp he with he | he
    · obtain ⟨field, hfield, rfl⟩ := List.mem_map.mp he
      exact (hfields field hfield).mapped hacc.block
    · exact (htop e he).mapped hacc.top
  apply (storesIn_rangesOf hmapped).keepsPointers
  intro p hp
  apply rangesOf_off
  intro e he
  rcases List.mem_append.mp he with he | he
  · obtain ⟨field, hfield, rfl⟩ := List.mem_map.mp he
    exact (hfields field hfield).off (hclear p hp).1
  · exact (htop e he).off ((hclear p hp).2.1 _ List.mem_cons_self)

theorem thpFields_block (entryFunc : Word) :
    ∀ e ∈ thpFields entryFunc, e.range.1.toNat + e.range.2 ≤ kThreadSize :=
  fun e he => (thpFields_in _ e he).2.trans (by decide)

theorem thpStores_mapped (hacc : Accepts config a) (hc : Admissible config) :
    ∀ e ∈ thpStores a.threadPtr a.entryFunc, e.range.Mapped config := by
  rw [thpStores_eq]
  exact fun e he => (under_mapped hc hacc.block (thpFields_block _) e he).mapped hacc.block

theorem stackStores_mapped (hacc : Accepts config a) (hc : Admissible config) :
    ∀ e ∈ stackStores a.threadPtr a.entryArg a.stackTop a.stackSize, e.range.Mapped config := by
  have hin : ∀ off : Word, off.toNat + 4 ≤ kThreadSize →
      MemRange.Mapped config (a.threadPtr + off, 4) :=
    fun off hoff => (part_inside hc hacc.block (by decide) hoff).mapped hacc.block
  unfold stackStores
  simp only [List.forall_mem_cons, List.not_mem_nil, false_implies, implies_true, and_true]
  exact ⟨hin _ (by decide), hin _ (by decide), hin _ (by decide), hin _ (by decide), hacc.bottom,
    hin _ (by decide), hin _ (by decide), hin _ (by decide)⟩

/-- The pointer words lie behind each other. -/
theorem pointers_off_fpu : ∀ p ∈ pointerWords,
    MemRange.Off config (kCurrentFpuContextAddr, 4) (p, 4) := by
  simp only [pointerWords, List.forall_mem_cons, List.not_mem_nil, false_implies, implies_true,
    and_true]
  exact ⟨apart_of_mod _ (by decide) (by decide) (by decide),
    apart_of_mod _ (by decide) (by decide) (by decide)⟩

theorem dropFpuContext_keepsPointers (t : Word) :
    Leads (PointersStand config m) (dropFpuContext t) fun _ => PointersStand config m :=
  (storesIn_dropFpuContext t).keepsPointers fun p hp _ hr => hr ▸ pointers_off_fpu p hp

theorem dropFpuContext_keepsWord (hstores : StoresApart config m a) (hw : w.Counts) (t x : Word) :
    Leads (WordStands config m a.threadPtr w x) (dropFpuContext t)
      fun _ => WordStands config m a.threadPtr w x :=
  (storesIn_dropFpuContext t).keepsWord (fun p hp _ hr => hr ▸ pointers_off_fpu p hp)
    fun _ hr => hr ▸ hstores.late w hw _ (Or.inl List.mem_cons_self)

/-- The stores of the context and of the video decoder leave the pointers. -/
theorem fields_keepPointers (hacc : Accepts config a) (hc : Admissible config)
    (hclear : PointersClear config m a) {fields : List GuestStore}
    (hin : ∀ e ∈ fields, e.range.1.toNat + e.range.2 ≤ kThreadSize) :
    Leads (PointersStand config m) (storeAll (fields.map (GuestStore.under a.threadPtr)))
      fun _ => PointersStand config m :=
  (storesIn_rangesOf fun e he =>
    (under_mapped hc hacc.block hin e he).mapped hacc.block).keepsPointers
    fun p hp => rangesOf_off (fields_off_pointers hacc hc hclear hin p hp)

/-- And each of them shows. -/
theorem fields_show (hacc : Accepts config a) (hc : Admissible config)
    (hclear : PointersClear config m a) {fields : List GuestStore} {x : Word}
    (hin : ∀ e ∈ fields, e.range.1.toNat + e.range.2 ≤ kThreadSize)
    (hapart : FieldsApart fields) (hmem : .word w.offset x ∈ fields) :
    Leads (PointersStand config m) (storeAll (fields.map (GuestStore.under a.threadPtr)))
      fun _ => WordStands config m a.threadPtr w x := by
  apply storeAll_each
  · exact List.mem_map_of_mem (f := GuestStore.under a.threadPtr) hmem
  · exact fun e he => (under_mapped hc hacc.block hin e he).mapped hacc.block
  · exact forall_pointersOf (fields_off_pointers hacc hc hclear hin)
  · exact under_apart hc hacc.block hin hapart

/-- The fields of a video decoder leave the other words. -/
theorem thpStores_keepsWord (hacc : Accepts config a) (hc : Admissible config)
    (hclear : PointersClear config m a) (hw : w.Counts) {x : Word}
    (hoff : ∀ e ∈ thpFields a.entryFunc, e.range.1.toNat + e.range.2 ≤ w.offset.toNat ∨
      w.offset.toNat + 4 ≤ e.range.1.toNat) :
    Leads (WordStands config m a.threadPtr w x) (storeAll (thpStores a.threadPtr a.entryFunc))
      fun _ => WordStands config m a.threadPtr w x := by
  apply (storesIn_rangesOf (thpStores_mapped hacc hc)).keepsWord
  · rw [thpStores_eq]
    exact fun p hp => rangesOf_off (fields_off_pointers hacc hc hclear (thpFields_block _) p hp)
  · rw [thpStores_eq]
    apply rangesOf_off
    intro e he
    obtain ⟨field, hfield, rfl⟩ := List.mem_map.mp he
    exact under_off hc hacc.block (thpFields_block _ field hfield) (w.inside hw) (hoff field hfield)

theorem stackStores_off_pointers (hacc : Accepts config a) (hc : Admissible config)
    (hclear : PointersClear config m a) : ∀ p ∈ pointerWords,
      ∀ e ∈ stackStores a.threadPtr a.entryArg a.stackTop a.stackSize,
        e.range.Off config (p, 4) := fun p hp =>
  stackStores_off hacc hc (hclear p hp).1
    ((hclear p hp).2.1 _ (List.mem_cons_of_mem _ List.mem_cons_self))

/-- The end of the context up to the guard. -/
def untilGuard (a : Arguments) : List GuestStore :=
  [.word (a.threadPtr + kContextLrOffset) kThreadExitTrampoline] ++
    .word (a.threadPtr + kContextR3Offset) a.entryArg :: boundStores a

theorem stackStores_split (a : Arguments) :
    stackStores a.threadPtr a.entryArg a.stackTop a.stackSize = untilGuard a ++
      .word (a.stackTop - a.stackSize) kStackGuard :: specificStores a.threadPtr := rfl

theorem untilGuard_mem {e : GuestStore} (he : e ∈ untilGuard a) :
    e ∈ stackStores a.threadPtr a.entryArg a.stackTop a.stackSize := by
  rw [stackStores_split]
  exact List.mem_append_left _ he

theorem specificStores_mem {e : GuestStore} (he : e ∈ specificStores a.threadPtr) :
    e ∈ stackStores a.threadPtr a.entryArg a.stackTop a.stackSize := by
  rw [stackStores_split]
  exact List.mem_append_right _ (List.mem_cons_of_mem _ he)

/-- The end of the context leaves the words but the argument. -/
theorem untilGuard_keepsWord (hacc : Accepts config a) (hc : Admissible config)
    (hclear : PointersClear config m a) (hw : w.Counts) (harg : w ≠ .arg) {x : Word} :
    Leads (WordStands config m a.threadPtr w x) (storeAll (untilGuard a))
      fun _ => WordStands config m a.threadPtr w x := by
  obtain ⟨hlow, hother, hplace⟩ := w.place hw
  have hlr : kContextLrOffset.toNat = 0x84 := by decide
  have hr3 : kContextR3Offset.toNat = 0x0C := by decide
  have hnot := hother harg
  apply (storesIn_rangesOf fun e he => stackStores_mapped hacc hc e (untilGuard_mem he)).keepsWord
  · exact fun p hp => rangesOf_off fun e he =>
      stackStores_off_pointers hacc hc hclear p hp e (untilGuard_mem he)
  apply rangesOf_off
  intro e he
  rcases List.mem_cons.mp he with rfl | he
  · exact block_off hacc hc hw (by decide) (by decide) (by omega)
  rcases List.mem_cons.mp he with rfl | he
  · exact block_off hacc hc hw (by decide) (by decide) (by omega)
  · exact behind_off hacc hc hw e (List.mem_append_left _ he)

/-- The argument of the entry comes with the end of the context. -/
theorem untilGuard_arg (hacc : Accepts config a) (hc : Admissible config)
    (hclear : PointersClear config m a) :
    Leads (PointersStand config m) (storeAll (untilGuard a))
      fun _ => WordStands config m a.threadPtr .arg a.entryArg := by
  have hbehind : ∀ e ∈ boundStores a,
      e.range.Off config (a.threadPtr + kContextR3Offset, 4) := fun e he =>
    behind_off (w := .arg) hacc hc trivial e (List.mem_append_left _ he)
  change Leads (Standing config (pointersOf m)) _
    fun _ => Standing config ((a.threadPtr + kContextR3Offset, some a.entryArg) :: pointersOf m)
  unfold untilGuard
  apply storeAll_last
  · exact fun e he => stackStores_mapped hacc hc e (untilGuard_mem he)
  · exact forall_pointersOf fun p hp e he =>
      stackStores_off_pointers hacc hc hclear p hp e (untilGuard_mem he)
  · exact hbehind

/-- The store of the guard, and what it makes of a word. -/
theorem guard_stands (hacc : Accepts config a) (hclear : PointersClear config m a) :
    Leads (WordStands config m a.threadPtr w (w.value a))
      (store (.word (a.stackTop - a.stackSize) kStackGuard))
      fun _ => WordStands config m a.threadPtr w (guarded config a w) := by
  intro s h
  obtain ⟨m', hwrite⟩ := h.1.write32_some hacc.bottom kStackGuard
  have hpointers : PointersStand config m s :=
    ⟨h.1, fun p hp => h.2 p (List.mem_cons_of_mem _ hp)⟩
  have hstands := store_standing (x := kStackGuard) hacc.bottom
    (forall_pointersOf fun p hp => (hclear p hp).2.1 _ (List.mem_cons_of_mem _ List.mem_cons_self))
    s hpointers
  have hstore : store (.word (a.stackTop - a.stackSize) kStackGuard) s = .ret () (s.withMem m') :=
    write32_ret hwrite
  rw [hstore] at hstands ⊢
  have hold : s.mem.read .w32 (a.threadPtr + w.offset) = some (w.value a) :=
    h.word List.mem_cons_self
  refine ⟨hstands.1, List.forall_mem_cons.mpr ⟨?_, fun p hp => ?_⟩⟩
  · exact h.1.read_overlaid (k := .w32) hold hwrite
  · exact hstands.2 p (List.mem_cons_of_mem _ hp)

/-- The floating-point context leaves the words. -/
theorem initializeFpContext_keepsWord (hacc : Accepts config a) (hc : Admissible config)
    (hclear : PointersClear config m a) (hw : w.Counts) {x : Word} :
    Leads (WordStands config m a.threadPtr w x) (initializeFpContext a.threadPtr)
      fun _ => WordStands config m a.threadPtr w x := by
  apply (hacc.storesIn_initializeFpContext hc).keepsWord
  · rintro p hp ⟨start, n⟩ ⟨off, hstart, hpos, hpart⟩
    simp only at hstart hpos hpart
    subst hstart
    have hin : off.toNat + n ≤ kThreadSize := by
      unfold FpPart at hpart
      unfold kThreadSize
      omega
    exact (part_inside hc hacc.block hpos hin).off (hclear p hp).1
  · exact fpRanges_off hacc hc hw

/-- Whatever the guard has made of the word stays there. -/
theorem specificStores_keepsWord (hacc : Accepts config a) (hc : Admissible config)
    (hclear : PointersClear config m a) (hw : w.Counts) {x : Word} :
    Leads (WordStands config m a.threadPtr w x) (storeAll (specificStores a.threadPtr))
      fun _ => WordStands config m a.threadPtr w x := by
  apply (storesIn_rangesOf fun e he =>
    stackStores_mapped hacc hc e (specificStores_mem he)).keepsWord
  · exact fun p hp => rangesOf_off fun e he =>
      stackStores_off_pointers hacc hc hclear p hp e (specificStores_mem he)
  · exact rangesOf_off fun e he =>
      behind_off hacc hc hw e (List.mem_append_right (boundStores a) he)

/-- The end of the context and the floating-point context: a word gets the guard over it. -/
theorem stackStores_guarded {P : Machine Memory → Prop} (hacc : Accepts config a)
    (hc : Admissible config) (hclear : PointersClear config m a) (hw : w.Counts)
    (huntil : Leads P (storeAll (untilGuard a))
      fun _ => WordStands config m a.threadPtr w (w.value a)) :
    Leads P (storeAll (stackStores a.threadPtr a.entryArg a.stackTop a.stackSize))
      fun _ => WordStands config m a.threadPtr w (guarded config a w) := by
  rw [stackStores_split, storeAll_append]
  apply leads_bind huntil
  intro _
  apply leads_bind (guard_stands hacc hclear)
  exact fun _ => specificStores_keepsWord hacc hc hclear hw

/-- The initialized block holds the word, with the guard over it. -/
theorem initializeBlock_shows (hacc : Accepts config a) (hc : Admissible config)
    (hstores : StoresApart config m a) (hw : w.Counts) (cpu : CpuPtr) :
    Leads (PointersStand config m) (initializeBlock cpu a)
      fun _ => WordStands config m a.threadPtr w (guarded config a w) := by
  have hclear := hstores.pointers
  unfold initializeBlock
  apply leads_bind (threadStores_keep hacc hc hclear)
  intro _
  apply leads_bind (R := fun _ => PointersStand config m) (leads_gets fun _ h => h)
  intro r2
  apply leads_bind (R := fun _ => PointersStand config m) (leads_gets fun _ h => h)
  intro r13
  rw [contextStores_eq]
  have hend : Leads (WordStands config m a.threadPtr w (guarded config a w))
      (initializeFpContext a.threadPtr)
      fun _ => WordStands config m a.threadPtr w (guarded config a w) :=
    initializeFpContext_keepsWord hacc hc hclear hw
  have hcontext := fields_keepPointers hacc hc hclear
    (contextFields_in a.entryFunc (a.alignedStack - 8#32) r2 r13)
  by_cases harg : w = .arg
  · subst harg
    apply leads_bind hcontext
    intro _
    apply leads_bind (dropFpuContext_keepsPointers _)
    intro _
    rw [thpStores_eq]
    apply leads_bind (fields_keepPointers hacc hc hclear (thpFields_block _))
    intro _
    have harg := untilGuard_arg hacc hc hclear
    exact leads_bind (stackStores_guarded hacc hc hclear hw harg) fun _ => hend
  have hstack := stackStores_guarded hacc hc hclear hw
    (untilGuard_keepsWord hacc hc hclear hw harg)
  rcases StartWord.stored a hw r2 r13 with heq | hthp | ⟨hfield, hoff⟩
  · exact absurd heq harg
  · apply leads_bind hcontext
    intro _
    apply leads_bind (dropFpuContext_keepsPointers _)
    intro _
    rw [thpStores_eq]
    apply leads_bind (fields_show hacc hc hclear (thpFields_block _) (thpFields_apart _) hthp)
    intro _
    exact leads_bind hstack fun _ => hend
  · apply leads_bind (fields_show hacc hc hclear (contextFields_in _ _ _ _)
      (contextFields_apart _ _ _ _) hfield)
    intro _
    apply leads_bind (dropFpuContext_keepsWord hstores hw _ _)
    intro _
    apply leads_bind (thpStores_keepsWord hacc hc hclear hw hoff)
    intro _
    exact leads_bind hstack fun _ => hend

/-! ### Behind the block -/

/-- The mirror of the interrupt flag leaves words apart from it. -/
theorem exchangeInterrupts_standing
    (hcur : (kOSCurrentContextAddr, m.read32 kOSCurrentContextAddr) ∈ K)
    (hoff : ∀ p ∈ K, ∀ r ∈ mirrorRange config m, r.Off config (p.1, 4)) (cpu : CpuPtr)
    (enabled : Bool) :
    Leads (Standing config K) (exchangeInterrupts cpu enabled) fun _ => Standing config K := by
  intro s h
  obtain ⟨m', hrun, hm⟩ := exchangeInterrupts_stores h.1 cpu enabled
  have hcur' : s.mem.read32 kOSCurrentContextAddr = m.read32 kOSCurrentContextAddr := h.word hcur
  rw [mirrorRange_congr hcur', ← exchanged_mem s cpu enabled m'] at hm
  rw [hrun]
  exact h.of_leaves hm hoff

/-- The word, and the pointer to the current context. -/
def endWords (m : Memory) (t : Word) (w : StartWord) (x : Word) : List (Word × Option Word) :=
  [(t + w.offset, some x), (kOSCurrentContextAddr, m.read32 kOSCurrentContextAddr)]

theorem WordStands.ends {t x : Word} {s : Machine Memory} (h : WordStands config m t w x s) :
    Standing config (endWords m t w x) s := by
  refine ⟨h.1, fun p hp => h.2 p ?_⟩
  simp only [endWords, List.mem_cons, List.not_mem_nil, or_false] at hp
  rcases hp with rfl | rfl
  · exact List.mem_cons_self
  · exact List.mem_cons_of_mem _ List.mem_cons_self

theorem endWords_off {r : MemRange} {t x : Word} (hword : r.Off config (w.range t))
    (hcur : r.Off config (kOSCurrentContextAddr, 4)) :
    ∀ p ∈ endWords m t w x, r.Off config (p.1, 4) := by
  intro p hp
  rcases List.mem_cons.mp hp with rfl | hp
  · exact hword
  · rw [List.mem_singleton.mp hp]
    exact hcur

/-- The list of all threads gets the new thread apart from its context. -/
theorem linkActiveThread_ends (hacc : Accepts config a) (hc : Admissible config)
    (hclear : PointersClear config m a) (hw : w.Counts)
    (hlate : ∀ r ∈ lateRanges config m, r.Off config (w.range a.threadPtr)) (x : Word) :
    Leads (WordStands config m a.threadPtr w x) (linkActiveThread a.threadPtr)
      fun _ => Standing config (endWords m a.threadPtr w x) := by
  have hplace := w.place hw
  have hcur : kOSCurrentContextAddr ∈ pointerWords := List.mem_cons_self
  have hstore : ∀ (off y : Word), 0x2C8 ≤ off.toNat → off.toNat + 4 ≤ kThreadSize →
      Leads (Standing config (endWords m a.threadPtr w x)) (write32 (a.threadPtr + off) y)
        fun _ => Standing config (endWords m a.threadPtr w x) := by
    intro off y hlow hin
    apply leads_write32
    exact endWords_off (block_off hacc hc hw (by decide) hin (Or.inr (by omega)))
      ((part_inside hc hacc.block (by decide) hin).off (hclear _ hcur).1)
  have hglobal : ∀ (g y : Word), g = kThreadListHeadAddr ∨ g = kThreadListTailAddr →
      Leads (Standing config (endWords m a.threadPtr w x)) (write32 g y)
        fun _ => Standing config (endWords m a.threadPtr w x) := by
    intro g y hg
    apply leads_write32
    rcases hg with rfl | rfl
    · exact endWords_off (hlate _ (Or.inl (by simp)))
        (apart_of_mod _ (by decide) (by decide) (by decide))
    · exact endWords_off (hlate _ (Or.inl (by simp)))
        (apart_of_mod _ (by decide) (by decide) (by decide))
  unfold linkActiveThread
  apply leads_bind (leads_read32 _)
  intro tailThread
  have hbehind : Leads (fun s => WordStands config m a.threadPtr w x s ∧
      s.mem.read32 kThreadListTailAddr = some tailThread) (linkBehind tailThread a.threadPtr)
      fun _ => Standing config (endWords m a.threadPtr w x) := by
    unfold linkBehind
    apply leads_ite
    · exact fun _ => leads_pure fun _ h => h.1.ends
    intro hne
    refine leads_bind (R := fun _ => Standing config (endWords m a.threadPtr w x)) ?_ fun _ =>
      (leads_read32 _).mono fun _ _ h => h.1
    rintro s ⟨h, htail⟩
    have hstands : s.mem.read32 kThreadListTailAddr = m.read32 kThreadListTailAddr :=
      h.word (by simp [pointersOf, pointerWords])
    have hold : m.read32 kThreadListTailAddr = some tailThread := hstands.symm.trans htail
    have hlink : (tailThread + kThreadListNextOffset, 4) ∈ linkRange m := ⟨_, hold, hne, rfl⟩
    exact leads_write32 _ (endWords_off (hlate _ (Or.inr (Or.inl hlink)))
      ((hclear _ hcur).2.2 _ (Or.inl hlink))) s h.ends
  apply leads_bind hbehind
  intro newHead
  apply leads_bind (hglobal _ _ (Or.inl rfl))
  intro _
  apply leads_bind (hstore _ _ (by decide) (by decide))
  intro _
  apply leads_bind (hstore _ _ (by decide) (by decide))
  intro _
  exact hglobal _ _ (Or.inr rfl)

/-- A word of the initialized block is there when the call returns. -/
theorem registerThread_word (hacc : Accepts config a) (hc : Admissible config)
    (hclear : PointersClear config m a) (hw : w.Counts)
    (hlate : ∀ r ∈ lateRanges config m, r.Off config (w.range a.threadPtr)) {x : Word}
    {cpu : CpuPtr} {P : Machine Memory → Prop}
    (hblock : Leads P (initializeBlock cpu a) fun _ => WordStands config m a.threadPtr w x) :
    Leads P (registerThread cpu a) fun _ s => s.mem.read32 (a.threadPtr + w.offset) = some x := by
  have hmirror : ∀ r ∈ mirrorRange config m, r.Off config (w.range a.threadPtr) :=
    fun r hr => hlate r (Or.inr (Or.inr hr))
  have hpointer : ∀ p ∈ pointerWords, ∀ r ∈ mirrorRange config m, r.Off config (p, 4) :=
    fun p hp r hr => (hclear p hp).2.2 r (Or.inr hr)
  have hoff : ∀ p ∈ (a.threadPtr + w.offset, some x) :: pointersOf m,
      ∀ r ∈ mirrorRange config m, r.Off config (p.1, 4) :=
    List.forall_mem_cons.mpr ⟨hmirror, forall_pointersOf hpointer⟩
  have hends : ∀ p ∈ endWords m a.threadPtr w x,
      ∀ r ∈ mirrorRange config m, r.Off config (p.1, 4) :=
    fun p hp r hr => endWords_off (hmirror r hr) (hpointer _ List.mem_cons_self r hr) p hp
  unfold registerThread
  apply leads_bind hblock
  intro _
  have hdisable : Leads (WordStands config m a.threadPtr w x) (osDisableInterrupts cpu)
      fun _ => WordStands config m a.threadPtr w x :=
    exchangeInterrupts_standing (m := m) (by simp [pointersOf, pointerWords]) hoff cpu false
  apply leads_bind hdisable
  intro _
  apply leads_bind (R := fun _ => WordStands config m a.threadPtr w x) (leads_gets fun _ h => h)
  intro irqState
  apply leads_bind (linkActiveThread_ends hacc hc hclear hw hlate x)
  intro _
  have hrestore : Leads (Standing config (endWords m a.threadPtr w x))
      (restoreInterrupts cpu irqState) fun _ => Standing config (endWords m a.threadPtr w x) := by
    unfold restoreInterrupts osRestoreInterrupts
    apply leads_ite
    · exact fun _ _ h => h
    intro _
    refine leads_bind (R := fun _ => Standing config (endWords m a.threadPtr w x))
      (fun _ h => h) fun _ => ?_
    refine leads_bind (R := fun _ => Standing config (endWords m a.threadPtr w x))
      (fun _ h => h) fun state => ?_
    exact exchangeInterrupts_standing (m := m) (by simp [endWords]) hends cpu _
  apply leads_bind hrestore
  intro _ s h
  obtain ⟨b, s', hrun, hmem, _⟩ := createFiber_runs a.threadPtr a.entryFunc a.entryArg
    (a.alignedStack - 8#32) cpu s
  have hread : s.mem.read32 (a.threadPtr + w.offset) = some x := h.word List.mem_cons_self
  rw [bind_of hrun, setGpr_apply]
  change s'.mem.read32 (a.threadPtr + w.offset) = some x
  rw [hmem, hread]

/-! ## The guard over a word -/

/-- A guard elsewhere leaves the word. -/
theorem guarded_off (hoff : a.guardRange.Off config (w.range a.threadPtr)) :
    guarded config a w = w.value a := by
  have hbytes := ofBE_bytes (n := 4) (w.value a) (by decide : 32 = 8 * 4)
  refine Eq.trans (ofBE_congr fun j hj => ?_) hbytes
  exact apply_other fun i hi => hoff i hi j hj

/-- No byte of the guard is zero. -/
theorem guard_byte {g : Word} {i : Nat} (hi : i < 4) :
    (Store.mk .w32 g kStackGuard).byte i ≠ 0#8 := by
  have hbytes : ∀ i : Fin 4, byteLE kStackGuard (3 - i) ≠ 0#8 := by decide
  exact hbytes ⟨i, hi⟩

/-- A byte of the word that is the guard's, or was not zero. -/
theorem guarded_ne_zero {j : Nat} (hj : j < 4)
    (h : byteLE (w.value a) (3 - j) ≠ 0#8 ∨ ∃ i < 4,
      SameByte config ((a.stackTop - a.stackSize).toNat + i)
        ((a.threadPtr + w.offset).toNat + j)) :
    guarded config a w ≠ 0#32 := by
  intro hzero
  have hbyte := congrArg (fun y => byteLE y (4 - 1 - j)) hzero
  simp only [guarded, byteLE_ofBE _ hj (by decide : 32 = 8 * 4)] at hbyte
  have hzero' : byteLE (0#32) (4 - 1 - j) = 0#8 := by
    unfold byteLE
    simp
  rw [hzero'] at hbyte
  by_cases hover : ∃ i < 4, SameByte config ((a.stackTop - a.stackSize).toNat + i)
      ((a.threadPtr + w.offset).toNat + j)
  · obtain ⟨i, hi, hsame⟩ := hover
    obtain ⟨l, hl, happly⟩ :=
      apply_alias (Store.mk .w32 (a.stackTop - a.stackSize) kStackGuard) hi
      hsame (byteLE (w.value a) (3 - j))
    exact guard_byte hl (happly.symm.trans hbyte)
  · have hother : ∀ i < 4, ¬ SameByte config ((a.stackTop - a.stackSize).toNat + i)
        ((a.threadPtr + w.offset).toNat + j) := fun i hi hsame => hover ⟨i, hi, hsame⟩
    rw [apply_other (w := Store.mk .w32 (a.stackTop - a.stackSize) kStackGuard) hother] at hbyte
    exact h.elim (fun hne => hne hbyte) hover

/-- The third quantization register of a video decoder is never zero. -/
theorem guarded_thp (hthp : isThpVideoDecoderEntry a.entryFunc = true) :
    guarded config a (.gqr 2) ≠ 0#32 := by
  apply guarded_ne_zero (j := 1) (by decide)
  left
  simp only [StartWord.value, startGqr, hthp, if_true]
  decide

end

/-! ## OSCreateThread -/

section

variable {config : List RegionConfig} {ctx : CpuPtr} {s s' : Machine Memory} {a : Arguments}

/-- A call that gives 1 has accepted the thread, and has registered it. -/
theorem osCreateThread_registers (hs : Serves config s.mem)
    (hargs : arguments (s.cpus (cpuOf ctx)) = a) (hrun : osCreateThread ctx s = .ret () s')
    (hr3 : s'.gpr (cpuOf ctx) 3 = 1#32) :
    Accepts config a ∧ a.threadPtr ≠ 0#32 ∧ registerThread (cpuOf ctx) a s = .ret () s' := by
  have hcheck := containsThreadAndStack_apply hs a.threadPtr a.alignedStack a.stackTop a.stackSize
  rw [osCreateThread_eq hargs hcheck] at hrun
  split at hrun
  · rename_i hpass
    obtain ⟨hzero, hblock, htop, hbottom, _⟩ := of_decide_eq_true hpass.2
    simp only [not_or, BitVec.not_lt] at hzero
    have hpriority : 0 ≤ a.priority.toInt ∧ a.priority.toInt ≤ 31 := of_decide_eq_true hpass.1
    have hmapped := fun (x : Word) {n : Nat} (hn : 0 < n) (hn' : n ≤ 0x100000000) =>
      (hs.contains_iff x hn hn').mp
    exact ⟨⟨hpriority, hmapped (n := kThreadSize) _ (by decide) (by decide) hblock, hzero.2.1,
      hmapped (n := 8) _ (by decide) (by decide) htop, hzero.2.2,
      hmapped (n := 4) _ (by decide) (by decide) hbottom⟩, hzero.1, hrun⟩
  · cases hrun
    simp at hr3

/-- The words of the context when the call has returned. -/
theorem osCreateThread_word (hs : Serves config s.mem)
    (hargs : arguments (s.cpus (cpuOf ctx)) = a) (hrun : osCreateThread ctx s = .ret () s')
    (hr3 : s'.gpr (cpuOf ctx) 3 = 1#32) (hstores : StoresApart config s.mem a) {w : StartWord}
    (hw : w.Counts) :
    s'.mem.read32 (a.threadPtr + w.offset) = some (guarded config a w) := by
  obtain ⟨hacc, _, hreg⟩ := osCreateThread_registers hs hargs hrun hr3
  have hc := hs.admissible
  have hstart : PointersStand config s.mem s :=
    ⟨hs, by simp [pointersOf]⟩
  have hmeets := registerThread_word hacc hc hstores.pointers hw (hstores.late w hw)
    (initializeBlock_shows hacc hc hstores hw (cpuOf ctx)) s hstart
  rw [hreg] at hmeets
  exact hmeets

end

end wii_switch
