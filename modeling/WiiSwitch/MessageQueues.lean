-- The message queue that OSReceiveMessage takes from. Its header has two thread queues and
-- the words of a ring, and the ring lies in an array of message words. Seen through a view,
-- a receive takes the first message off the ring, and an append puts one behind the last.
import WiiSwitch.Lib.Fifo
import WiiSwitch.FaultBoundaries
import WiiSwitch.SchedulerInvariant

namespace wii_switch

open OS Routine ReceiveMessage

/-! ## The ring in a view -/

/-- The address of a slot of a message array. -/
def slotAddr (array : Word) (i : Nat) : Word := array + BitVec.ofNat 32 i * 4#32

/-- The words of the ring in the header of a queue. -/
def ringOffsets : List Word :=
  [kMsgQueueArrayOffset, kMsgQueueCountOffset, kMsgQueueFirstOffset, kMsgQueueUsedOffset]

namespace View

def msgArray (v : View) (q : Word) : Word := v.word (.word (q + kMsgQueueArrayOffset))

def msgCount (v : View) (q : Word) : Word := v.word (.word (q + kMsgQueueCountOffset))

def msgFirst (v : View) (q : Word) : Word := v.word (.word (q + kMsgQueueFirstOffset))

def msgUsed (v : View) (q : Word) : Word := v.word (.word (q + kMsgQueueUsedOffset))

/-- The word in a slot of the message array. -/
def msgSlot (v : View) (q : Word) (i : Nat) : Word := v.word (.word (slotAddr (v.msgArray q) i))

/-- The messages in the queue, the oldest first. -/
def messages (v : View) (q : Word) : List Word :=
  Fifo.contents (v.msgSlot q) (v.msgCount q).toNat (v.msgFirst q).toNat (v.msgUsed q).toNat

/-- The queue without its first message. -/
def dequeued (v : View) (q : Word) : View :=
  (v.put (.word (q + kMsgQueueFirstOffset)) ((v.msgFirst q + 1#32) % v.msgCount q)).put
    (.word (q + kMsgQueueUsedOffset)) (v.msgUsed q - 1#32)

/-- The slot behind the last message. -/
def nextSlot (v : View) (q : Word) : Nat :=
  ((v.msgFirst q).toNat + (v.msgUsed q).toNat) % (v.msgCount q).toNat

/-- The queue with one more message. -/
def appended (v : View) (q m : Word) : View :=
  (v.put (.word (slotAddr (v.msgArray q) (v.nextSlot q))) m).put (.word (q + kMsgQueueUsedOffset))
    (v.msgUsed q + 1#32)

end View

/-- A well-formed message queue whose words are words of the layout. -/
structure MessageQueue (L : Layout) (v : View) (q : Word) : Prop where
  sendQueue : L.IsQueue (q + kMsgQueueSendOffset)
  recvQueue : L.IsQueue (q + kMsgQueueRecvOffset)
  header : ∀ o ∈ ringOffsets, q + o ∈ L.words
  slots : ∀ i < (v.msgCount q).toNat, slotAddr (v.msgArray q) i ∈ L.words
  apart : ∀ i < (v.msgCount q).toNat, ∀ o ∈ ringOffsets, slotAddr (v.msgArray q) i ≠ q + o
  fits : Fifo.Fits (v.msgCount q).toNat (v.msgFirst q).toNat (v.msgUsed q).toNat

section

variable {L : Layout} {v w : View} {q : Word}

namespace MessageQueue

theorem array_mem (h : MessageQueue L v q) : q + kMsgQueueArrayOffset ∈ L.words :=
  h.header _ (by simp [ringOffsets])

theorem count_mem (h : MessageQueue L v q) : q + kMsgQueueCountOffset ∈ L.words :=
  h.header _ (by simp [ringOffsets])

theorem first_mem (h : MessageQueue L v q) : q + kMsgQueueFirstOffset ∈ L.words :=
  h.header _ (by simp [ringOffsets])

theorem used_mem (h : MessageQueue L v q) : q + kMsgQueueUsedOffset ∈ L.words :=
  h.header _ (by simp [ringOffsets])

/-- An array with more slots would run into the header. -/
theorem count_le (h : MessageQueue L v q) (hL : L.Sound) : (v.msgCount q).toNat ≤ 0x40000000 := by
  by_contra hgt
  obtain ⟨k, hk⟩ : ∃ k : Word, k = q + kMsgQueueArrayOffset - v.msgArray q := ⟨_, rfl⟩
  have hlt : k.toNat / 4 < (v.msgCount q).toNat := by
    have := k.isLt
    omega
  have hslot := h.slots _ hlt
  have hend := hL.end_le (b := .word (slotAddr (v.msgArray q) (k.toNat / 4))) hslot
  have haddr : q + kMsgQueueArrayOffset =
      slotAddr (v.msgArray q) (k.toNat / 4) + BitVec.ofNat 32 (k.toNat % 4) := by
    have hsplit : k = BitVec.ofNat 32 (k.toNat / 4) * 4#32 + BitVec.ofNat 32 (k.toNat % 4) := by
      apply BitVec.eq_of_toNat_eq
      have := k.isLt
      simp only [BitVec.toNat_add, BitVec.toNat_mul, BitVec.toNat_ofNat]
      omega
    have hq : q + kMsgQueueArrayOffset = v.msgArray q + k := by
      rw [hk, BitVec.add_comm (v.msgArray q), BitVec.sub_add_cancel]
    rw [hq, slotAddr, BitVec.add_assoc, ← hsplit]
  have htoNat : (q + kMsgQueueArrayOffset).toNat =
      (slotAddr (v.msgArray q) (k.toNat / 4)).toNat + k.toNat % 4 := by
    rw [haddr]
    exact hL.toNat_add (b := .word _) hslot (i := k.toNat % 4) (Nat.mod_lt _ (by decide))
  have hne : OSBlock.word (slotAddr (v.msgArray q) (k.toNat / 4)) ≠
      .word (q + kMsgQueueArrayOffset) := fun he =>
    h.apart _ hlt _ (by simp [ringOffsets]) (OSBlock.word.inj he)
  have hapart : Apart L.config (slotAddr (v.msgArray q) (k.toNat / 4)).toNat 4
      (q + kMsgQueueArrayOffset).toNat 4 := hL.apart (.word _) (.word _) hslot h.array_mem hne
  exact hapart (k.toNat % 4) (Nat.mod_lt _ (by decide)) 0 (by decide) (Or.inl htoNat.symm)

/-- Two slots are two words. -/
theorem slotAddr_inj (h : MessageQueue L v q) (hL : L.Sound) {i j : Nat}
    (hi : i < (v.msgCount q).toNat) (hj : j < (v.msgCount q).toNat)
    (heq : slotAddr (v.msgArray q) i = slotAddr (v.msgArray q) j) : i = j := by
  have hle := h.count_le hL
  have hmul := congrArg BitVec.toNat ((BitVec.add_right_inj _).mp heq)
  simp only [BitVec.toNat_mul, BitVec.toNat_ofNat] at hmul
  omega

/-- Only the words matter. -/
theorem congr (h : MessageQueue L v q)
    (hw : ∀ a ∈ L.words, w.word (.word a) = v.word (.word a)) :
    MessageQueue L w q ∧ w.messages q = v.messages q := by
  have harray : w.msgArray q = v.msgArray q := hw _ h.array_mem
  have hcount : w.msgCount q = v.msgCount q := hw _ h.count_mem
  have hfirst : w.msgFirst q = v.msgFirst q := hw _ h.first_mem
  have hused : w.msgUsed q = v.msgUsed q := hw _ h.used_mem
  refine ⟨⟨h.sendQueue, h.recvQueue, h.header, ?_, ?_, ?_⟩, ?_⟩
  · rw [hcount, harray]
    exact h.slots
  · rw [hcount, harray]
    exact h.apart
  · rw [hcount, hfirst, hused]
    exact h.fits
  · unfold View.messages
    rw [hcount, hfirst, hused]
    rcases Nat.eq_zero_or_pos (v.msgCount q).toNat with h0 | hpos
    · have hle := h.fits.used_le
      rw [h0] at hle ⊢
      rw [Nat.le_zero.mp hle]
      rfl
    · refine Fifo.contents_congr hpos fun i hi => ?_
      unfold View.msgSlot
      rw [harray]
      exact hw _ (h.slots i hi)

theorem first_lt (h : MessageQueue L v q) (hused : v.msgUsed q ≠ 0#32) :
    (v.msgFirst q).toNat < (v.msgCount q).toNat := by
  refine h.fits.pos (Nat.pos_of_ne_zero fun h0 => hused ?_)
  exact BitVec.toNat_inj.mp h0

end MessageQueue

theorem header_ne {a b : Word} (h : a ≠ b) (q : Word) : Cell.word (q + a) ≠ .word (q + b) := by
  simpa using h

namespace View

@[simp] theorem dequeued_array (v : View) (q : Word) : (v.dequeued q).msgArray q =
    v.msgArray q := by
  rw [msgArray, dequeued, put_word, if_neg (header_ne (by decide) q), put_word,
    if_neg (header_ne (by decide) q)]
  rfl

@[simp] theorem dequeued_count (v : View) (q : Word) : (v.dequeued q).msgCount q =
    v.msgCount q := by
  rw [msgCount, dequeued, put_word, if_neg (header_ne (by decide) q), put_word,
    if_neg (header_ne (by decide) q)]
  rfl

@[simp] theorem dequeued_first (v : View) (q : Word) :
    (v.dequeued q).msgFirst q = (v.msgFirst q + 1#32) % v.msgCount q := by
  rw [msgFirst, dequeued, put_word, if_neg (header_ne (by decide) q), put_word,
    if_pos rfl]

@[simp] theorem dequeued_used (v : View) (q : Word) :
    (v.dequeued q).msgUsed q = v.msgUsed q - 1#32 := by
  rw [msgUsed, dequeued, put_word, if_pos rfl]

end View

namespace MessageQueue

theorem slot_word (h : MessageQueue L v q) {i : Nat} (hi : i < (v.msgCount q).toNat) {x : Word}
    {u : View} {o : Word} (ho : o ∈ ringOffsets) :
    (u.put (.word (q + o)) x).word (.word (slotAddr (v.msgArray q) i)) =
      u.word (.word (slotAddr (v.msgArray q) i)) := by
  rw [View.put_word, if_neg]
  simpa using h.apart i hi o ho

/-- A receive takes the first message. -/
theorem dequeued (h : MessageQueue L v q) (hused : v.msgUsed q ≠ 0#32) :
    MessageQueue L (v.dequeued q) q ∧
      v.messages q = v.msgSlot q (v.msgFirst q).toNat :: (v.dequeued q).messages q := by
  have hlt := h.first_lt hused
  have hpos : 0 < (v.msgUsed q).toNat := Nat.pos_of_ne_zero fun h0 => hused (BitVec.toNat_inj.mp h0)
  have hfirst : ((v.dequeued q).msgFirst q).toNat =
      ((v.msgFirst q).toNat + 1) % (v.msgCount q).toNat := by
    have := (v.msgCount q).isLt
    rw [View.dequeued_first, BitVec.toNat_umod, BitVec.toNat_add]
    congr 1
    exact Nat.mod_eq_of_lt (by simp; omega)
  have husedSucc : (v.msgUsed q).toNat = ((v.dequeued q).msgUsed q).toNat + 1 := by
    have := (v.msgUsed q).isLt
    rw [View.dequeued_used, BitVec.toNat_sub]
    simp only [BitVec.toNat_ofNat]
    omega
  refine ⟨⟨h.sendQueue, h.recvQueue, h.header, ?_, ?_, ?_⟩, ?_⟩
  · rw [View.dequeued_count, View.dequeued_array]
    exact h.slots
  · rw [View.dequeued_count, View.dequeued_array]
    exact h.apart
  · rw [View.dequeued_count, hfirst]
    exact Fifo.Fits.pop (husedSucc ▸ h.fits)
  · have hslots : ∀ i < (v.msgCount q).toNat, (v.dequeued q).msgSlot q i = v.msgSlot q i := by
      intro i hi
      rw [View.msgSlot, View.dequeued_array, View.dequeued, h.slot_word hi (by simp [ringOffsets]),
        h.slot_word hi (by simp [ringOffsets])]
      rfl
    rw [View.messages, View.messages, husedSucc, Fifo.contents_succ hlt,
      View.dequeued_count, hfirst,
      Fifo.contents_congr (Nat.zero_lt_of_lt hlt) hslots]

/-- An append puts a message behind the last. -/
theorem appended (h : MessageQueue L v q) (hL : L.Sound)
    (hused : (v.msgUsed q).toNat < (v.msgCount q).toNat) (m : Word) :
    MessageQueue L (v.appended q m) q ∧ (v.appended q m).messages q = v.messages q ++ [m] := by
  have hnext : v.nextSlot q < (v.msgCount q).toNat := Nat.mod_lt _ (Nat.zero_lt_of_lt hused)
  have hword : ∀ o ∈ ringOffsets, o ≠ kMsgQueueUsedOffset →
      (v.appended q m).word (.word (q + o)) = v.word (.word (q + o)) := by
    intro o ho hne
    rw [View.appended, View.put_word, if_neg (header_ne hne q), View.put_word,
      if_neg (by simpa using (h.apart _ hnext o ho).symm)]
  have harray : (v.appended q m).msgArray q = v.msgArray q :=
    hword _ (by simp [ringOffsets]) (by decide)
  have hcount : (v.appended q m).msgCount q = v.msgCount q :=
    hword _ (by simp [ringOffsets]) (by decide)
  have hfirst : (v.appended q m).msgFirst q = v.msgFirst q :=
    hword _ (by simp [ringOffsets]) (by decide)
  have husedSucc : ((v.appended q m).msgUsed q).toNat = (v.msgUsed q).toNat + 1 := by
    have := (v.msgCount q).isLt
    rw [View.msgUsed, View.appended, View.put_word, if_pos rfl, BitVec.toNat_add]
    exact Nat.mod_eq_of_lt (by simp; omega)
  refine ⟨⟨h.sendQueue, h.recvQueue, h.header, ?_, ?_, ?_⟩, ?_⟩
  · rw [hcount, harray]
    exact h.slots
  · rw [hcount, harray]
    exact h.apart
  · rw [hcount, hfirst, husedSucc]
    exact h.fits.push hused
  · have hslots : ∀ i < (v.msgCount q).toNat, (v.appended q m).msgSlot q i =
        Function.update (v.msgSlot q) (v.nextSlot q) m i := by
      intro i hi
      rw [View.msgSlot, harray, View.appended,
        h.slot_word hi (by simp [ringOffsets]), View.put_word,
        Function.update_apply]
      by_cases hi' : i = v.nextSlot q
      · rw [if_pos (by rw [hi']), if_pos hi']
      · rw [if_neg, if_neg hi', View.msgSlot]
        simpa using fun he => hi' (h.slotAddr_inj hL hi hnext he)
    rw [View.messages, View.messages, husedSucc, hcount, hfirst,
      Fifo.contents_congr (Nat.zero_lt_of_lt hused) hslots]
    exact Fifo.contents_push hused m

theorem messages_length (v : View) (q : Word) : (v.messages q).length = (v.msgUsed q).toNat :=
  Fifo.length_contents ..

theorem used_eq_zero_iff (v : View) (q : Word) : v.msgUsed q = 0#32 ↔ v.messages q = [] := by
  rw [← List.length_eq_zero_iff, messages_length, ← BitVec.toNat_inj]
  rfl

end MessageQueue

end

/-! ## What the routines do -/

namespace ReceiveMessage

/-- `takeMessage` up to the call of OSWakeupThread. -/
def handMessage (cpu : CpuPtr) (queuePtr outMsgPtr : Word) : OS Unit := do
  let msg ← dequeueMessage queuePtr
  onlyIf (outMsgPtr ≠ 0#32) do write32 outMsgPtr msg
  setGpr cpu 3 (queuePtr + kMsgQueueSendOffset)

end ReceiveMessage

section

variable {L : Layout} {v : View} {q : Word}

theorem takeMessage_eq (cpu : CpuPtr) (q out : Word) :
    takeMessage cpu q out =
      (handMessage cpu q out >>= fun _ => invokeTranslatedCpu kOSWakeupThreadAddress cpu) := by
  funext s
  unfold takeMessage handMessage
  simp only [bind_apply, Coop.bind_assoc]

theorem runs_dequeueMessage (h : MessageQueue L v q) (hused : v.msgUsed q ≠ 0#32) :
    Runs L (dequeueMessage q) v (v.msgSlot q (v.msgFirst q).toNat) (v.dequeued q) := by
  have hlt := h.first_lt hused
  have hcount : ¬(v.msgCount q = 0#32 ∨ v.msgUsed q = 0#32) := by
    rintro (h0 | h0)
    · rw [h0] at hlt
      exact Nat.not_lt_zero _ hlt
    · exact hused h0
  refine runs_bind (runs_read (c := .word (q + kMsgQueueArrayOffset)) h.array_mem rfl) ?_
  refine runs_bind (runs_read (c := .word (q + kMsgQueueCountOffset)) h.count_mem rfl) ?_
  refine runs_bind (runs_read (c := .word (q + kMsgQueueFirstOffset)) h.first_mem rfl) ?_
  refine runs_bind (runs_read (c := .word (q + kMsgQueueUsedOffset)) h.used_mem rfl) ?_
  change Runs L (if v.msgCount q = 0#32 ∨ v.msgUsed q = 0#32 then _ else _) v _ _
  rw [if_neg hcount]
  have hslot : v.msgArray q + v.msgFirst q * 4#32 =
      slotAddr (v.msgArray q) (v.msgFirst q).toNat := by
    rw [slotAddr, BitVec.ofNat_toNat, BitVec.setWidth_eq]
  refine runs_bind (runs_read (c := .word (slotAddr (v.msgArray q) (v.msgFirst q).toNat))
    (h.slots _ hlt) hslot) ?_
  refine runs_bind (runs_write (c := .word (q + kMsgQueueFirstOffset)) h.first_mem rfl _) ?_
  refine runs_bind (runs_write (c := .word (q + kMsgQueueUsedOffset)) h.used_mem rfl _) ?_
  exact runs_pure _

/-- The first message goes to the caller. -/
theorem handMessage_ret {s : Machine Memory} (hs : Represents L s.mem v) (h : MessageQueue L v q)
    (hused : v.msgUsed q ≠ 0#32) {out : Word} (hout : out = 0#32 ∨ L.Clear out.toNat 4)
    (cpu : CpuPtr) : ∃ m, handMessage cpu q out s =
        .ret () ((s.withMem m).setGpr cpu 3 (q + kMsgQueueSendOffset)) ∧
      Represents L m (v.dequeued q) ∧
      (out ≠ 0#32 → m.read32 out = some (v.msgSlot q (v.msgFirst q).toNat)) := by
  obtain ⟨m, hrun, hm⟩ := runs_dequeueMessage h hused s hs
  unfold handMessage
  rw [bind_of hrun]
  by_cases h0 : out = 0#32
  · refine ⟨m, ?_, hm, fun hne => absurd h0 hne⟩
    rw [bind_apply, onlyIf_apply, if_neg (by simpa using h0)]
    rfl
  · have hclear := hout.resolve_left h0
    obtain ⟨m', hw⟩ := hm.serves.write32_some hclear.mapped (v.msgSlot q (v.msgFirst q).toNat)
    refine ⟨m', ?_, hm.write_clear (k := .w32) hclear hw,
      fun _ => hm.serves.read_written (k := .w32) hw⟩
    have hwrite : write32 out (v.msgSlot q (v.msgFirst q).toNat) (s.withMem m) =
        .ret () (s.withMem m') := write32_ret hw
    rw [bind_apply, onlyIf_apply, if_pos (by simpa using h0), hwrite]
    rfl

/-- Words stored into cells. -/
theorem runs_storeAll (l : List (Cell × Word)) (hl : ∀ e ∈ l, L.HasCell e.1) :
    Runs L (storeAll (l.map fun e => .word e.1.address e.2)) v ()
      (l.foldl (fun v e => v.put e.1 e.2) v) := by
  induction l generalizing v with
  | nil => exact runs_pure ()
  | cons e l ih =>
    refine runs_bind (runs_write (hl e List.mem_cons_self) rfl e.2) ?_
    exact ih fun e' he' => hl e' (List.mem_cons_of_mem e he')

/-- The stores of OS__InitMessageQueue, by cells. -/
def initCells (q array count : Word) : List (Cell × Word) :=
  [(.head (q + kMsgQueueSendOffset), 0#32), (.tail (q + kMsgQueueSendOffset), 0#32),
    (.head (q + kMsgQueueRecvOffset), 0#32), (.tail (q + kMsgQueueRecvOffset), 0#32),
    (.word (q + kMsgQueueArrayOffset), array), (.word (q + kMsgQueueCountOffset), count),
    (.word (q + kMsgQueueFirstOffset), 0#32), (.word (q + kMsgQueueUsedOffset), 0#32)]

/-- OS__InitMessageQueue makes an empty queue. -/
theorem osInitMessageQueue_ret {s : Machine Memory} (hL : L.Sound) (hs : Represents L s.mem v)
    {cpu : CpuPtr} (hcpu : cpu ≠ 0) (hq : s.gpr cpu 3 = q)
    (hsend : L.IsQueue (q + kMsgQueueSendOffset)) (hrecv : L.IsQueue (q + kMsgQueueRecvOffset))
    (hheader : ∀ o ∈ ringOffsets, q + o ∈ L.words)
    (hslots : ∀ i < (s.gpr cpu 5).toNat, slotAddr (s.gpr cpu 4) i ∈ L.words ∧
      ∀ o ∈ ringOffsets, slotAddr (s.gpr cpu 4) i ≠ q + o)
    (hmapped : InOneRegion L.config q.toNat kQueueSize) :
    ∃ m w, osInitMessageQueue cpu s = .ret () (s.withMem m) ∧ Represents L m w ∧
      MessageQueue L w q ∧ w.messages q = [] := by
  have hq0 : q ≠ 0#32 := by
    have := hL.queue_ne_zero hsend
    rwa [kMsgQueueSendOffset, BitVec.add_zero] at this
  have hcells : ∀ e ∈ initCells q (s.gpr cpu 4) (s.gpr cpu 5), L.HasCell e.1 := by
    simp only [initCells, List.mem_cons, List.not_mem_nil, or_false]
    rintro e (rfl | rfl | rfl | rfl | rfl | rfl | rfl | rfl)
    · exact hsend
    · exact hsend
    · exact hrecv
    · exact hrecv
    · exact hheader _ (by simp [ringOffsets])
    · exact hheader _ (by simp [ringOffsets])
    · exact hheader _ (by simp [ringOffsets])
    · exact hheader _ (by simp [ringOffsets])
  obtain ⟨w, hw⟩ : ∃ w, w = (initCells q (s.gpr cpu 4) (s.gpr cpu 5)).foldl
      (fun v e => v.put e.1 e.2) v := ⟨_, rfl⟩
  obtain ⟨m, hrun, hm⟩ := runs_storeAll (v := v) _ hcells s hs
  rw [← hw] at hm
  have harray : w.msgArray q = s.gpr cpu 4 := by
    simp [hw, initCells, View.msgArray, kMsgQueueArrayOffset, kMsgQueueCountOffset,
      kMsgQueueFirstOffset, kMsgQueueUsedOffset]
  have hcount : w.msgCount q = s.gpr cpu 5 := by
    simp [hw, initCells, View.msgCount, kMsgQueueCountOffset, kMsgQueueFirstOffset,
      kMsgQueueUsedOffset]
  have hfirst : w.msgFirst q = 0#32 := by
    simp [hw, initCells, View.msgFirst, kMsgQueueFirstOffset, kMsgQueueUsedOffset]
  have hused : w.msgUsed q = 0#32 := by
    simp [hw, initCells, View.msgUsed]
  refine ⟨m, w, ?_, hm, ⟨hsend, hrecv, hheader, ?_, ?_, ?_⟩, ?_⟩
  · have hcontains : s.mem.contains q (BitVec.ofNat 64 kQueueSize) = true :=
      (hs.serves.contains_iff q (by decide) (by decide)).mpr hmapped
    have hstores : ([.word (q + 0x00#32) 0#32, .word (q + 0x04#32) 0#32, .word (q + 0x08#32) 0#32,
        .word (q + 0x0C#32) 0#32, .word (q + 0x10#32) (s.gpr cpu 4),
        .word (q + 0x14#32) (s.gpr cpu 5), .word (q + 0x18#32) 0#32, .word (q + 0x1C#32) 0#32] :
          List GuestStore) = (initCells q (s.gpr cpu 4) (s.gpr cpu 5)).map
            fun e => .word e.1.address e.2 := by
      simp [initCells, Cell.address, kMsgQueueSendOffset, kMsgQueueRecvOffset, kMsgQueueArrayOffset,
        kMsgQueueCountOffset, kMsgQueueFirstOffset, kMsgQueueUsedOffset, BitVec.add_assoc]
    unfold osInitMessageQueue
    simp only [Routine.ite_apply, if_neg hcpu, bind_apply, getGpr_apply,
      Coop.bind_ret, hq, if_neg hq0,
      contains_apply, hcontains, if_true]
    rw [hstores]
    exact hrun
  · rw [hcount, harray]
    exact fun i hi => (hslots i hi).1
  · rw [hcount, harray]
    exact fun i hi => (hslots i hi).2
  · rw [hcount, hfirst, hused]
    refine ⟨Nat.zero_le _, ?_⟩
    rcases Nat.eq_zero_or_pos (s.gpr cpu 5).toNat with h0 | hpos
    · exact Or.inr ⟨h0, rfl⟩
    · exact Or.inl hpos
  · exact (MessageQueue.used_eq_zero_iff w q).mp hused

end

end wii_switch
