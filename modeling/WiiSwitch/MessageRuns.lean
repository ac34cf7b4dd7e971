-- OSReceiveMessage as a first-in first-out receive. A receive takes the oldest message and
-- wakes the senders; one that blocks sleeps while other threads run, and looks again when
-- it goes on. Over any run of receives and appends each message comes out once, in order.
import WiiSwitch.MessageQueues
import WiiSwitch.Sleeping
import WiiSwitch.WiiLayout

namespace wii_switch

open OS Routine ReceiveMessage

/-! ## The mirror of the interrupt state -/

/-- Nothing but the interrupt bit of the current context has changed. -/
structure MirrorOnly (config : List RegionConfig) (m m' : Memory) : Prop where
  elsewhere : ∀ (k : Width) a, (∀ c, m.read32 kOSCurrentContextAddr = some c → c ≠ 0#32 →
    Apart config (c + kContextModeFlagsOffset).toNat 2 a.toNat k.bytes) → m'.read k a = m.read k a
  bit : ∀ c h, m.read32 kOSCurrentContextAddr = some c → c ≠ 0#32 →
    m.read16 (c + kContextModeFlagsOffset) = some h →
      ∃ h', m'.read16 (c + kContextModeFlagsOffset) = some h' ∧
        ∀ i, i ≠ 1 → h'.getLsbD i = h.getLsbD i

theorem MirrorOnly.refl (config : List RegionConfig) (m : Memory) : MirrorOnly config m m :=
  ⟨fun _ _ _ => rfl, fun _ h _ _ hh => ⟨h, hh, fun _ _ => rfl⟩⟩

theorem MirrorOnly.trans {config : List RegionConfig} {m m' m'' : Memory}
    (h : MirrorOnly config m m') (h' : MirrorOnly config m' m'')
    (hcur : m'.read32 kOSCurrentContextAddr = m.read32 kOSCurrentContextAddr) :
    MirrorOnly config m m'' := by
  refine ⟨fun k a ha => ?_, fun c x hc hc0 hx => ?_⟩
  · rw [h'.elsewhere k a (hcur ▸ ha), h.elsewhere k a ha]
  · obtain ⟨y, hy, hxy⟩ := h.bit c x hc hc0 hx
    obtain ⟨z, hz, hyz⟩ := h'.bit c y (hcur ▸ hc) hc0 hy
    exact ⟨z, hz, fun i hi => (hyz i hi).trans (hxy i hi)⟩

theorem withInterruptBit_getLsbD (e : Bool) (h : Half) {i : Nat} (hi : i ≠ 1) :
    (withInterruptBit e h).getLsbD i = h.getLsbD i := by
  have hbit : kInterruptsEnabledBit.getLsbD i = false := by
    by_cases hlt : i < 16
    · have : ∀ j : Fin 16, j.val ≠ 1 → kInterruptsEnabledBit.getLsbD j = false := by decide
      exact this ⟨i, hlt⟩ hi
    · exact BitVec.getLsbD_of_ge _ _ (by omega)
  unfold withInterruptBit
  split
  · rw [BitVec.getLsbD_or, hbit, Bool.or_false]
  · rw [BitVec.getLsbD_and, BitVec.getLsbD_not, hbit]
    by_cases hlt : i < 16
    · simp [hlt]
    · simp [BitVec.getLsbD_of_ge h i (by omega)]

section

variable {L : Layout} {v : View} {s : Machine Memory}

theorem updateFlag_mirrorOnly (hs : Represents L s.mem v) (enabled : Bool) {t : Machine Memory}
    (h : updateCurrentContextInterruptFlag enabled s = .ret () t) :
    MirrorOnly L.config s.mem t.mem := by
  have hcur : s.mem.read32 kOSCurrentContextAddr = some v.currentContext :=
    hs.words (.global kOSCurrentContextAddr) currentContext_mem
  have hsame : (.ret () s : Coop (Machine Memory) Stop Away Unit) = .ret () t →
      MirrorOnly L.config s.mem t.mem := by
    intro heq
    obtain ⟨_, rfl⟩ := Coop.ret.inj heq
    exact .refl _ _
  unfold updateCurrentContextInterruptFlag at h
  rw [bind_of (mapped32_ret hs.initialized _), hs.serves.contains32, hcur] at h
  simp only [Option.isSome_some, if_true, bind_apply, read32_ret hcur, Coop.bind_ret] at h
  by_cases hc0 : v.currentContext = 0#32
  · rw [Routine.ite_apply, if_pos hc0] at h
    exact hsame h
  simp only [Routine.ite_apply, if_neg hc0, bind_apply, contains_apply, Coop.bind_ret,
    hs.serves.contains16] at h
  rcases hmode : s.mem.read16 (v.currentContext + kContextModeFlagsOffset) with _ | x
  · rw [hmode] at h
    exact hsame h
  simp only [hmode, Option.isSome_some, if_true, read16_ret hmode, Coop.bind_ret, onlyIf_apply] at h
  split at h
  · obtain ⟨m, hw⟩ :=
      hs.serves.write16_some ((hs.serves.read16_isSome _).mp (by rw [hmode]; rfl))
      (withInterruptBit enabled x)
    rw [write16_ret hw] at h
    obtain ⟨_, rfl⟩ := Coop.ret.inj h
    have hctx : ∀ {c}, s.mem.read32 kOSCurrentContextAddr = some c → v.currentContext = c := by
      intro c hc
      exact Option.some.inj (hcur.symm.trans hc)
    refine ⟨fun k a ha => ?_, fun c y hc _ hy => ?_⟩
    · exact hs.serves.read_frame (k := .w16) hw (ha _ hcur hc0)
    · obtain rfl := hctx hc
      rw [hmode, Option.some.injEq] at hy
      subst hy
      exact ⟨_, hs.serves.read_written (k := .w16) hw, fun i hi =>
        withInterruptBit_getLsbD _ _ hi⟩
  · exact hsame h

/-- An exchange of the interrupt state. -/
theorem exchangeInterrupts_ret (hs : Represents L s.mem v) (hc : L.ContextClear v.currentContext)
    (cpu : CpuPtr) (enabled : Bool) : ∃ m, exchangeInterrupts cpu enabled s =
        .ret () (exchanged s cpu enabled m) ∧ Represents L m v ∧
        MirrorOnly L.config s.mem m := by
  obtain ⟨m, hrun, hm⟩ := runs_updateFlag hc enabled (s.setInterrupts enabled) hs
  have hmirror := updateFlag_mirrorOnly (s := s.setInterrupts enabled) hs enabled hrun
  refine ⟨m, ?_, hm, hmirror⟩
  unfold exchangeInterrupts exchanged
  simp only [bind_apply, gets_apply, modify_apply, Coop.bind_ret, hrun, onlyIf_apply, setGpr_apply]
  by_cases h : cpu = 0
  · simp [h]
  · simp [h]

theorem restoreInterrupts_ret (hs : Represents L s.mem v) (hc : L.ContextClear v.currentContext)
    (cpu : CpuPtr) (state : Word) : ∃ t, restoreInterrupts cpu state s = .ret () t ∧
      Represents L t.mem v ∧ MirrorOnly L.config s.mem t.mem := by
  unfold restoreInterrupts
  rw [Routine.ite_apply]
  split
  · exact ⟨s, rfl, hs, .refl _ _⟩
  · obtain ⟨m, hrun, hm, hmirror⟩ :=
      exchangeInterrupts_ret (s := s.setGpr cpu 3 state) hs hc cpu
      (cpu ≠ 0 ∧ (s.setGpr cpu 3 state).gpr cpu 3 ≠ 0#32)
    refine ⟨_, hrun, ?_, ?_⟩
    · rw [exchanged_mem]
      exact hm
    · rw [exchanged_mem]
      exact hmirror

end

/-! ## One receive -/

namespace ReceiveMessage

/-- The body of OSReceiveMessage with the interrupts disabled. -/
def receive (fuel : Nat) (cpu : CpuPtr) (queuePtr outMsgPtr : Word) (block previous : Bool) :
    OS Unit := do
  let received ← receiveLoop fuel cpu queuePtr outMsgPtr block fuel
  restoreInterrupts cpu (stateWord previous)
  setGpr cpu 3 received

end ReceiveMessage

section

variable {L : Layout} {v : View} {s : Machine Memory} {cpu : CpuPtr} {q out : Word} {fuel : Nat}

theorem MessageQueue.ne_zero (h : MessageQueue L v q) (hL : L.Sound) : q ≠ 0#32 := by
  have := hL.queue_ne_zero h.sendQueue
  rwa [kMsgQueueSendOffset, BitVec.add_zero] at this

/-- A receive disables the interrupts first. -/
theorem osReceiveMessage_eq (fuel : Nat) (hcpu : cpu ≠ 0) (hq0 : q ≠ 0#32)
    (hq : s.gpr cpu 3 = q) (hs : Represents L s.mem v) (hc : L.ContextClear v.currentContext) :
    ∃ m, osReceiveMessage fuel cpu s = receive fuel cpu q (s.gpr cpu 4)
        (s.gpr cpu 5 &&& 1#32 ≠ 0#32) s.interruptsEnabled (exchanged s cpu false m) ∧
      Represents L m v ∧ MirrorOnly L.config s.mem m := by
  obtain ⟨m, hrun, hm, hmirror⟩ := exchangeInterrupts_ret hs hc cpu false
  refine ⟨m, ?_, hm, hmirror⟩
  have hr3 : (exchanged s cpu false m).gpr cpu 3 = stateWord s.interruptsEnabled := by
    simp [exchanged, hcpu]
  unfold osReceiveMessage receive
  simp only [Routine.ite_apply, if_neg hcpu, bind_apply, getGpr_apply,
    Coop.bind_ret, hq, if_neg hq0,
    osDisableInterrupts, hrun, hr3, stateWord_ne_zero, Bool.decide_eq_true]

/-- A receive that does not block leaves an empty queue alone. -/
theorem receive_empty (hL : L.Sound) (hs : Represents L s.mem v)
    (hc : L.ContextClear v.currentContext) (h : MessageQueue L v q) (hempty : v.messages q = [])
    (hcpu : cpu ≠ 0) (hq : s.gpr cpu 3 = q) (hblock : s.gpr cpu 5 &&& 1#32 = 0#32) :
    ∃ t, osReceiveMessage (fuel + 1) cpu s = .ret () t ∧ t.gpr cpu 3 = 0#32 ∧
      MirrorOnly L.config s.mem t.mem := by
  have hused := (MessageQueue.used_eq_zero_iff v q).mpr hempty
  obtain ⟨m, hrun, hm, hmirror⟩ := osReceiveMessage_eq (fuel + 1) hcpu (h.ne_zero hL) hq hs hc
  have hread : (exchanged s cpu false m).mem.read32 (q + kMsgQueueUsedOffset) = some 0#32 := by
    rw [exchanged_mem, ← hused]
    exact hm.words (.word (q + kMsgQueueUsedOffset)) h.used_mem
  obtain ⟨t, ht, _, hmirror'⟩ := restoreInterrupts_ret (s := exchanged s cpu false m)
    (by rw [exchanged_mem]; exact hm) hc cpu (stateWord s.interruptsEnabled)
  rw [exchanged_mem] at hmirror'
  refine ⟨t.setGpr cpu 3 0#32, ?_, by simp, hmirror.trans hmirror' ?_⟩
  · rw [hrun, receive]
    have hloop : receiveLoop (fuel + 1) cpu q (s.gpr cpu 4) false (fuel + 1)
        (exchanged s cpu false m) = .ret 0#32 (exchanged s cpu false m) := by
      rw [receiveLoop, bind_of (read32_ret hread), Routine.ite_apply, if_neg (by simp)]
      rfl
    have hfalse : decide (s.gpr cpu 5 &&& 1#32 ≠ 0#32) = false := by simp [hblock]
    rw [hfalse, bind_of hloop, bind_of ht, setGpr_apply]
  · exact (hm.words (.global kOSCurrentContextAddr) currentContext_mem).trans
      (hs.words (.global kOSCurrentContextAddr) currentContext_mem).symm

/-- The call of a translated function. -/
theorem meets_invokeTranslatedCpu {C : Coop.Contract (Machine Memory) Stop Away} {target : Word}
    {Q : Unit → Machine Memory → Prop}
    (hstop : s.translated target = none → C.stops (.boundary "DIRECT" target) s)
    (hguar : C.guar (.guest target cpu) s)
    (hrely : ∀ s' t, C.rely (.guest target cpu) s s' → t.mem = s'.mem → Q () t) :
    (invokeTranslatedCpu target cpu s).Meets C Q := by
  unfold invokeTranslatedCpu
  rw [bind_of (gets_apply ..)]
  cases hfun : s.translated target with
  | none => exact hstop hfun
  | some mask => exact ⟨hguar, fun s' hs' => hrely s' _ hs' rfl⟩

theorem meetsIn_invokeTranslatedCpu {ω : Type} {C : Coop.WorldContract ω (Machine Memory) Away}
    {g : ω} {target : Word} {Q : ω → Unit → Machine Memory → Prop}
    (hguar : C.guar g (.guest target cpu) s)
    (hrely : ∀ g' s' t, C.rely g (.guest target cpu) s g' s' → t.mem = s'.mem → Q g' () t) :
    (invokeTranslatedCpu target cpu s).MeetsIn C Q g := by
  unfold invokeTranslatedCpu
  rw [bind_of (gets_apply ..)]
  cases s.translated target with
  | none => trivial
  | some mask => exact ⟨hguar, fun g' s' hs' => hrely g' s' _ hs' rfl⟩

/-- What a receive that takes the message `m` relies on: OSWakeupThread leaves the words of
the layout, and the mirror of the interrupt state outside the cells. When it is called the
message is with the caller, and the queue has the rest `ms`. -/
def wakesSenders (L : Layout) (q out m : Word) (ms : List Word) :
    Coop.Contract (Machine Memory) Stop Away where
  guar i s := (∃ c, i = .guest kOSWakeupThreadAddress c) ∧
    (out ≠ 0#32 → s.mem.read32 out = some m) ∧ (viewOf s.mem).messages q = ms
  rely _ s s' := Serves L.config s'.mem ∧ L.ContextClear (viewOf s'.mem).currentContext ∧
    ∀ a ∈ L.words, (viewOf s'.mem).word (.word a) = (viewOf s.mem).word (.word a)
  stops e _ := e = .boundary "DIRECT" kOSWakeupThreadAddress

/-- A receive takes the oldest message. -/
theorem receive_oldest (hL : L.Sound) (hs : Represents L s.mem v)
    (hc : L.ContextClear v.currentContext) (h : MessageQueue L v q) {m : Word} {ms : List Word}
    (hmessages : v.messages q = m :: ms) (hcpu : cpu ≠ 0) (hq : s.gpr cpu 3 = q)
    (hout : s.gpr cpu 4 = 0#32 ∨ L.Clear (s.gpr cpu 4).toNat 4) :
    (osReceiveMessage (fuel + 1) cpu s).Meets (wakesSenders L q (s.gpr cpu 4) m ms) fun _ t =>
      t.gpr cpu 3 = 1#32 ∧ ∃ w, Represents L t.mem w ∧ MessageQueue L w q ∧
      w.messages q = ms := by
  have hused : v.msgUsed q ≠ 0#32 := by
    rw [Ne, MessageQueue.used_eq_zero_iff, hmessages]
    exact List.cons_ne_nil _ _
  obtain ⟨hdequeued, hsplit⟩ := h.dequeued hused
  obtain ⟨hfirst, hrest⟩ := List.cons.inj (hmessages.symm.trans hsplit)
  obtain ⟨m₁, hrun, hm₁, _⟩ := osReceiveMessage_eq (fuel + 1) hcpu (h.ne_zero hL) hq hs hc
  obtain ⟨m₂, hhand, hm₂, hstored⟩ := handMessage_ret (s := exchanged s cpu false m₁)
    (by rw [exchanged_mem]; exact hm₁) h hused hout cpu
  have hread : (exchanged s cpu false m₁).mem.read32 (q + kMsgQueueUsedOffset) =
      some (v.msgUsed q) := by
    rw [exchanged_mem]
    exact hm₁.words (.word (q + kMsgQueueUsedOffset)) h.used_mem
  have hview : ∀ a ∈ L.words, (viewOf m₂).word (.word a) = (v.dequeued q).word (.word a) :=
    fun a ha => hm₂.viewOf_word (c := .word a) ha
  rw [hrun, receive, receiveLoop, bind_apply, bind_of (read32_ret hread), Routine.ite_apply,
    if_pos hused, takeMessage_eq, bind_apply, bind_of hhand, Coop.bind_assoc]
  refine Coop.meets_bind.mpr
    (meets_invokeTranslatedCpu (fun _ => rfl) ⟨⟨cpu, rfl⟩, ?_, ?_⟩ ?_)
  · exact fun hne => (hstored hne).trans (congrArg some hfirst.symm)
  · exact (hdequeued.congr hview).2.trans hrest.symm
  -- OSWakeupThread has returned, and the interrupt state is restored
  rintro s' t ⟨hserves, hclear, hwords⟩ ht
  have ht' : Represents L t.mem (viewOf t.mem) := represents_viewOf hL (ht ▸ hserves)
  obtain ⟨hqueue, hms⟩ := hdequeued.congr fun a ha => (hwords a ha).trans (hview a ha)
  rw [← ht] at hclear hqueue hms
  obtain ⟨t', hrestore, hrep, _⟩ :=
    restoreInterrupts_ret ht' hclear cpu (stateWord s.interruptsEnabled)
  rw [pure_apply, Coop.bind_ret, bind_of hrestore, setGpr_apply]
  exact ⟨by simp, viewOf t.mem, hrep, hqueue, hms.trans hrest.symm⟩

end

/-! ## A receive among other threads -/

/-- The scheduler is in order, its callback is not OSWakeupThread, and the message queue and
its queue of receivers are well-formed. -/
structure Receivable (L : Layout) (live : Set Word) (v : View) (q : Word) : Prop where
  inOrder : InOrder L live v
  callback : v.callback ≠ kOSWakeupThreadAddress
  receivers : WaitQueue L live v (q + kMsgQueueRecvOffset)
  queue : MessageQueue L v q

section

variable {ω : Type} {L : Layout} {C : Coop.WorldContract ω (Machine Memory) Away} {g : ω}
  {live : Set Word} {v w : View} {cpu : CpuPtr} {q out : Word} {block : Bool} {fuel : Nat}
  {Q : ω → View → Prop} {R : ω → Word → View → Prop}

/-- Others that run leave the message queue as it is. -/
theorem Receivable.reordered (h : Receivable L live v q) (hL : L.Sound)
    (hw : Reordered L live v w) : Receivable L live w q ∧ w.messages q = v.messages q := by
  obtain ⟨hqueue, hmessages⟩ := h.queue.congr fun a _ => hw.steady (.word a) trivial
  have hreceivers := hw.waits _ (hL.queue_ne_zero h.queue.recvQueue) h.receivers
  exact ⟨⟨hw.inOrder, hw.callback ▸ h.callback, hreceivers, hqueue⟩, hmessages⟩

/-- A message is taken without others, and is with the caller when the senders are woken. -/
theorem goesIn_takeMessage (h : MessageQueue L v q) (hused : v.msgUsed q ≠ 0#32)
    (hout : out = 0#32 ∨ L.Clear out.toNat 4) {P : ω → View → Prop}
    (hwake : ∀ s, Represents L s.mem (v.dequeued q) →
      (out ≠ 0#32 → s.mem.read32 out = (v.messages q).head?) →
      C.guar g (.guest kOSWakeupThreadAddress cpu) s ∧
        ∀ g' s', C.rely g (.guest kOSWakeupThreadAddress cpu) s g' s' →
          ∃ w, Represents L s'.mem w ∧ P g' w) :
    GoesIn L C (takeMessage cpu q out) v (fun g' _ w => P g' w) g := by
  intro s hs
  obtain ⟨m, hhand, hm, hstored⟩ := handMessage_ret hs h hused hout cpu
  rw [takeMessage_eq, bind_of hhand]
  obtain ⟨hguar, hrely⟩ := hwake ((s.withMem m).setGpr cpu 3 (q + kMsgQueueSendOffset)) hm
    fun hne => by rw [(h.dequeued hused).2]; exact hstored hne
  refine meetsIn_invokeTranslatedCpu hguar fun g' s' t hs' ht => ?_
  obtain ⟨w, hw, hP⟩ := hrely g' s' hs'
  exact ⟨w, ht ▸ hw, hP⟩

/-- The loop of a receive keeps `Q` until it ends with `R`. -/
structure ReceiveRules (L : Layout) (C : Coop.WorldContract ω (Machine Memory) Away)
    (cpu : CpuPtr) (q out : Word) (block : Bool) (fuel : Nat) (Q : ω → View → Prop)
    (R : ω → Word → View → Prop) : Prop where
  queue : ∀ g v, Q g v → MessageQueue L v q
  clear : ∀ g v, Q g v → L.ContextClear v.currentContext
  clearEnd : ∀ g x v, R g x v → L.ContextClear v.currentContext
  take : ∀ g v, Q g v → v.msgUsed q ≠ 0#32 →
    GoesIn L C (takeMessage cpu q out) v (fun g' _ w => R g' 1#32 w) g
  empty : block = false → ∀ g v, Q g v → v.msgUsed q = 0#32 → R g 0#32 v
  sleep : block = true → ∀ g v, Q g v → v.msgUsed q = 0#32 → GoesIn L C (do
    setGpr cpu 3 (q + kMsgQueueRecvOffset)
    osSleepThread fuel cpu) v (fun g' _ w => Q g' w) g

theorem ReceiveRules.loop (h : ReceiveRules L C cpu q out block fuel Q R) (n : Nat) (hQ : Q g v) :
    GoesIn L C (receiveLoop fuel cpu q out block n) v (fun g' x w => R g' x w) g := by
  induction n generalizing g v with
  | zero => exact goesIn_stop _
  | succ n ih =>
    refine (runs_read (c := .word (q + kMsgQueueUsedOffset)) (h.queue g v hQ).used_mem rfl).thenIn
      ?_
    change GoesIn L C (if v.msgUsed q ≠ 0#32 then _ else _) v _ g
    by_cases hused : v.msgUsed q = 0#32
    · rw [if_neg (not_not.mpr hused)]
      cases block with
      | false => exact goesIn_pure (h.empty rfl g v hQ hused)
      | true =>
        rw [if_neg (by decide)]
        have hassoc : (do
            setGpr cpu 3 (q + kMsgQueueRecvOffset)
            osSleepThread fuel cpu
            receiveLoop fuel cpu q out true n : OS Word) = ((do
            setGpr cpu 3 (q + kMsgQueueRecvOffset)
            osSleepThread fuel cpu) >>= fun _ => receiveLoop fuel cpu q out true n) := by
          funext s
          simp only [bind_apply, Coop.bind_assoc]
        rw [hassoc]
        exact goesIn_bind (h.sleep rfl g v hQ hused) fun g' _ w hw => ih hw
    · rw [if_pos hused]
      refine goesIn_bind (h.take g v hQ hused) ?_
      intro g' _ w hw
      exact goesIn_pure hw

/-- The whole receive; its result is in r3. -/
theorem ReceiveRules.receive (h : ReceiveRules L C cpu q out block fuel Q R) (hQ : Q g v)
    (previous : Bool) {s : Machine Memory} (hs : Represents L s.mem v) :
    (receive fuel cpu q out block previous s).MeetsIn C
      (fun g' _ t => ∃ w, Represents L t.mem w ∧ R g' (t.gpr cpu 3) w) g := by
  refine Coop.meetsIn_bind.mpr ((h.loop fuel hQ s hs).mono ?_)
  rintro g' x t ⟨w, hw, hR⟩
  obtain ⟨t', hrestore, hw', _⟩ := restoreInterrupts_ret hw (h.clearEnd g' x w hR) cpu
    (stateWord previous)
  show (((restoreInterrupts cpu (stateWord previous)) >>= fun _ => setGpr cpu 3 x) t).MeetsIn _ _ _
  rw [bind_of hrestore, setGpr_apply]
  exact ⟨w, hw', by simpa using hR⟩

theorem ReceiveRules.whole {s : Machine Memory}
    (h : ReceiveRules L C cpu q (s.gpr cpu 4) (s.gpr cpu 5 &&& 1#32 ≠ 0#32) fuel Q R)
    (hL : L.Sound) (hcpu : cpu ≠ 0) (hQ : Q g v) (hs : Represents L s.mem v)
    (hq : s.gpr cpu 3 = q) : (osReceiveMessage fuel cpu s).MeetsIn C
      (fun g' _ t => ∃ w, Represents L t.mem w ∧ R g' (t.gpr cpu 3) w) g := by
  obtain ⟨m, hrun, hm, _⟩ :=
    osReceiveMessage_eq fuel hcpu ((h.queue g v hQ).ne_zero hL) hq hs (h.clear g v hQ)
  rw [hrun]
  exact h.receive hQ _ (by rw [exchanged_mem]; exact hm)

/-- The sleep of a receive, as the sleep on the queue of receivers. -/
theorem goesIn_sleepReceiver (lives : ω → Set Word) (hL : L.Sound) (hcpu : cpu ≠ 0)
    (h : Receivable L live v q) (hleaves : LeavesView L C g v.callback)
    (hand : ∀ r ∈ live, ∀ w, Reordered L live v w →
      HandsOverIn L C g w fun g' w => Q g' w ∧ r ∈ lives g')
    (hQ : ∀ g' w, Q g' w → InOrder L (lives g') w) :
    GoesIn L C (do
      setGpr cpu 3 (q + kMsgQueueRecvOffset)
      osSleepThread fuel cpu) v
      (fun g' _ w => (g' = g ∧ w = v) ∨ ∃ u, Q g' u ∧ Reordered L (lives g') u w) g := by
  obtain ⟨W, ls, r, hrun⟩ := h.inOrder
  intro s hs
  have hctx : cpuOf cpu = cpu := if_pos hcpu
  rw [bind_of (setGpr_apply ..)]
  have hq3 : (s.setGpr cpu 3 (q + kMsgQueueRecvOffset)).gpr (cpuOf cpu) 3 =
      q + kMsgQueueRecvOffset := by
    rw [hctx]
    simp
  refine (osSleepThread_meetsIn (s := s.setGpr cpu 3 (q + kMsgQueueRecvOffset)) hL hrun h.receivers
    hleaves (hand r hrun.live) (fun g' w hw => ⟨hw.2, hQ g' w hw.1⟩) hs hq3).mono ?_
  rintro g' _ t ⟨w, hw, ⟨hg, hv⟩ | ⟨u, hu, hreordered⟩⟩
  · exact ⟨w, hw, Or.inl ⟨hg, hv⟩⟩
  · exact ⟨w, hw, Or.inr ⟨u, hu.1, hreordered⟩⟩

end

/-! ## Runs of receives and appends -/

/-- The live threads, the messages that were sent, and what the receives were given, in the
order of the receives; a receive without a place for its message is given none. -/
structure MessageWorld where
  live : Set Word
  sent : List Word
  got : List (Option Word)

instance : Preorder MessageWorld where
  le g g' := g.live ⊆ g'.live ∧ g.sent <+: g'.sent ∧ g.got <+: g'.got
  le_refl g := ⟨Set.Subset.rfl, List.prefix_rfl, List.prefix_rfl⟩
  le_trans _ _ _ h h' := ⟨h.1.trans h'.1, h.2.1.trans h'.2.1, h.2.2.trans h'.2.2⟩

def MessageWorld.give (g : MessageWorld) (x : Option Word) : MessageWorld :=
  { g with got := g.got ++ [x] }

/-- The queue has the sent messages that no receive was given, and each message that was given
is the one that was sent in its turn. -/
structure Flowing (L : Layout) (q : Word) (g : MessageWorld) (v : View) : Prop where
  receivable : Receivable L g.live v q
  length : g.got.length ≤ g.sent.length
  messages : v.messages q = g.sent.drop g.got.length
  order : ∀ (i : Nat) (m : Word), g.got[i]? = some (some m) → g.sent[i]? = some m

/-- When a receive wakes the senders it has been given its message. -/
def noteReceived (out : Word) (g : MessageWorld) : Away → Machine Memory → MessageWorld
  | .guest a _, s =>
    if a = kOSWakeupThreadAddress then g.give (if out = 0#32 then none else s.mem.read32 out) else g
  | _, _ => g

/-- A call of OSReceiveMessage with the output pointer `out`. -/
def receiveOperation (fuel : Nat) (cpu : CpuPtr) (out : Word) :
    Coop.Operation MessageWorld (Machine Memory) Stop Away where
  code := osReceiveMessage fuel cpu
  note := noteReceived out
  grow g _ := g

section

variable {L : Layout} {live : Set Word} {v w : View} {q out : Word} {g g' : MessageWorld}
  {s s' : Machine Memory} {cpu : CpuPtr} {fuel : Nat}

/-- The other words do not matter to the scheduler. -/
theorem InOrder.words (h : InOrder L live v)
    (hw : ∀ c, (∀ a, c ≠ .word a) → w.word c = v.word c) (hs : w.state = v.state) :
    InOrder L live w := by
  obtain ⟨W, ls, r, hrun⟩ := h
  have hglobal : ∀ a, w.word (.global a) = v.word (.global a) := fun a => hw _ (by simp)
  have hthread : ∀ f u, w.word (.thread f u) = v.word (.thread f u) := fun f u => hw _ (by simp)
  refine ⟨W, ls, r, ?_, hrun.live, (hglobal _).trans hrun.running, (hglobal _).trans hrun.current,
    ?_, (hthread _ _).trans hrun.suspend⟩
  · refine hrun.scheduled.congr Set.Subset.rfl hrun.scheduled.runs (fun q _ => hw _ (by simp))
      (fun q _ => hw _ (by simp)) (fun u _ f => hthread f u) (fun u _ => by rw [hs]) (hglobal _) ?_
      fun _ _ _ hu => hu
    rw [hglobal]
    exact hrun.scheduled.tail
  · rw [hs]
    exact hrun.state

theorem WaitQueue.words (h : WaitQueue L live v q)
    (hw : ∀ c, (∀ a, c ≠ .word a) → w.word c = v.word c) (hs : w.state = v.state) :
    WaitQueue L live w q := by
  obtain ⟨xs, hxs, hmem⟩ := h.members
  have hnext : ∀ x, w.nextOf q x = v.nextOf q x := fun x => hw _ fun a => by
    unfold nextCell
    split <;> simp
  have hprev : ∀ x, w.prevOf q x = v.prevOf q x := fun x => hw _ fun a => by
    unfold prevCell
    split <;> simp
  refine ⟨h.isQueue, h.off, xs, hxs.congr (fun x _ => hnext x) (fun x _ => hprev x), ?_⟩
  intro x hx
  rw [hs, hw _ (by simp)]
  exact hmem x hx

theorem Receivable.words (h : Receivable L live v q)
    (hw : ∀ c, (∀ a, c ≠ .word a) → w.word c = v.word c) (hs : w.state = v.state)
    (hq : MessageQueue L w q) : Receivable L live w q :=
  have hcallback : w.callback = v.callback := hw _ (by simp)
  ⟨h.inOrder.words hw hs, hcallback ▸ h.callback, h.receivers.words hw hs, hq⟩

/-- Others that run leave what was sent and given. -/
theorem Flowing.reordered (h : Flowing L q g v) (hL : L.Sound) (hw : Reordered L g.live v w) :
    Flowing L q g w := by
  obtain ⟨hreceivable, hmessages⟩ := h.receivable.reordered hL hw
  exact ⟨hreceivable, h.length, hmessages.trans h.messages, h.order⟩

/-- A receive is given the next message. -/
theorem Flowing.take (h : Flowing L q g v) (hused : v.msgUsed q ≠ 0#32) {x : Option Word}
    (hx : x = none ∨ x = (v.messages q).head?) : Flowing L q (g.give x) (v.dequeued q) := by
  obtain ⟨hqueue, hsplit⟩ := h.receivable.queue.dequeued hused
  obtain ⟨m, ms, hmessages⟩ : ∃ m ms, v.messages q = m :: ms := ⟨_, _, hsplit⟩
  have hdrop := h.messages
  rw [hmessages] at hdrop
  have hlt : g.got.length < g.sent.length := by
    have := congrArg List.length hdrop
    rw [List.length_cons, List.length_drop] at this
    omega
  have hget := List.drop_eq_getElem_cons hlt
  rw [← hdrop] at hget
  obtain ⟨hm, hms⟩ := List.cons.inj hget
  refine ⟨h.receivable.words (fun c hc => ?_) rfl hqueue, ?_, ?_, fun i y hy => ?_⟩
  · rw [View.dequeued, View.put_word, if_neg (hc _), View.put_word, if_neg (hc _)]
  · simp only [MessageWorld.give, List.length_append, List.length_singleton]
    omega
  · rw [(List.cons.inj (hsplit.symm.trans hmessages)).2, hms]
    simp [MessageWorld.give]
  · rw [MessageWorld.give, List.getElem?_append] at hy
    split at hy
    · exact h.order i y hy
    · obtain ⟨hi, rfl⟩ : i = g.got.length ∧ x = some y := by
        cases hi : i - g.got.length with
        | zero =>
          rw [hi] at hy
          exact ⟨by omega, by simpa using hy⟩
        | succ n => simp [hi] at hy
      have hy' := hx.resolve_left (by simp)
      rw [hmessages, List.head?_cons] at hy'
      rw [hi, Option.some.inj hy', hm]
      exact List.getElem?_eq_getElem hlt

theorem receiveOperation_grows (fuel : Nat) (cpu : CpuPtr) (out : Word) :
    (receiveOperation fuel cpu out).Grows := by
  refine ⟨fun g i s => ?_, fun g _ => le_rfl⟩
  have hgive : ∀ x, g ≤ g.give x := fun x =>
    ⟨Set.Subset.rfl, List.prefix_rfl, List.prefix_append _ _⟩
  cases i with
  | guest a c =>
    show g ≤ if a = kOSWakeupThreadAddress then g.give _ else g
    split
    · exact hgive _
    · exact le_rfl
  | _ => exact le_rfl

/-- The contract of the receives: others run in a sleep and while the senders are woken. -/
abbrev receiving (L : Layout) (q out : Word) :
    Coop.WorldContract MessageWorld (Machine Memory) Away :=
  Coop.sharing (GivesAway (· = kOSWakeupThreadAddress)) (AnswersCall L) (Shows L (Flowing L q))
    (noteReceived out)

theorem receiving_rules (hL : L.Sound) (hcpu : cpu ≠ 0)
    (hout : out = 0#32 ∨ L.Clear out.toNat 4) (block : Bool) :
    ReceiveRules L (receiving L q out) cpu q out block fuel (Flowing L q)
      (fun g _ w => Flowing L q g w) where
  queue := fun _ _ h => h.receivable.queue
  clear := fun _ _ h => h.receivable.inOrder.contextClear hL
  clearEnd := fun _ _ _ h => h.receivable.inOrder.contextClear hL
  empty := fun _ _ _ h _ => h
  take := by
    intro g v h hused
    refine goesIn_takeMessage h.receivable.queue hused hout fun s hs hstored =>
      ⟨fun _ => ?_, ?_⟩
    · refine ⟨v.dequeued q, hs, ?_⟩
      show Flowing L q (if kOSWakeupThreadAddress = kOSWakeupThreadAddress then _ else g) _
      rw [if_pos rfl]
      refine h.take hused ?_
      by_cases h0 : out = 0#32
      · exact Or.inl (if_pos h0)
      · rw [if_neg h0]
        exact Or.inr (hstored h0)
    · rintro g' s' (⟨_, _, w, hw, hflow⟩ | ⟨hi, _⟩)
      · exact ⟨w, hw, hflow⟩
      · exact absurd rfl hi
  sleep := by
    intro _ g v h _
    have hleaves : LeavesView L (receiving L q out) g v.callback :=
      leavesView_sharing (by decide) h.receivable.callback
    refine (goesIn_sleepReceiver MessageWorld.live (Q := Flowing L q) hL hcpu h.receivable hleaves
      (fun r hr w hw => ?_) fun _ _ hw => hw.receivable.inOrder).mono ?_
    · refine (handsOverIn_sharing (fun _ _ _ _ => rfl) (fun _ _ _ => rfl)
        (h.reordered hL hw)).mono ?_
      rintro g' u ⟨hg, hu⟩
      exact ⟨hu, hg.1 hr⟩
    · rintro g' _ w (⟨rfl, rfl⟩ | ⟨u, hu, hw⟩)
      · exact h
      · exact hu.reordered hL hw

/-- A receive that a thread begins. -/
def BeginsReceive (L : Layout) (q : Word) (_ : MessageWorld) (s : Machine Memory)
    (x : Coop.Operation MessageWorld (Machine Memory) Stop Away) : Prop :=
  ∃ fuel cpu, cpu ≠ 0 ∧ s.gpr cpu 3 = q ∧
    (s.gpr cpu 4 = 0#32 ∨ L.Clear (s.gpr cpu 4).toNat 4) ∧
    x = receiveOperation fuel cpu (s.gpr cpu 4)

/-- What else happens: others change the machine, and leave the scheduler in order and the words
of the layout as they are, but for one append where the ring is not full. -/
def AppendsOrLeaves (L : Layout) (q : Word) (g : MessageWorld) (s : Machine Memory)
    (g' : MessageWorld) (s' : Machine Memory) : Prop :=
  ∃ v w, Represents L s.mem v ∧ Represents L s'.mem w ∧ InOrder L g'.live w ∧
    WaitQueue L g'.live w (q + kMsgQueueRecvOffset) ∧ w.callback ≠ kOSWakeupThreadAddress ∧
    g.live ⊆ g'.live ∧ g'.got = g.got ∧
    ((g'.sent = g.sent ∧ ∀ a ∈ L.words, w.word (.word a) = v.word (.word a)) ∨
      ∃ m, (v.msgUsed q).toNat < (v.msgCount q).toNat ∧ g'.sent = g.sent ++ [m] ∧
        ∀ a ∈ L.words, w.word (.word a) = (v.appended q m).word (.word a))

/-- A run begins with any well-formed queue, whose messages count as sent. -/
def StartsReceiving (L : Layout) (q : Word) (g : MessageWorld) (s : Machine Memory) : Prop :=
  ∃ v, Represents L s.mem v ∧ Receivable L g.live v q ∧ g.sent = v.messages q ∧ g.got = []

/-- The runs of receives and appends on one queue, by any threads. -/
abbrev MessageRun (L : Layout) (q : Word) :
    Coop.Pool MessageWorld (Machine Memory) Stop Away → Prop :=
  Coop.PoolRun (GivesAway (· = kOSWakeupThreadAddress)) (AnswersCall L) (StartsReceiving L q)
    (BeginsReceive L q) (AppendsOrLeaves L q)

/-- Two views of one memory agree on the words. -/
theorem Represents.same_words {m : Memory} (hv : Represents L m v)
    (hw : Represents L m w) {a : Word} (ha : a ∈ L.words) : w.word (.word a) = v.word (.word a) :=
  (hw.viewOf_word (c := .word a) ha).symm.trans (hv.viewOf_word (c := .word a) ha)

theorem Flowing.other (h : Flowing L q g v) (hL : L.Sound) (hv : Represents L s.mem v)
    (ho : AppendsOrLeaves L q g s g' s') : g ≤ g' ∧ Shows L (Flowing L q) g' s' := by
  obtain ⟨v', w, hv', hw, horder, hreceivers, hcallback, hlive, hgot, hchange⟩ := ho
  obtain ⟨hqueue', hmessages'⟩ := h.receivable.queue.congr fun a ha => hv.same_words hv' ha
  have hmessages := hmessages'.trans h.messages
  rcases hchange with ⟨hsent, hwords⟩ | ⟨m, hroom, hsent, hwords⟩
  · obtain ⟨hqueue, hsame⟩ := hqueue'.congr hwords
    refine ⟨⟨hlive, hsent ▸ List.prefix_rfl, hgot ▸ List.prefix_rfl⟩, w, hw,
      ⟨horder, hcallback, hreceivers, hqueue⟩, ?_, ?_, ?_⟩
    · rw [hgot, hsent]
      exact h.length
    · rw [hgot, hsent]
      exact hsame.trans hmessages
    · rw [hgot, hsent]
      exact h.order
  · obtain ⟨happended, hmore⟩ := hqueue'.appended hL hroom m
    obtain ⟨hqueue, hsame⟩ := happended.congr hwords
    refine ⟨⟨hlive, hsent ▸ List.prefix_append _ _, hgot ▸ List.prefix_rfl⟩, w, hw,
      ⟨horder, hcallback, hreceivers, hqueue⟩, ?_, ?_, fun i x hx => ?_⟩
    · rw [hgot, hsent, List.length_append]
      have := h.length
      omega
    · rw [hgot, hsent, hsame, hmore, hmessages, List.drop_append_of_le_length h.length]
    · have hold := h.order i x (hgot ▸ hx)
      obtain ⟨hlt, _⟩ := List.getElem?_eq_some_iff.mp hold
      rw [hsent, List.getElem?_append_left hlt]
      exact hold

/-- In every run the queue has the sent messages that no receive was given, and each message
that was given was sent in its turn. -/
theorem MessageRun.flowing (hL : L.Sound) {p : Coop.Pool MessageWorld (Machine Memory) Stop Away}
    (h : MessageRun L q p) : Shows L (Flowing L q) p.world p.state := by
  refine (Coop.PoolRun.keeps (Shows L (Flowing L q)) ?_ ?_ ?_ h).1
  · rintro g s ⟨v, hv, hreceivable, hsent, hgot⟩
    exact ⟨v, hv, hreceivable, by simp [hgot], by simp [hgot, hsent], by simp [hgot]⟩
  · rintro g s g' s' ⟨v, hv, hflow⟩ ho
    exact hflow.other hL hv ho
  · rintro g s _ ⟨v, hv, hflow⟩ ⟨fuel, cpu, hcpu, hq, hout, rfl⟩
    refine ⟨receiveOperation_grows fuel cpu _, ?_⟩
    exact (receiving_rules hL hcpu hout _).whole hL hcpu hflow hv hq

end

/-! ## What a receive that blocks finds -/

/-- The live threads, the messages that a receive found when it last went on, and the message
that it has taken. -/
structure Finding where
  live : Set Word
  found : List Word
  taken : Option Word

/-- What a receive with the output pointer `out` relies on, whatever others do while it sleeps:
the scheduler and the queue are well-formed when it goes on. It takes the first message that
it found, which is with the caller when the senders are woken. -/
def findsOldest (L : Layout) (q out : Word) : Coop.WorldContract Finding (Machine Memory) Away where
  rely g i s g' s' :=
    match i with
    | .guest a c =>
      if a = kOSWakeupThreadAddress then g' = { g with taken := g.found.head? } ∧
        ∃ w, Represents L s'.mem w ∧ L.ContextClear w.currentContext
      else g' = g ∧ SameView L s s' ∧ (a = kOSSaveContextAddress → s'.gpr c 3 = 0#32)
    | .jump _ _ => True
    | .host _ => g.live ⊆ g'.live ∧ g'.taken = g.taken ∧ ∃ w, Represents L s'.mem w ∧
      Receivable L g'.live w q ∧ g'.found = w.messages q
  guar g i s :=
    match i with
    | .guest a _ =>
      a = kOSWakeupThreadAddress → g.taken = none ∧ ∃ m ms, g.found = m :: ms ∧
      (out ≠ 0#32 → s.mem.read32 out = some m) ∧ (viewOf s.mem).messages q = ms
    | _ => True

/-- What holds while a receive has taken nothing. -/
structure Looking (L : Layout) (q : Word) (g : Finding) (v : View) : Prop where
  receivable : Receivable L g.live v q
  found : g.found = v.messages q
  taken : g.taken = none

/-- How a receive ends: with the first message that it found, or with none if it found none and
does not block. -/
def Ended (L : Layout) (block : Bool) (g : Finding) (r3 : Word) (v : View) : Prop :=
  L.ContextClear v.currentContext ∧
    ((r3 = 1#32 ∧ ∃ m ms, g.found = m :: ms ∧ g.taken = some m) ∨
      (block = false ∧ r3 = 0#32 ∧ g.found = [] ∧ g.taken = none))

section

variable {L : Layout} {v w : View} {q out : Word} {g : Finding} {s : Machine Memory}
  {cpu : CpuPtr} {fuel : Nat}

theorem Looking.reordered (h : Looking L q g v) (hL : L.Sound) (hw : Reordered L g.live v w) :
    Looking L q g w := by
  obtain ⟨hreceivable, hmessages⟩ := h.receivable.reordered hL hw
  exact ⟨hreceivable, h.found.trans hmessages.symm, h.taken⟩

theorem findsOldest_leaves (hcallback : v.callback ≠ kOSWakeupThreadAddress) :
    LeavesView L (findsOldest L q out) g v.callback where
  guar := by
    rintro a c s (rfl | rfl) ha
    · exact absurd ha (by decide)
    · exact absurd ha hcallback
  rely := by
    rintro a c s g' s' ha hs
    have hne : a ≠ kOSWakeupThreadAddress := by
      rcases ha with rfl | rfl
      · decide
      · exact hcallback
    change (if a = kOSWakeupThreadAddress then _ else _) at hs
    rwa [if_neg hne] at hs

theorem Looking.handsOver (h : Looking L q g v) {r : Word} (hr : r ∈ g.live) :
    HandsOverIn L (findsOldest L q out) g v fun g' w => Looking L q g' w ∧ r ∈ g'.live where
  guar_jump := fun _ _ _ _ => trivial
  guar_host := fun _ _ _ => trivial
  host := by
    rintro i s g' s' _ ⟨hlive, htaken, w, hw, hreceivable, hfound⟩
    exact ⟨w, hw, ⟨hreceivable, hfound, htaken.trans h.taken⟩, hlive hr⟩
  stay := ⟨h, hr⟩

theorem finding_rules (hL : L.Sound) (hcpu : cpu ≠ 0) (hout : out = 0#32 ∨ L.Clear out.toNat 4)
    (block : Bool) : ReceiveRules L (findsOldest L q out) cpu q out block fuel (Looking L q)
      (Ended L block) where
  queue := fun _ _ h => h.receivable.queue
  clear := fun _ _ h => h.receivable.inOrder.contextClear hL
  clearEnd := fun _ _ _ h => h.1
  empty := by
    rintro hblock g v h hused
    have hnil := (MessageQueue.used_eq_zero_iff v q).mp hused
    exact ⟨h.receivable.inOrder.contextClear hL,
      Or.inr ⟨hblock, rfl, h.found.trans hnil, h.taken⟩⟩
  take := by
    intro g v h hused
    obtain ⟨hqueue, hsplit⟩ := h.receivable.queue.dequeued hused
    have hfound := h.found.trans hsplit
    refine goesIn_takeMessage h.receivable.queue hused hout fun s hs hstored =>
      ⟨fun _ => ?_, ?_⟩
    · refine ⟨h.taken, _, _, hfound, fun hne => (hstored hne).trans (congrArg List.head? hsplit),
        ?_⟩
      exact (hqueue.congr fun a ha => hs.viewOf_word (c := .word a) ha).2
    · rintro g' s' hs'
      obtain ⟨rfl, w, hw, hclear⟩ : g' = { g with taken := g.found.head? } ∧
          ∃ w, Represents L s'.mem w ∧ L.ContextClear w.currentContext := by
        simpa only [findsOldest, if_true] using hs'
      refine ⟨w, hw, hclear, Or.inl ⟨rfl, _, _, hfound, ?_⟩⟩
      exact congrArg List.head? hfound
  sleep := by
    intro _ g v h _
    refine (goesIn_sleepReceiver Finding.live (Q := Looking L q) hL hcpu h.receivable
      (findsOldest_leaves h.receivable.callback)
      (fun r hr w hw => (h.reordered hL hw).handsOver hr) fun _ _ hw => hw.receivable.inOrder).mono
        ?_
    rintro g' _ w (⟨rfl, rfl⟩ | ⟨u, hu, hw⟩)
    · exact h
    · exact hu.reordered hL hw

/-- A receive that blocks returns 1 with the oldest message that it found when it went on. -/
theorem blocking_receive (hL : L.Sound) (hs : Represents L s.mem v) {live : Set Word}
    (h : Receivable L live v q) (hcpu : cpu ≠ 0) (hq : s.gpr cpu 3 = q)
    (hout : s.gpr cpu 4 = 0#32 ∨ L.Clear (s.gpr cpu 4).toNat 4)
    (hblock : s.gpr cpu 5 &&& 1#32 ≠ 0#32) :
    (osReceiveMessage fuel cpu s).MeetsIn (findsOldest L q (s.gpr cpu 4))
      (fun g _ t => t.gpr cpu 3 = 1#32 ∧ ∃ m ms, g.found = m :: ms ∧ g.taken = some m)
      ⟨live, v.messages q, none⟩ := by
  refine ((finding_rules hL hcpu hout _).whole hL hcpu ⟨h, rfl, rfl⟩ hs hq).mono ?_
  rintro g _ t ⟨w, _, _, hend | ⟨hfalse, _⟩⟩
  · exact hend
  · exact absurd hblock (by simpa using hfalse)

/-- The contract under which OSWakeupThread leaves the words of the layout and returns. -/
def leavesWords (L : Layout) : Coop.Contract (Machine Memory) Stop Away where
  guar _ _ := True
  rely _ s s' := Serves L.config s'.mem ∧ L.ContextClear (viewOf s'.mem).currentContext ∧
    ∀ a ∈ L.words, (viewOf s'.mem).word (.word a) = (viewOf s.mem).word (.word a)
  stops _ _ := False

/-- A message that goes to the word of the header that has the number of messages. -/
theorem receive_into_header (hL : L.Sound) (hs : Represents L s.mem v)
    (hc : L.ContextClear v.currentContext) (h : MessageQueue L v q) {m : Word} {ms : List Word}
    (hmessages : v.messages q = m :: ms) (hcpu : cpu ≠ 0) (hq : s.gpr cpu 3 = q)
    (hout : s.gpr cpu 4 = q + kMsgQueueUsedOffset) {mask : Word}
    (hfun : s.translated kOSWakeupThreadAddress = some mask) :
    (osReceiveMessage (fuel + 1) cpu s).Meets (leavesWords L) fun _ t =>
      (viewOf t.mem).msgUsed q = m ∧ (viewOf t.mem).msgCount q = v.msgCount q := by
  have hused : v.msgUsed q ≠ 0#32 := by
    rw [Ne, MessageQueue.used_eq_zero_iff, hmessages]
    exact List.cons_ne_nil _ _
  obtain ⟨hfirst, _⟩ := List.cons.inj (hmessages.symm.trans (h.dequeued hused).2)
  have hout0 : q + kMsgQueueUsedOffset ≠ 0#32 := hL.nonnull (.word _) h.used_mem
  obtain ⟨m₁, hrun, hm₁, _⟩ := osReceiveMessage_eq (fuel + 1) hcpu (h.ne_zero hL) hq hs hc
  obtain ⟨m₂, htake, hm₂⟩ := runs_dequeueMessage h hused (exchanged s cpu false m₁)
    (by rw [exchanged_mem]; exact hm₁)
  obtain ⟨m₃, hw, hm₃⟩ := hm₂.write (c := .word (q + kMsgQueueUsedOffset)) h.used_mem m
  have hhand : handMessage cpu q (q + kMsgQueueUsedOffset) (exchanged s cpu false m₁) =
      .ret ()
        (((exchanged s cpu false m₁).withMem m₃).setGpr cpu 3 (q + kMsgQueueSendOffset)) := by
    have hwrite : write32 (q + kMsgQueueUsedOffset) m ((exchanged s cpu false m₁).withMem m₂) =
        .ret () ((exchanged s cpu false m₁).withMem m₃) := write32_ret hw
    unfold handMessage
    rw [bind_of htake, ← hfirst, bind_apply, onlyIf_apply, if_pos (by simpa using hout0), hwrite]
    rfl
  have hread : (exchanged s cpu false m₁).mem.read32 (q + kMsgQueueUsedOffset) =
      some (v.msgUsed q) := by
    rw [exchanged_mem]
    exact hm₁.words (.word (q + kMsgQueueUsedOffset)) h.used_mem
  have htranslated : (((exchanged s cpu false m₁).withMem m₃).setGpr cpu 3
      (q + kMsgQueueSendOffset)).translated kOSWakeupThreadAddress = some mask := by
    rw [← hfun]
    unfold exchanged
    rw [if_pos hcpu]
    rfl
  rw [hrun, receive, receiveLoop, bind_apply, bind_of (read32_ret hread), Routine.ite_apply,
    if_pos hused, takeMessage_eq, hout, bind_apply, bind_of hhand, Coop.bind_assoc]
  refine Coop.meets_bind.mpr (meets_invokeTranslatedCpu (fun hnone => ?_) trivial ?_)
  · rw [htranslated] at hnone
    exact Option.some_ne_none _ hnone
  rintro s' t ⟨hserves, hclear, hwords⟩ ht
  rw [← ht] at hserves hclear hwords
  obtain ⟨t', hrestore, hrep, _⟩ :=
    restoreInterrupts_ret (represents_viewOf hL hserves) hclear cpu
    (stateWord s.interruptsEnabled)
  rw [pure_apply, Coop.bind_ret, bind_of hrestore, setGpr_apply]
  have hword : ∀ a ∈ L.words, (viewOf t'.mem).word (.word a) =
      ((v.dequeued q).put (.word (q + kMsgQueueUsedOffset)) m).word (.word a) := by
    intro a ha
    have hsame := (hrep.viewOf_word (c := .word a) ha).trans (hwords a ha)
    exact hsame.trans (hm₃.viewOf_word (c := .word a) ha)
  constructor
  · refine (hword _ h.used_mem).trans ?_
    rw [View.put_word, if_pos rfl]
  · refine (hword _ h.count_mem).trans ?_
    rw [View.put_word, if_neg (header_ne (by decide) q)]
    exact View.dequeued_count v q

end

/-! ## The law -/

/-- Receives on the message queue `q` are first in, first out. -/
structure ReceivesInOrder (L : Layout) (q : Word) : Prop where
  /-- OS__InitMessageQueue makes an empty queue. -/
  init : ∀ {v s cpu}, Represents L s.mem v → cpu ≠ 0 → s.gpr cpu 3 = q →
    L.IsQueue (q + kMsgQueueSendOffset) → L.IsQueue (q + kMsgQueueRecvOffset) →
    (∀ o ∈ ringOffsets, q + o ∈ L.words) →
    (∀ i < (s.gpr cpu 5).toNat, slotAddr (s.gpr cpu 4) i ∈ L.words ∧
      ∀ o ∈ ringOffsets, slotAddr (s.gpr cpu 4) i ≠ q + o) →
    InOneRegion L.config q.toNat kQueueSize →
    ∃ m w, osInitMessageQueue cpu s = .ret () (s.withMem m) ∧ Represents L m w ∧
      MessageQueue L w q ∧ w.messages q = []
  /-- A receive takes the oldest message. -/
  oldest : ∀ {v s cpu m ms} (fuel : Nat), Represents L s.mem v →
    L.ContextClear v.currentContext → MessageQueue L v q →
    v.messages q = m :: ms → cpu ≠ 0 →
    s.gpr cpu 3 = q → (s.gpr cpu 4 = 0#32 ∨ L.Clear (s.gpr cpu 4).toNat 4) →
    (osReceiveMessage (fuel + 1) cpu s).Meets (wakesSenders L q (s.gpr cpu 4) m ms) fun _ t =>
      t.gpr cpu 3 = 1#32 ∧ ∃ w, Represents L t.mem w ∧
        MessageQueue L w q ∧ w.messages q = ms
  /-- A receive that does not block leaves an empty queue alone. -/
  none : ∀ {v s cpu} (fuel : Nat), Represents L s.mem v → L.ContextClear v.currentContext →
    MessageQueue L v q → v.messages q = [] → cpu ≠ 0 → s.gpr cpu 3 = q →
    s.gpr cpu 5 &&& 1#32 = 0#32 → ∃ t, osReceiveMessage (fuel + 1) cpu s = .ret () t ∧
      t.gpr cpu 3 = 0#32 ∧ MirrorOnly L.config s.mem t.mem
  /-- Over a run the messages come out once each, in the order in which they were sent. -/
  runs : ∀ {p}, MessageRun L q p → Shows L (Flowing L q) p.world p.state
  /-- A receive that blocks returns with the oldest message that it found when it went on. -/
  blocking : ∀ {v s cpu live} (fuel : Nat), Represents L s.mem v →
    Receivable L live v q → cpu ≠ 0 →
    s.gpr cpu 3 = q → (s.gpr cpu 4 = 0#32 ∨ L.Clear (s.gpr cpu 4).toNat 4) →
    s.gpr cpu 5 &&& 1#32 ≠ 0#32 →
    (osReceiveMessage fuel cpu s).MeetsIn (findsOldest L q (s.gpr cpu 4))
      (fun g _ t => t.gpr cpu 3 = 1#32 ∧ ∃ m ms, g.found = m :: ms ∧ g.taken = some m)
      ⟨live, v.messages q, Option.none⟩

/-- A thread, and a message queue at `0x80500000` with one slot. -/
def messageLayout : Layout :=
  (wiiLayout [0x80400000#32] [0x80500000#32, 0x80500008#32] []).withWords
    [0x80500010#32, 0x80500014#32, 0x80500018#32, 0x8050001C#32, 0x80500020#32]

/-- The slot has the message 5. -/
def messageCells : List (Cell × Word) :=
  [(.word 0x80500010#32, 0x80500020#32), (.word 0x80500014#32, 1#32), (.word 0x8050001C#32, 1#32),
    (.word 0x80500020#32, 5#32)]

def messageView : View := View.ofList messageCells []

theorem messageLayout_sound : messageLayout.Sound :=
  sound_of_fit rfl (fun _ => mem_blocksOf_withWords) (by decide +kernel)

theorem messageView_queue : MessageQueue messageLayout messageView 0x80500000#32 := by
  have harray : messageView.msgArray 0x80500000#32 = 0x80500020#32 := by decide +kernel
  have hcount : (messageView.msgCount 0x80500000#32).toNat = 1 := by decide +kernel
  refine ⟨Or.inl (Or.inr ?_), Or.inl (Or.inr ?_), ?_, ?_, ?_, ?_⟩
  · exact List.mem_cons_self
  · exact List.mem_cons_of_mem _ List.mem_cons_self
  · simp [ringOffsets, messageLayout, Layout.withWords, kMsgQueueArrayOffset, kMsgQueueCountOffset,
      kMsgQueueFirstOffset, kMsgQueueUsedOffset]
  · intro i hi
    obtain rfl : i = 0 := by omega
    rw [harray]
    simp [messageLayout, Layout.withWords, slotAddr]
  · intro i hi
    obtain rfl : i = 0 := by omega
    rw [harray]
    simp [ringOffsets, slotAddr, kMsgQueueArrayOffset, kMsgQueueCountOffset, kMsgQueueFirstOffset,
      kMsgQueueUsedOffset]
  · have hfirst : (messageView.msgFirst 0x80500000#32).toNat = 0 := by decide +kernel
    have hused : (messageView.msgUsed 0x80500000#32).toNat = 1 := by decide +kernel
    rw [hcount, hfirst, hused]
    exact ⟨le_rfl, Or.inl (by decide)⟩

theorem messageView_messages : messageView.messages 0x80500000#32 = [5#32] := by decide +kernel

theorem messageView_clear : messageLayout.ContextClear messageView.currentContext :=
  Or.inl (by decide +kernel)

/-- A Wii with that queue, where OSWakeupThread is a translated function. -/
theorem exists_message (out : Word) : ∃ s : Machine Memory,
    Represents messageLayout s.mem messageView ∧ s.gpr 1 3 = 0x80500000#32 ∧ s.gpr 1 4 = out ∧
      s.translated kOSWakeupThreadAddress = some 0#32 := by
  obtain ⟨m, hm⟩ := exists_view messageLayout_sound rfl messageCells []
    (by simp [messageCells, messageLayout, Layout.withWords, Layout.HasCell]) (by simp)
  obtain ⟨s, hs⟩ : ∃ s : Machine Memory,
      s = { bootMachine m with translated := fun _ => some 0#32 } :=
    ⟨_, rfl⟩
  refine ⟨(s.setGpr 1 3 0x80500000#32).setGpr 1 4 out, ?_, by simp, by simp, ?_⟩
  · rw [hs]
    exact hm
  · rw [hs]
    rfl

end wii_switch
