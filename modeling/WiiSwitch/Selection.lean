-- SelectThread as a scheduler of fixed priorities. The view of the run queues refines
-- the queues by level: the running thread arrives at the end of its level, and the
-- thread that is served first leaves from the front of its own.
import WiiSwitch.Lib.Levels
import WiiSwitch.Scheduler
import WiiSwitch.WiiLayout

namespace wii_switch

open OS Routine Ring SelectThread Levels

/-! ## The run queues -/

/-- The run queues hold ready threads of their priority, and the mask says which of
them have any. -/
structure ReadyQueues (L : Layout) (v : View) (qs : Fin 32 → List Word) : Prop where
  queue : ∀ p, v.Queue (runQueue p) (qs p)
  threads : ∀ p, ∀ t ∈ qs p, t ∈ L.threads
  ready : ∀ p, ∀ t ∈ qs p, v.state t = kThreadStateReady
  priority : ∀ p, ∀ t ∈ qs p, v.word (.thread .priority t) = level p
  mask : ∀ p, maskBit v.mask p = true ↔ qs p ≠ []

section

variable {L : Layout} {v w : View} {qs : Fin 32 → List Word} {p p' : Fin 32} {t u : Word}

/-- A thread is in one run queue at most. -/
theorem ReadyQueues.level_eq (h : ReadyQueues L v qs) (ht : t ∈ qs p)
    (ht' : t ∈ qs p') : p = p' :=
  level_inj.mp ((h.priority p t ht).symm.trans (h.priority p' t ht'))

theorem ReadyQueues.congr (h : ReadyQueues L v qs)
    (hw : ∀ c, L.HasCell c → w.word c = v.word c)
    (hs : ∀ t ∈ L.threads, w.state t = v.state t) :
    ReadyQueues L w qs := by
  have hmask : w.mask = v.mask := hw (.global kSchedulerPendingFlagAddr) pendingFlag_mem
  refine ⟨fun p => ?_, h.threads, fun p t ht => ?_, fun p t ht => ?_, fun p => ?_⟩
  · refine (h.queue p).congr (fun x hx => ?_) fun x hx => ?_
    · exact hw _ (hasCell_next (isQueue_runQueue L p) (threadOrNone_of_mem (h.threads p) hx))
    · exact hw _ (hasCell_prev (isQueue_runQueue L p) (threadOrNone_of_mem (h.threads p) hx))
  · rw [hs t (h.threads p t ht)]
    exact h.ready p t ht
  · rw [hw (.thread .priority t) (h.threads p t ht)]
    exact h.priority p t ht
  · rw [hmask]
    exact h.mask p

theorem ReadyQueues.viewOf {m : Memory} (h : ReadyQueues L v qs) (hm : Represents L m v) :
    ReadyQueues L (viewOf m) qs :=
  h.congr (fun _ hc => hm.viewOf_word hc) fun _ ht => hm.viewOf_state ht

/-- A global word other than the mask. -/
theorem ReadyQueues.put (h : ReadyQueues L v qs) {a : Word} (ha : a ≠ kSchedulerPendingFlagAddr)
    (x : Word) : ReadyQueues L (v.put (.global a) x) qs := by
  refine ⟨fun p => (h.queue p).put (c := .global a) trivial x, h.threads, h.ready, fun p t ht =>
    ?_, fun p => ?_⟩
  · rw [View.put_word, if_neg (by simp)]
    exact h.priority p t ht
  · rw [View.mask, View.put_word, if_neg (by simpa using ha.symm)]
    exact h.mask p

theorem ReadyQueues.publish (h : ReadyQueues L v qs) (t : Word) : ReadyQueues L (v.publish t) qs :=
  ((h.put (by decide) _).put (by decide) _).put (by decide) _

/-- The running thread arrives at the end of its level. -/
theorem ReadyQueues.requeue (h : ReadyQueues L v qs) (ht : t ∈ L.threads) (ht0 : t ≠ 0#32)
    (hout : ∀ p, t ∉ qs p) (hp : v.word (.thread .priority t) = level p) :
    ReadyQueues L (v.requeue t p) (arrive qs p t) := by
  have hsame : (v.putState t kThreadStateReady).Queue (runQueue p) (qs p ++ []) := by
    rw [List.append_nil]
    exact h.queue p
  refine ⟨fun p' => ?_, fun p' u hu => ?_, fun p' u hu => ?_, fun p' u hu => ?_, fun p' => ?_⟩
  · refine View.Queue.put (c := .global kSchedulerReschedCounterAddr)
      (View.Queue.congr (v := (v.putState t kThreadStateReady).linkBefore (runQueue p) t 0#32) ?_
        (fun x _ => by simp) fun x _ => by simp) trivial _
    by_cases hpp : p' = p
    · subst hpp
      rw [arrive_same]
      exact hsame.linkBefore ht0 (by simpa using hout p') rfl
    · rw [arrive_other hpp]
      refine (h.queue p').linkBefore_other (by simpa [runQueue_inj] using hpp) hsame rfl ht0
        (hout p') fun x hx hx' => hpp ?_
      exact h.level_eq hx' (by simpa using hx)
  · rcases mem_arrive.mp hu with hu | ⟨rfl, rfl⟩
    · exact h.threads p' u hu
    · exact ht
  · rcases mem_arrive.mp hu with hu | ⟨rfl, rfl⟩
    · have hut : u ≠ t := fun he => hout p' (he ▸ hu)
      simpa [View.requeue, hut] using h.ready p' u hu
    · simp [View.requeue]
  · rw [View.requeue_plain (by simp [Cell.Plain]) (by simp) (by simp) (by simp)]
    rcases mem_arrive.mp hu with hu | ⟨rfl, rfl⟩
    · exact h.priority p' u hu
    · exact hp
  · have hmask : (v.requeue t p).mask = v.mask ||| pendingBit (level p) := by
      rw [View.requeue, View.mask, View.put_word, if_neg (by decide)]
      exact View.setMask_mask _ _
    rw [hmask, maskBit_mark, Bool.or_eq_true, h.mask, decide_eq_true_eq]
    by_cases hpp : p' = p
    · subst hpp
      simp
    · simp [arrive_other hpp, hpp]

/-- The thread that is served leaves its level. -/
theorem ReadyQueues.take (h : ReadyQueues L v qs) (ht : Served qs p t) :
    ReadyQueues L (v.take p t) (leave qs p) := by
  obtain ⟨xs, hxs⟩ := ht.split
  have hq := h.queue p
  rw [hxs] at hq
  have hnd : t ∉ xs := by
    have := (List.nodup_cons.mp hq.2).2
    exact (List.nodup_cons.mp this).1
  have hmem : ∀ {p' u}, u ∈ leave qs p p' → u ≠ t := by
    rintro p' u hu rfl
    by_cases hpp : p' = p
    · subst hpp
      rw [leave_same, hxs] at hu
      exact hnd hu
    · exact hpp (h.level_eq (mem_of_mem_leave hu) ht.mem)
  refine ⟨fun p' => ?_, fun p' u hu => ?_, fun p' u hu => ?_, fun p' u hu => ?_, fun p' => ?_⟩
  · refine View.Queue.putState (View.Queue.put (c := .thread .queue t) ?_ (by simp [Cell.Plain]) _)
      _ _
    by_cases hpp : p' = p
    · subst hpp
      rw [leave_same, hxs, List.tail_cons, ← List.nil_append xs]
      rw [← List.nil_append (t :: xs)] at hq
      exact hq.unlink (fun x _ => by simp) fun x _ => by simp
    · rw [leave_other hpp]
      rw [← List.nil_append (t :: xs)] at hq
      refine (h.queue p').unlink_other (by simpa [runQueue_inj] using hpp) hq
        (fun x hx hx' => hpp ?_)
        (fun x _ => by simp) fun x _ => by simp
      exact h.level_eq hx' (by rwa [hxs])
  · exact h.threads p' u (mem_of_mem_leave hu)
  · have hut := hmem hu
    simpa [View.take, hut] using h.ready p' u (mem_of_mem_leave hu)
  · have hut := hmem hu
    rw [View.take_plain (by simp [Cell.Plain]) (by simp) (by simp)]
    exact h.priority p' u (mem_of_mem_leave hu)
  · rw [View.take_maskBit hq, Bool.and_eq_true, h.mask]
    by_cases hpp : p' = p
    · subst hpp
      simp [hxs]
    · simp [leave_other hpp, hpp]

theorem ReadyQueues.mask_zero (h : ReadyQueues L v qs) : v.mask = 0#32 ↔ ∀ p, qs p = [] := by
  rw [mask_eq_zero]
  refine forall_congr' fun p => ?_
  rw [← Bool.not_eq_true, h.mask, not_not]

/-- The leading zeros of the mask give the level that is served. -/
theorem ReadyQueues.cntlzw (h : ReadyQueues L v qs) (ht : Served qs p t) :
    v.mask ≠ 0#32 ∧ ppcCntlzw v.mask = level p := by
  have hne : v.mask ≠ 0#32 := fun h0 => by
    have := ht.mem
    rw [h.mask_zero.mp h0 p] at this
    exact List.not_mem_nil this
  obtain ⟨p₀, hp₀, hbit, hleast⟩ := cntlzw_spec hne
  obtain ⟨u, xs, hu⟩ := List.exists_cons_of_ne_nil ((h.mask p₀).mp hbit)
  have hserved : Served qs p₀ u := ⟨by rw [hu]; rfl, fun p' hp' => ?_⟩
  · exact ⟨hne, (hserved.unique ht).1 ▸ hp₀⟩
  · by_contra hne'
    exact Bool.false_ne_true ((hleast p' hp').symm.trans ((h.mask p').mpr hne'))

/-- The comparison of the priorities, on the queues. -/
theorem ReadyQueues.keeps_iff (h : ReadyQueues L v qs)
    (hp : v.word (.thread .priority t) = level p) (force : Word) :
    v.keeps t force = true ↔ force = 0#32 ∧ ∀ p' < p, qs p' = [] := by
  rw [View.keeps, decide_eq_true_eq, hp, level_toInt]
  refine and_congr_right fun _ => ?_
  by_cases h0 : v.mask = 0#32
  · rw [if_pos h0]
    refine iff_of_true ?_ fun p' _ => h.mask_zero.mp h0 p'
    rw [show (32#32).toInt = 32 from rfl]
    omega
  · rw [if_neg h0]
    have hsome : ∃ p, qs p ≠ [] := by
      by_contra hall
      exact h0 (h.mask_zero.mpr fun p => not_not.mp fun hp => hall ⟨p, hp⟩)
    obtain ⟨p₀, u, hserved⟩ := exists_served hsome
    rw [(h.cntlzw hserved).2, level_toInt]
    refine ⟨fun hle p' hp' => hserved.least p' (lt_of_lt_of_le hp' ?_), fun hall => ?_⟩
    · rw [Fin.le_def]
      omega
    · by_contra hlt
      have hmem := hserved.mem
      rw [hall p₀ (by rw [Fin.lt_def]; omega)] at hmem
      exact List.not_mem_nil hmem

/-! ## The switch -/

variable {C : Coop.Contract (Machine Memory) Stop Away} {cpu : CpuPtr} {fuel : Nat}

/-- The thread `t` of level `p` taken off its queue and published. -/
def View.selected (v : View) (p : Fin 32) (t : Word) : View :=
  ((v.put (.global kSchedulerReschedCounterAddr) 0#32).take p t).publish t

/-- From the loop on: the thread that is served first is taken and published, and the
machine is handed over to it. -/
theorem goes_switchThread (hL : L.Sound) (hcpu : cpu ≠ 0) (hfuel : 0 < fuel)
    (h : ReadyQueues L v qs) (ht : Served qs p t) (old : Word) {Q : View → Prop}
    (hguar : ∀ a w s, v.word (.global kSwitchThreadCallbackPtrAddr) ≠ 0#32 →
      Represents L s.mem w →
      C.guar (.guest a cpu) s)
    (hrely : ∀ a w s s', v.word (.global kSwitchThreadCallbackPtrAddr) ≠ 0#32 →
      Represents L s.mem w → C.rely (.guest a cpu) s s' → Represents L s'.mem w)
    (hand : HandsOver L C (v.selected p t) Q)
    (hQ : ∀ w, Q w → ∀ kind a s, Represents L s.mem w → C.stops (.boundary kind a) s) :
    Goes L C (switchThread fuel cpu old) v fun _ w => Q w := by
  obtain ⟨xs, hxs⟩ := ht.split
  have hmem := h.threads p t ht.mem
  have hq : v.Queue (runQueue p) (t :: xs) := hxs ▸ h.queue p
  obtain ⟨hmask, hcntlzw⟩ := h.cntlzw ht
  have hlive : v.state t ≠ 0#16 ∧ v.state t ≠ kThreadStateMoribund := by
    rw [h.ready p t ht.mem]
    decide
  have hput := h.put (a := kSchedulerReschedCounterAddr) (by decide) 0#32
  refine (runs_select hcntlzw hmask hq hmem hlive hfuel).then ?_
  rw [if_neg (hL.thread_ne_zero hmem)]
  have hkeep : (v.put (.global kSchedulerReschedCounterAddr) 0#32).mask = v.mask := by
    rw [View.mask, View.put_word, if_neg (by decide)]
    rfl
  rw [← hkeep]
  refine (runs_takeThread (hxs ▸ hput.queue p) (hxs ▸ h.threads p)).then ?_
  have hcb : ((v.put (.global kSchedulerReschedCounterAddr) 0#32).take p t).word
      (.global kSwitchThreadCallbackPtrAddr) = v.word (.global kSwitchThreadCallbackPtrAddr) := by
    rw [View.take_global (by decide), View.put_word, if_neg (by decide)]
  refine goes_bind (goes_publish hL hcpu hmem old (fun s hne => ?_) fun s s' hne => ?_) ?_
  · exact hguar _ _ s (hcb ▸ hne)
  · exact hrely _ _ s s' (hcb ▸ hne)
  rintro _ w rfl
  exact goes_enterThread hL hcpu hmem hand hQ old

end

/-! ## The law -/

/-- The memories show the same of the layout. -/
structure SameView (L : Layout) (s s' : Machine Memory) : Prop where
  serves : Serves L.config s'.mem
  words : ∀ c, L.HasCell c → (viewOf s'.mem).word c = (viewOf s.mem).word c
  states : ∀ t ∈ L.threads, (viewOf s'.mem).state t = (viewOf s.mem).state t

theorem SameView.represents {L : Layout} {s s' : Machine Memory} {v : View} (h : SameView L s s')
    (hs : Represents L s.mem v) : Represents L s'.mem v := by
  have hr := represents_viewOf hs.sound h.serves
  refine ⟨hs.sound, h.serves, fun c hc => ?_, fun t ht => ?_⟩
  · rw [hr.words c hc, h.words c hc, hs.viewOf_word hc]
  · rw [hr.states t ht, h.states t ht, hs.viewOf_state ht]

/-- A scheduler at rest: the thread `r` is the running context and in no run queue. If
it runs, its level is `p`. -/
structure AtRest (L : Layout) (s : Machine Memory) (qs : Fin 32 → List Word) (r : Word)
    (p : Fin 32) : Prop where
  serves : Serves L.config s.mem
  queues : ReadyQueues L (viewOf s.mem) qs
  running : (viewOf s.mem).runningContext = r
  current : (viewOf s.mem).currentContext = r
  thread : r ∈ L.threads
  level : (viewOf s.mem).state r = kThreadStateRunning →
    (viewOf s.mem).word (.thread .priority r) = level p
  apart : ∀ p, r ∉ qs p
  enabled : (viewOf s.mem).word (.global kSchedulerIdleFlagAddr) = 0#32
  callback : (viewOf s.mem).word (.global kSwitchThreadCallbackPtrAddr) = 0#32

/-- The running thread stays: it runs, no switch is forced, and nothing waits at a
smaller level. -/
def Stays (s : Machine Memory) (qs : Fin 32 → List Word) (r : Word) (p : Fin 32) (force : Word) :
    Prop :=
  (viewOf s.mem).state r = kThreadStateRunning ∧ force = 0#32 ∧ ∀ p' < p, qs p' = []

/-- The queues from which SelectThread serves: a running thread has arrived at the end
of its level. -/
def offered (s : Machine Memory) (qs : Fin 32 → List Word) (r : Word) (p : Fin 32) :
    Fin 32 → List Word :=
  if (viewOf s.mem).state r = kThreadStateRunning then arrive qs p r else qs

/-- The thread that is served from the queues runs. Only it has left its queue, and no
queued thread has a smaller priority number. -/
def RunsServed (L : Layout) (qs : Fin 32 → List Word) (s : Machine Memory) : Prop :=
  Serves L.config s.mem ∧ ∃ p t, Served qs p t ∧
    (viewOf s.mem).runningContext = t ∧ (viewOf s.mem).currentContext = t ∧
    (viewOf s.mem).state t = kThreadStateRunning ∧
    ReadyQueues L (viewOf s.mem) (leave qs p) ∧
    (viewOf s.mem).word (.global kSchedulerReschedCounterAddr) = 0#32 ∧
    ∀ p' u, u ∈ leave qs p p' → ((viewOf s.mem).word (.thread .priority t)).toInt ≤
      ((viewOf s.mem).word (.thread .priority u)).toInt

/-- Up to the hand-over: OSSaveContext leaves the view and returns 0, and nothing else is
called before the thread that is served runs. Where the process stops without it,
OSSaveContext is not there. -/
def upToHandOver (L : Layout) (qs : Fin 32 → List Word) :
    Coop.Contract (Machine Memory) Stop Away where
  rely i s s' :=
    match i with
    | .guest _ cpu => SameView L s s' ∧ s'.gpr cpu 3 = 0#32
    | _ => False
  guar i s :=
    match i with
    | .guest a _ => a = kOSSaveContextAddress
    | _ => RunsServed L qs s
  stops e s := RunsServed L qs s ∨ e = .boundary "INDIRECT_CALL_MISS" kOSSaveContextAddress

section

variable {L : Layout} {v : View} {s : Machine Memory} {qs : Fin 32 → List Word} {p : Fin 32}
  {r t : Word} {cpu : CpuPtr} {fuel : Nat}

/-- The view with the served thread published. -/
theorem ReadyQueues.runsServed (h : ReadyQueues L v qs) (ht : Served qs p t)
    (hs : Represents L s.mem (v.selected p t)) : RunsServed L qs s := by
  have hmem := h.threads p t ht.mem
  have hput := h.put (a := kSchedulerReschedCounterAddr) (by decide) 0#32
  have hready : ReadyQueues L (v.selected p t) (leave qs p) := (hput.take ht).publish t
  have hprio : (v.selected p t).word (.thread .priority t) = level p := by
    have hplain := h.priority p t ht.mem
    simp only [View.selected, View.publish, View.setCurrent, View.put_word, reduceCtorEq, if_false]
    rw [View.take_plain (by simp [Cell.Plain]) (by simp) (by simp), View.put_word,
      if_neg (by simp), hplain]
  refine ⟨hs.serves, p, t, ht, ?_, ?_, ?_, hready.viewOf hs, ?_, fun p' u hu => ?_⟩
  · refine (hs.viewOf_word (c := .global kOSRunningContextAddr) runningContext_mem).trans ?_
    simp [View.selected, View.publish, View.setCurrent, kOSRunningContextAddr,
      kOSCurrentContextAddr, kOSPhysicalContextAddr]
  · refine (hs.viewOf_word (c := .global kOSCurrentContextAddr) currentContext_mem).trans ?_
    simp [View.selected, View.publish, View.setCurrent]
  · rw [hs.viewOf_state hmem]
    simp [View.selected, View.publish, View.setCurrent, View.take]
  · rw [hs.viewOf_word (c := .global kSchedulerReschedCounterAddr) reschedCounter_mem]
    rw [View.selected, View.publish, View.setCurrent, View.put_word, if_neg (by decide),
      View.put_word, if_neg (by decide), View.put_word, if_neg (by decide),
      View.take_global (by decide), View.put_word, if_pos rfl]
  · have hup := (hready.viewOf hs).priority p' u hu
    rw [hs.viewOf_word (c := .thread .priority t) hmem, hprio, hup, level_toInt, level_toInt]
    have := Fin.le_def.mp (ht.le_of_mem (mem_of_mem_leave hu))
    omega

/-- Up to the hand-over, the contract allows it. -/
theorem handsOver_upToHandOver (h : ReadyQueues L v qs) (ht : Served qs p t) :
    HandsOver L (upToHandOver L qs) (v.selected p t) fun w => w = v.selected p t where
  stops := fun _ _ _ hs => Or.inl (h.runsServed ht hs)
  guar_jump := fun _ _ _ hs => h.runsServed ht hs
  guar_host := fun _ _ hs => h.runsServed ht hs
  jump := fun _ _ _ _ _ hf => hf.elim
  host := fun _ _ _ _ hf => hf.elim
  stay := rfl

/-- From the saved context on. -/
theorem goes_saveAndSwitch (hL : L.Sound) (hcpu : cpu ≠ 0) (hfuel : 0 < fuel)
    (hr : r ∈ L.threads) (h : ReadyQueues L v qs) (hsome : ∃ p, qs p ≠ [])
    (hcb : v.word (.global kSwitchThreadCallbackPtrAddr) = 0#32) :
    Goes L (upToHandOver L qs) (do
      unless ← saveContext cpu r do return ← setGpr cpu 3 0#32
      switchThread fuel cpu r) v fun _ w => ∃ p t, Served qs p t ∧ w = v.selected p t := by
  obtain ⟨p, t, ht⟩ := exists_served hsome
  refine goes_bind (R := fun b w => b = true ∧ w = v) ?_ ?_
  · refine goes_saveContext hL hcpu hr ⟨rfl, rfl⟩ (fun _ _ => Or.inr rfl) (fun _ _ => rfl) ?_
    exact fun s s' hs hs' => ⟨v, hs'.1.represents hs, decide_eq_true hs'.2, rfl⟩
  rintro _ v ⟨rfl, rfl⟩
  rw [if_pos rfl]
  refine (goes_switchThread hL hcpu hfuel h ht r (fun _ _ _ hne => absurd hcb hne)
    (fun _ _ _ _ hne => absurd hcb hne) (handsOver_upToHandOver h ht) ?_).mono ?_
  · rintro _ rfl kind a s hs
    exact Or.inl (h.runsServed ht hs)
  · rintro _ w rfl
    exact ⟨p, t, ht, rfl⟩

end

/-! ## A switch -/

/-- The thread `0x80400000` of level 8 runs, and `0x80400400` of level 4 is ready. -/
def switchCells : List (Cell × Word) :=
  [(.global kOSRunningContextAddr, 0x80400000#32), (.global kOSCurrentContextAddr, 0x80400000#32),
    (.thread .priority 0x80400000#32, 8#32), (.head (runQueue 4), 0x80400400#32),
    (.tail (runQueue 4), 0x80400400#32), (.thread .priority 0x80400400#32, 4#32),
    (.thread .queue 0x80400400#32, runQueue 4), (.global kSchedulerPendingFlagAddr, 0x08000000#32)]

def switchStates : List (Word × Half) :=
  [(0x80400000#32, kThreadStateRunning), (0x80400400#32, kThreadStateReady)]

def switchQueues (p : Fin 32) : List Word := if p = 4 then [0x80400400#32] else []

theorem switch_fits : fitTogether (blocksOf [0x80400000#32, 0x80400400#32] [] []) = true := by
  decide +kernel

theorem switch_readyQueues : ReadyQueues (wiiLayout [0x80400000#32, 0x80400400#32] [] [])
    (View.ofList switchCells switchStates) switchQueues := by
  have hhead : ∀ p, (View.ofList switchCells switchStates).word (.head (runQueue p)) =
      first (switchQueues p) 0#32 := by decide +kernel
  have htail : ∀ p, (View.ofList switchCells switchStates).word (.tail (runQueue p)) =
      first (switchQueues p) 0#32 := by decide +kernel
  have hmem : ∀ {p t}, t ∈ switchQueues p → p = 4 ∧ t = 0x80400400#32 := by
    intro p t ht
    unfold switchQueues at ht
    split at ht
    · exact ⟨‹_›, List.mem_singleton.mp ht⟩
    · cases ht
  refine ⟨fun p => ?_, fun p t ht => ?_, fun p t ht => ?_, fun p t ht => ?_, ?_⟩
  · by_cases hp : p = 4
    · subst hp
      exact ⟨⟨⟨hhead 4, by decide +kernel⟩, by decide +kernel, htail 4⟩, by decide⟩
    · have hnil : switchQueues p = [] := if_neg hp
      rw [hnil]
      exact ⟨⟨(hhead p).trans (by rw [hnil]; rfl), (htail p).trans (by rw [hnil]; rfl)⟩,
        by simp⟩
  · rw [(hmem ht).2]
    exact List.mem_cons_of_mem _ List.mem_cons_self
  · rw [(hmem ht).2]
    decide +kernel
  · rw [(hmem ht).1, (hmem ht).2]
    decide +kernel
  · decide +kernel

theorem switch_hasCells : ∀ e ∈ switchCells,
    (wiiLayout [0x80400000#32, 0x80400400#32] [] []).HasCell e.1 := by
  simp [switchCells, Layout.HasCell, wiiLayout, kernelWords, isQueue_runQueue]

/-- A Wii with that view, at rest. -/
theorem exists_switch_atRest : ∃ s : Machine Memory,
    AtRest (wiiLayout [0x80400000#32, 0x80400400#32] [] []) s switchQueues 0x80400000#32 8 ∧
    (viewOf s.mem).state 0x80400000#32 = kThreadStateRunning := by
  obtain ⟨m, hm⟩ := exists_wii switch_fits switchCells switchStates switch_hasCells
    (by simp [switchStates])
  have hthread : (0x80400000#32 : Word) ∈
      (wiiLayout [0x80400000#32, 0x80400400#32] [] []).threads := List.mem_cons_self
  have hglobal : ∀ a ∈ kernelWords, (viewOf m).word (.global a) =
      (View.ofList switchCells switchStates).word (.global a) :=
    fun a ha => hm.viewOf_word (c := .global a) ha
  refine ⟨bootMachine m,
    ⟨hm.serves, switch_readyQueues.viewOf hm, ?_, ?_, hthread, ?_, by decide,
    ?_, ?_⟩, ?_⟩
  · exact (hglobal _ runningContext_mem).trans (by decide +kernel)
  · exact (hglobal _ currentContext_mem).trans (by decide +kernel)
  · exact fun _ => (hm.viewOf_word (c := .thread .priority _) hthread).trans (by decide +kernel)
  · exact (hglobal _ (by decide)).trans (by decide +kernel)
  · exact (hglobal _ (by decide)).trans (by decide +kernel)
  · exact (hm.viewOf_state hthread).trans (by decide +kernel)

end wii_switch
