-- The framebuffers that the guest stores, flushes and waits for. The host keeps the first one
-- that a flush finds in the guest word: a retrace makes it the active one and writes it back
-- to the guest, and no later flush looks at the word again.
import WiiSwitch.RetraceRuns

namespace wii_switch

open Bytes OS VI

/-! ## Histories -/

/-- A store to the word of the next framebuffer, or a call. -/
inductive FrameEvent where
  | store (address : Word)
  | init
  | flush
  | wait
deriving DecidableEq

/-- The events so far, newest first. -/
abbrev FrameHistory := List FrameEvent

/-- The framebuffer that was stored last. -/
def lastStored : FrameHistory → Option Word
  | [] => none
  | .store a :: _ => some a
  | _ :: h => lastStored h

/-- A call was made, so VIInit has done its work. -/
def begun : FrameHistory → Bool
  | [] => false
  | .store _ :: h => begun h
  | _ :: _ => true

/-- The framebuffer that a flush finds in the guest words while none is pending. The first call
and each retrace clear them. -/
def queuedFrame : FrameHistory → Word
  | [] => 0#32
  | .store a :: h => if begun h then a else 0#32
  | .wait :: _ => 0#32
  | _ :: h => queuedFrame h

/-- The framebuffer that is pending. -/
def pendingFrame : FrameHistory → Word
  | [] => 0#32
  | .flush :: h => if pendingFrame h = 0#32 then queuedFrame h else pendingFrame h
  | _ :: h => pendingFrame h

/-- A flush came since the last retrace. -/
def flushedSince : FrameHistory → Bool
  | [] => false
  | .flush :: _ => true
  | .wait :: _ => false
  | _ :: h => flushedSince h

/-- The active framebuffer. -/
def shownFrame : FrameHistory → Word
  | [] => 0#32
  | .wait :: h => if flushedSince h then pendingFrame h else shownFrame h
  | _ :: h => shownFrame h

/-- The framebuffer was stored last, after the first call and with no retrace since. -/
def QueuedBy (a : Word) (h : FrameHistory) : Prop :=
  ∃ since earlier, h = since ++ .store a :: earlier ∧ begun earlier = true ∧
    ∀ e ∈ since, e = .init ∨ e = .flush

section

variable {h since between : FrameHistory} {a : Word}

theorem queuedFrame_store (hbegun : begun h = true) : queuedFrame (.store a :: h) = a :=
  if_pos hbegun

theorem queuedFrame_early (hbegun : ¬begun h = true) : queuedFrame (.store a :: h) = 0#32 :=
  if_neg hbegun

theorem QueuedBy.queuedFrame (hq : QueuedBy a h) : queuedFrame h = a := by
  obtain ⟨since, earlier, rfl, hbegun, hsince⟩ := hq
  induction since with
  | nil => exact queuedFrame_store hbegun
  | cons e since ih =>
    have hrest := ih fun e' he' => hsince e' (List.mem_cons_of_mem e he')
    rcases hsince e (List.mem_cons_self ..) with rfl | rfl
    · exact hrest
    · exact hrest

/-- A framebuffer that a flush finds is one that the guest queued. -/
theorem queuedBy_of_ne (hne : queuedFrame h ≠ 0#32) : QueuedBy (queuedFrame h) h := by
  induction h with
  | nil => exact absurd rfl hne
  | cons e h ih =>
    cases e with
    | store a =>
      have hbegun : begun h = true := by
        by_contra hnot
        exact hne (queuedFrame_early hnot)
      rw [queuedFrame_store hbegun]
      exact ⟨[], h, rfl, hbegun, fun e he => absurd he (List.not_mem_nil)⟩
    | wait => exact absurd rfl hne
    | init =>
      obtain ⟨since, earlier, hh, hbegun, hsince⟩ := ih hne
      refine ⟨.init :: since, earlier, congrArg _ hh, hbegun, fun e he => ?_⟩
      rcases List.mem_cons.mp he with rfl | he
      · exact .inl rfl
      · exact hsince e he
    | flush =>
      obtain ⟨since, earlier, hh, hbegun, hsince⟩ := ih hne
      refine ⟨.flush :: since, earlier, congrArg _ hh, hbegun, fun e he => ?_⟩
      rcases List.mem_cons.mp he with rfl | he
      · exact .inr rfl
      · exact hsince e he

/-- A pending framebuffer stays pending. -/
theorem pendingFrame_stays (hne : pendingFrame h ≠ 0#32) (later : FrameHistory) :
    pendingFrame (later ++ h) = pendingFrame h := by
  induction later with
  | nil => rfl
  | cons e later ih =>
    cases e with
    | store a => exact ih
    | init => exact ih
    | wait => exact ih
    | flush =>
      have hlater : pendingFrame (later ++ h) ≠ 0#32 := ih ▸ hne
      rw [List.cons_append, pendingFrame, if_neg hlater, ih]

theorem flushedSince_append (hwait : .wait ∉ between) :
    flushedSince (between ++ .flush :: h) = true := by
  induction between with
  | nil => rfl
  | cons e between ih =>
    rw [List.mem_cons, not_or] at hwait
    cases e with
    | store a => exact ih hwait.2
    | init => exact ih hwait.2
    | flush => rfl
    | wait => exact absurd rfl hwait.1

end

/-! ## Runs -/

/-- A call that gave the machine away and has not returned. -/
abbrev Suspended :=
  Machine Memory × ViState → Coop (Machine Memory × ViState) Stop Away Unit

/-- The two guest words of the next framebuffer. -/
def frameWords : List ViWord := [.nextFrameBuffer, .nextFrameBufferHw]

/-- The histories from the start of the process on. The guest code that a retrace calls makes
events too, so calls of VIWaitForRetrace stay open while others go on. -/
inductive FrameRun (config : List RegionConfig) :
    FrameHistory → Machine Memory × ViState → List Suspended → Prop
  | start {s : Machine Memory} {clock : Nat → Int} :
      Serves config s.mem → FrameRun config [] (s, .start clock) []
  | guest {h : FrameHistory} {s s' : Machine Memory} {v : ViState} {ks : List Suspended} :
      FrameRun config h (s, v) ks → Serves config s'.mem →
      (∀ g ∈ frameWords, viWord s'.mem g = viWord s.mem g) → FrameRun config h (s', v) ks
  | store {h : FrameHistory} {s : Machine Memory} {v : ViState} {ks : List Suspended} {a : Word}
      {m : Memory} :
      FrameRun config h (s, v) ks → a ≠ 0#32 →
      s.mem.write32 kViNextFrameBufferAddr a = some m →
      FrameRun config (.store a :: h) (s.withMem m, v) ks
  | init {h : FrameHistory} {p p' : Machine Memory × ViState} {ks : List Suspended}
      {cpu : CpuPtr} :
      FrameRun config h p ks → viInit cpu p = .ret () p' → FrameRun config (.init :: h) p' ks
  | flush {h : FrameHistory} {p p' : Machine Memory × ViState} {ks : List Suspended}
      {cpu : CpuPtr} :
      FrameRun config h p ks → viFlush cpu p = .ret () p' → FrameRun config (.flush :: h) p' ks
  | wait {h : FrameHistory} {p p' : Machine Memory × ViState} {ks : List Suspended}
      {cpu : CpuPtr} :
      FrameRun config h p ks → cpu ≠ 0 → viWaitForRetrace cpu p = .ret () p' →
      FrameRun config (.wait :: h) p' ks
  | waitOut {h : FrameHistory} {p p' : Machine Memory × ViState} {ks : List Suspended}
      {cpu : CpuPtr} {i : Away} {k : Suspended} :
      FrameRun config h p ks → cpu ≠ 0 → viWaitForRetrace cpu p = .call i p' k →
      FrameRun config (.wait :: h) p' (k :: ks)
  | back {h : FrameHistory} {p p' : Machine Memory × ViState} {ks ks' : List Suspended}
      {k : Suspended} :
      FrameRun config h p (ks ++ k :: ks') → k p = .ret () p' → FrameRun config h p' (ks ++ ks')
  | backOut {h : FrameHistory} {p p' : Machine Memory × ViState} {ks ks' : List Suspended}
      {i : Away} {k k' : Suspended} :
      FrameRun config h p (ks ++ k :: ks') → k p = .call i p' k' →
      FrameRun config h p' (ks ++ k' :: ks')

/-! ## The rest of a retrace -/

section

variable {config : List RegionConfig} {f : ViWords} {v : ViState} {cpu : CpuPtr}

theorem steady_read32 (a : Word) : Routine.Steady Machine.mem (read32 a) := by
  intro s
  unfold read32
  split <;> rfl

theorem steady_read32IfMapped (a : Word) : Routine.Steady Machine.mem (read32IfMapped a) :=
  Routine.steady_bind (Routine.steady_gets _) fun _ =>
    Routine.steady_ite (steady_read32 a) (Routine.steady_pure _)

theorem steady_invokeTranslatedCpu (target : Word) (cpu : CpuPtr) :
    Routine.Steady Machine.mem (invokeTranslatedCpu target cpu) := by
  apply Routine.steady_bind (Routine.steady_gets _)
  intro mask
  cases mask with
  | none => exact Routine.steady_stop _
  | some mask =>
    apply Routine.steady_bind (Routine.steady_gets _)
    intro old
    exact Routine.steady_bind (Routine.steady_call _) fun _ =>
      Routine.steady_modify fun _ => rfl

theorem steady_invokeIndirectCpu (target : Word) (cpu : CpuPtr) :
    Routine.Steady Machine.mem (invokeIndirectCpu target cpu) := by
  have htry : Routine.Steady Machine.mem (tryDispatchIndirect .guest target cpu) := by
    unfold tryDispatchIndirect
    split
    · exact Routine.steady_pure _
    · apply Routine.steady_bind (Routine.steady_gets _)
      intro record
      cases record with
      | none => exact Routine.steady_pure _
      | some record =>
        apply Routine.steady_bind (Routine.steady_gets _)
        intro old
        apply Routine.steady_bind (Routine.steady_call _)
        intro _
        exact Routine.steady_bind (Routine.steady_modify fun _ => rfl) fun _ =>
          Routine.steady_pure _
  apply Routine.steady_bind htry
  intro done
  exact Routine.steady_ite (Routine.steady_pure _) (Routine.steady_stop _)

theorem steady_setGpr (cpu : CpuPtr) (i : Fin 32) (x : Word) :
    Routine.Steady Machine.mem (setGpr cpu i x) :=
  Routine.steady_modify fun s => s.setGpr_mem cpu i x

theorem steady_wakeRetraceQueue (cpu : CpuPtr) :
    Routine.Steady Machine.mem (wakeRetraceQueue cpu) := by
  apply Routine.steady_bind (steady_read32IfMapped _)
  intro queueHead
  apply Routine.steady_bind (steady_read32IfMapped _)
  intro queueTail
  apply Routine.steady_ite (Routine.steady_pure _)
  exact Routine.steady_bind (steady_setGpr _ _ _) fun _ => steady_invokeTranslatedCpu _ _

theorem steady_runRetraceCallbacks (cpu : CpuPtr) (retraceValue : Word) :
    Routine.Steady Machine.mem (runRetraceCallbacks cpu retraceValue) := by
  have honly : ∀ (c : Bool) (target : Word),
      Routine.Steady Machine.mem (onlyIf c (invokeIndirectCpu target cpu)) := fun c target =>
    Routine.steady_ite (steady_invokeIndirectCpu target cpu) (Routine.steady_pure _)
  apply Routine.steady_bind (steady_read32IfMapped _)
  intro preCallback
  apply Routine.steady_bind (steady_read32IfMapped _)
  intro postCallback
  apply Routine.steady_bind (steady_setGpr _ _ _)
  intro _
  apply Routine.steady_bind (honly _ _)
  intro _
  apply Routine.steady_ite
  · exact Routine.steady_bind (Routine.steady_pure _) fun _ => honly _ _
  · exact Routine.steady_bind (steady_read32IfMapped _) fun _ => honly _ _

/-- Memory and the video state. -/
def memAndVi (p : Machine Memory × ViState) : Memory × ViState := (p.1.mem, p.2)

theorem steady_lift {α : Type} {r : OS α} (h : Routine.Steady Machine.mem r) :
    Routine.Steady memAndVi (lift r) := fun p => (h p.1).beside p.2

/-- A retrace publishes the pending framebuffer, and behind the count it leaves memory and the
video state to the guest. -/
theorem viWaitForRetrace_publishes (hcpu : cpu ≠ 0) {s : Machine Memory}
    (hs : Displays config s.mem f) :
    ∃ s' : Machine Memory, Displays config s'.mem (f.retraced v) ∧
      (viWaitForRetrace cpu (s, v)).Steady memAndVi (memAndVi (s', v.retraced)) := by
  obtain ⟨s₁, hinit, hs₁⟩ := advances_viInit (v := v) cpu s hs
  obtain ⟨s₂, hpace, hs₂⟩ := advances_paceRetrace s₁ hs₁
  obtain ⟨s₃, hcommit, hs₃⟩ := advances_commitArmed s₂ hs₂
  obtain ⟨s₄, hpublish, hs₄⟩ := advances_publishRetrace v.inited.target s₃ hs₃
  refine ⟨s₄, hs₄, ?_⟩
  unfold viWaitForRetrace
  rw [if_neg hcpu, Routine.bind_of hinit, Routine.bind_of hpace, Routine.bind_of hcommit,
    Routine.bind_of hpublish]
  have hrest := Routine.steady_bind (steady_lift (steady_wakeRetraceQueue cpu)) fun _ =>
    Routine.steady_bind (steady_lift (steady_runRetraceCallbacks cpu
      (v.inited.paced.committed.retraceCount + 1#32))) fun _ =>
        steady_lift (steady_setGpr cpu 3 0#32)
  exact hrest (s₄, v.retraced)

end

/-! ## The invariant -/

/-- What holds after every history. -/
structure Frames (h : FrameHistory) (f : ViWords) (v : ViState) : Prop where
  initialized : v.initialized = begun h
  armed : v.flushArmed = flushedSince h
  pending : v.pendingNextFrameBuffer = pendingFrame h
  active : v.nextFrameBuffer = shownFrame h
  word : begun h = true → pendingFrame h = 0#32 → f .nextFrameBuffer = queuedFrame h
  hwWord : begun h = true → pendingFrame h = 0#32 → f .nextFrameBufferHw = 0#32

section

variable {config : List RegionConfig} {h : FrameHistory} {f f' : ViWords} {v : ViState}

theorem frames_start (f : ViWords) (clock : Nat → Int) : Frames [] f (.start clock) :=
  ⟨rfl, rfl, rfl, rfl, fun hbegun => absurd hbegun (by decide),
    fun hbegun => absurd hbegun (by decide)⟩

theorem queuedFrame_unbegun (hbegun : ¬begun h = true) : queuedFrame h = 0#32 := by
  induction h with
  | nil => rfl
  | cons e h ih =>
    cases e with
    | store a => exact queuedFrame_early hbegun
    | init => exact absurd rfl hbegun
    | flush => exact absurd rfl hbegun
    | wait => exact absurd rfl hbegun

/-- VIInit clears the words when it does its work. -/
theorem Frames.init (hf : Frames h f v) : Frames (.init :: h) (f.inited v) v.inited := by
  have hkept : v.inited.flushArmed = v.flushArmed ∧
      v.inited.pendingNextFrameBuffer = v.pendingNextFrameBuffer ∧
      v.inited.nextFrameBuffer = v.nextFrameBuffer := by
    unfold ViState.inited
    split <;> exact ⟨rfl, rfl, rfl⟩
  constructor
  case initialized => exact v.inited_initialized
  case armed => exact hkept.1.trans hf.armed
  case pending => exact hkept.2.1.trans hf.pending
  case active => exact hkept.2.2.trans hf.active
  case word =>
    intro _ hnone
    by_cases hbegun : begun h = true
    · rw [ViWords.inited_of_initialized (hf.initialized.trans hbegun)]
      exact hf.word hbegun hnone
    · have hinit : ¬v.initialized = true := hf.initialized ▸ hbegun
      rw [ViWords.inited, if_neg hinit]
      exact (queuedFrame_unbegun hbegun).symm
  case hwWord =>
    intro _ hnone
    by_cases hbegun : begun h = true
    · rw [ViWords.inited_of_initialized (hf.initialized.trans hbegun)]
      exact hf.hwWord hbegun hnone
    · have hinit : ¬v.initialized = true := hf.initialized ▸ hbegun
      rw [ViWords.inited, if_neg hinit]
      rfl

theorem Frames.store (hf : Frames h f v) (a : Word) :
    Frames (.store a :: h) (Function.update f .nextFrameBuffer a) v where
  initialized := hf.initialized
  armed := hf.armed
  pending := hf.pending
  active := hf.active
  word := fun hbegun _ =>
    (Function.update_self ..).trans (queuedFrame_store (h := h) hbegun).symm
  hwWord := fun hbegun hnone => by
    rw [Function.update_of_ne (by decide)]
    exact hf.hwWord hbegun hnone

/-- A flush finds what is queued, unless a framebuffer is pending. -/
theorem Frames.flush (hf : Frames h f v) :
    Frames (.flush :: h) (f.inited v) (v.inited.flushed (f.inited v)) := by
  have hi := hf.init
  have hnone : pendingFrame (.flush :: h) = 0#32 → pendingFrame h = 0#32 := by
    intro hzero
    by_contra hsome
    exact hsome ((pendingFrame_stays hsome [.flush]).symm.trans hzero)
  constructor
  case initialized => exact hi.initialized
  case armed => rfl
  case pending =>
    have hpending : v.inited.pendingNextFrameBuffer = pendingFrame h := hi.pending
    unfold ViState.flushed ViState.foundFrameBuffer
    rw [pendingFrame, hpending]
    by_cases hzero : pendingFrame h = 0#32
    · have hword : f.inited v .nextFrameBuffer = queuedFrame h := hi.word rfl hzero
      have hhw : f.inited v .nextFrameBufferHw = 0#32 := hi.hwWord rfl hzero
      rw [if_neg (not_not_intro hzero), if_pos hzero, hword, hhw]
      by_cases hqueued : queuedFrame h = 0#32
      · rw [if_neg (not_not_intro hqueued), hqueued]
      · rw [if_pos hqueued]
    · rw [if_pos hzero, if_neg hzero]
  case active => exact hi.active
  case word => exact fun _ hzero => hi.word rfl (hnone hzero)
  case hwWord => exact fun _ hzero => hi.hwWord rfl (hnone hzero)

/-- A retrace behind a flush shows the pending framebuffer, and every retrace writes it back. -/
theorem Frames.wait (hf : Frames h f v) : Frames (.wait :: h) (f.retraced v) v.retraced := by
  have hi := hf.init
  have harmed : v.inited.paced.flushArmed = flushedSince h := hi.armed
  have hpending : v.retraced.pendingNextFrameBuffer = pendingFrame h := by
    unfold ViState.retraced ViState.counted ViState.committed
    split <;> exact hi.pending
  constructor
  case initialized => exact v.retraced_initialized
  case armed =>
    unfold ViState.retraced ViState.counted ViState.committed
    rw [harmed]
    cases hflush : flushedSince h with
    | true => rfl
    | false => exact harmed.trans hflush
  case pending => exact hpending
  case active =>
    unfold ViState.retraced ViState.counted ViState.committed
    rw [harmed, shownFrame]
    split
    case isTrue => exact hi.pending
    case isFalse => exact hi.active
  case word => exact fun _ hzero => hpending.trans hzero
  case hwWord => exact fun _ hzero => hpending.trans hzero

theorem Frames.guest (hf : Frames h f v) (hsame : ∀ g ∈ frameWords, f' g = f g) :
    Frames h f' v where
  initialized := hf.initialized
  armed := hf.armed
  pending := hf.pending
  active := hf.active
  word := fun hbegun hnone => (hsame _ (by decide)).trans (hf.word hbegun hnone)
  hwWord := fun hbegun hnone => (hsame _ (by decide)).trans (hf.hwWord hbegun hnone)

/-- The machine and the open calls are those of a history. -/
structure FramesHold (config : List RegionConfig) (h : FrameHistory)
    (p : Machine Memory × ViState) (ks : List Suspended) : Prop where
  frames : ∃ f, Displays config p.1.mem f ∧ Frames h f p.2
  open_ : ∀ k ∈ ks, Routine.Steady memAndVi k

/-- The invariant depends on memory and the video state only. -/
theorem frames_congr {p p' : Machine Memory × ViState} (heq : memAndVi p' = memAndVi p)
    (hp : ∃ f, Displays config p.1.mem f ∧ Frames h f p.2) :
    ∃ f, Displays config p'.1.mem f ∧ Frames h f p'.2 := by
  have hmem : p'.1.mem = p.1.mem := congrArg Prod.fst heq
  have hvi : p'.2 = p.2 := congrArg (fun q : Memory × ViState => q.2) heq
  rw [hmem, hvi]
  exact hp

/-- The invariant holds after every history. -/
theorem run_frames (hmaps : MapsVi config) {p : Machine Memory × ViState} {ks : List Suspended}
    (hrun : FrameRun config h p ks) : FramesHold config h p ks := by
  induction hrun with
  | start hs =>
    obtain ⟨f, hd⟩ := exists_displays hmaps hs
    exact ⟨⟨f, hd, frames_start f _⟩, fun k hk => absurd hk List.not_mem_nil⟩
  | guest _ hs hkeep ih =>
    obtain ⟨f, hd, hf⟩ := ih.frames
    obtain ⟨f', hd'⟩ := exists_displays hmaps hs
    refine ⟨⟨f', hd', hf.guest fun g hg => ?_⟩, ih.open_⟩
    have hg' := hkeep g hg
    rw [hd.words, hd'.words] at hg'
    exact Option.some_inj.mp hg'
  | @store h s v ks a m _ _ hwrite ih =>
    obtain ⟨f, hd, hf⟩ := ih.frames
    obtain ⟨m', hw, hd'⟩ := hd.write (g := .nextFrameBuffer) (k := .w32) rfl a
    have hsame : m' = m := Option.some_inj.mp (hw.symm.trans hwrite)
    have hword : BitVec.setWidth 32 (show Word from a) = a := BitVec.setWidth_eq a
    exact ⟨⟨_, hword ▸ hsame ▸ hd', hf.store a⟩, ih.open_⟩
  | @init h p p' ks cpu _ hcall ih =>
    obtain ⟨f, hd, hf⟩ := ih.frames
    obtain ⟨s', hret, hd'⟩ := advances_viInit cpu p.1 hd
    rw [hret] at hcall
    injection hcall with _ hp
    subst hp
    exact ⟨⟨_, hd', hf.init⟩, ih.open_⟩
  | @flush h p p' ks cpu _ hcall ih =>
    obtain ⟨f, hd, hf⟩ := ih.frames
    obtain ⟨s', hret, hd'⟩ := advances_viFlush cpu p.1 hd
    rw [hret] at hcall
    injection hcall with _ hp
    subst hp
    exact ⟨⟨_, hd', hf.flush⟩, ih.open_⟩
  | wait _ hcpu hcall ih =>
    obtain ⟨f, hd, hf⟩ := ih.frames
    obtain ⟨s', hd', hsteady⟩ := viWaitForRetrace_publishes hcpu hd
    rw [hcall] at hsteady
    exact ⟨frames_congr hsteady ⟨_, hd', hf.wait⟩, ih.open_⟩
  | waitOut _ hcpu hcall ih =>
    obtain ⟨f, hd, hf⟩ := ih.frames
    obtain ⟨s', hd', hsteady⟩ := viWaitForRetrace_publishes hcpu hd
    rw [hcall] at hsteady
    exact ⟨frames_congr hsteady.1 ⟨_, hd', hf.wait⟩, List.forall_mem_cons.mpr
      ⟨hsteady.2, ih.open_⟩⟩
  | @back h p p' ks ks' k _ hcall ih =>
    have hsteady := ih.open_ k (by simp) p
    rw [hcall] at hsteady
    refine ⟨frames_congr hsteady ih.frames, fun k' hk' => ih.open_ k' ?_⟩
    rw [List.mem_append] at hk' ⊢
    exact hk'.imp_right (List.mem_cons_of_mem k)
  | @backOut h p p' ks ks' i k k' _ hcall ih =>
    have hsteady := ih.open_ k (by simp) p
    rw [hcall] at hsteady
    refine ⟨frames_congr hsteady.1 ih.frames, fun k'' hk'' => ?_⟩
    rw [List.mem_append, List.mem_cons] at hk''
    rcases hk'' with hold | rfl | hold
    · exact ih.open_ k'' (List.mem_append_left _ hold)
    · exact hsteady.2
    · exact ih.open_ k'' (List.mem_append_right _ (List.mem_cons_of_mem k hold))

end

/-! ## The law -/

/-- What is active behind the first retrace after a flush, whose history before it is `h`. -/
structure ShowsFirstFlushed (h between : FrameHistory) (active : Word) : Prop where
  kept : pendingFrame h ≠ 0#32 → active = pendingFrame h
  taken : ∀ a, a ≠ 0#32 → pendingFrame h = 0#32 → QueuedBy a h → active = a
  exact_ : .flush ∉ between → ∀ a, a ≠ 0#32 →
    (active = a ↔ pendingFrame h = a ∨ pendingFrame h = 0#32 ∧ QueuedBy a h)

section

variable {config : List RegionConfig} {h between : FrameHistory}
  {p : Machine Memory × ViState} {ks : List Suspended}

theorem pendingFrame_between (hflush : .flush ∉ between) :
    pendingFrame (between ++ h) = pendingFrame h := by
  induction between with
  | nil => rfl
  | cons e between ih =>
    rw [List.mem_cons, not_or] at hflush
    cases e with
    | store a => exact ih hflush.2
    | init => exact ih hflush.2
    | wait => exact ih hflush.2
    | flush => exact absurd rfl hflush.1

/-- Behind the first retrace after a flush the framebuffer is active that the first flush with
one queued found: one that was stored later is not shown. -/
theorem the_first_flushed_framebuffer_is_active (hmaps : MapsVi config)
    (hrun : FrameRun config (.wait :: (between ++ .flush :: h)) p ks)
    (hfirst : .wait ∉ between) : ShowsFirstFlushed h between p.2.nextFrameBuffer := by
  obtain ⟨f, hd, hf⟩ := (run_frames hmaps hrun).frames
  have hactive : p.2.nextFrameBuffer = pendingFrame (between ++ .flush :: h) := by
    rw [hf.active, shownFrame, if_pos (flushedSince_append hfirst)]
  have hkept : pendingFrame h ≠ 0#32 → p.2.nextFrameBuffer = pendingFrame h := by
    intro hsome
    rw [hactive, List.append_cons]
    exact pendingFrame_stays hsome _
  have hflushed : pendingFrame h = 0#32 → pendingFrame (.flush :: h) = queuedFrame h := by
    intro hnone
    rw [pendingFrame, if_pos hnone]
  constructor
  case kept => exact hkept
  case taken =>
    intro a ha hnone hqueued
    have hfound : pendingFrame (.flush :: h) = a := (hflushed hnone).trans hqueued.queuedFrame
    rw [hactive, pendingFrame_stays (hfound.symm ▸ ha), hfound]
  case exact_ =>
    intro hlast a ha
    rw [pendingFrame_between hlast] at hactive
    by_cases hnone : pendingFrame h = 0#32
    · rw [hactive, hflushed hnone]
      constructor
      · intro hfound
        exact .inr ⟨hnone, hfound ▸ queuedBy_of_ne (hfound.symm ▸ ha)⟩
      · rintro (hpending | ⟨_, hqueued⟩)
        · exact absurd (hpending.symm.trans hnone) ha
        · exact hqueued.queuedFrame
    · rw [hkept hnone]
      constructor
      · exact .inl
      · rintro (hpending | ⟨hzero, _⟩)
        · exact hpending
        · exact absurd hzero hnone

end

/-! ## Two framebuffers on a Wii -/

/-- A history of the Wii in which nobody sleeps on the retrace queue and no callback is
installed. -/
def Reached (h : FrameHistory) : Prop :=
  ∃ s v f, FrameRun wiiDefaults h (s, v) [] ∧ Displays wiiDefaults s.mem f ∧ f.Idle v

section

variable {h : FrameHistory} {f : ViWords} {v : ViState}

theorem reached_start : Reached [] := by
  obtain ⟨m, hm⟩ := Option.isSome_iff_exists.mp wiiBoot_isSome
  have hd : Displays wiiDefaults (bootMachine m).mem fun _ => 0#32 := wiiBoot_displays hm
  exact ⟨bootMachine m, .start fun _ => 0, _, .start hd.serves, hd, rfl, rfl, fun _ => rfl,
    fun _ => rfl⟩

theorem Reached.store (hr : Reached h) {a : Word} (ha : a ≠ 0#32) : Reached (.store a :: h) := by
  obtain ⟨s, v, f, hrun, hd, hidle⟩ := hr
  obtain ⟨m, hw, hd'⟩ := hd.write (g := .nextFrameBuffer) (k := .w32) rfl a
  have hkept : ∀ g, g ≠ .nextFrameBuffer → Function.update f .nextFrameBuffer
      (BitVec.setWidth 32 (show Word from a)) g = f g := fun g hg => Function.update_of_ne hg _ _
  refine ⟨s.withMem m, v, _, .store hrun ha hw, hd', ?_⟩
  constructor
  case head => exact (hkept _ (by decide)).trans hidle.head
  case tail => exact (hkept _ (by decide)).trans hidle.tail
  case pre => exact fun hinit => (hkept _ (by decide)).trans (hidle.pre hinit)
  case post => exact fun hinit => (hkept _ (by decide)).trans (hidle.post hinit)

theorem idle_inited (hidle : f.Idle v) (v' : ViState) : (f.inited v).Idle v' := by
  unfold ViWords.inited
  by_cases hinit : v.initialized = true
  · rw [if_pos hinit]
    exact ⟨hidle.head, hidle.tail, fun _ => hidle.pre hinit, fun _ => hidle.post hinit⟩
  · rw [if_neg hinit]
    exact ⟨hidle.head, hidle.tail, fun _ => rfl, fun _ => rfl⟩

theorem Reached.flush (hr : Reached h) : Reached (.flush :: h) := by
  obtain ⟨s, v, f, hrun, hd, hidle⟩ := hr
  obtain ⟨s', hcall, hd'⟩ := advances_viFlush (v := v) 1 s hd
  exact ⟨s', _, _, .flush hrun hcall, hd', idle_inited hidle _⟩

theorem Reached.wait (hr : Reached h) : Reached (.wait :: h) := by
  obtain ⟨s, v, f, hrun, hd, hidle⟩ := hr
  obtain ⟨s', hcall, hd'⟩ := advances_viWaitForRetrace (Nat.succ_ne_zero 0) hidle s hd
  exact ⟨s', _, _, .wait hrun (by decide) hcall, hd', hidle.retraced_head, hidle.retraced_tail,
    fun _ => hidle.retraced_pre, fun _ => hidle.retraced_post⟩

end

/-- A framebuffer is stored, flushed and shown, and then another one is stored and flushed. -/
def twoFrames : FrameHistory :=
  [.store 0x80700000#32, .wait, .flush, .store 0x80600000#32, .wait]

theorem reached_twoFrames : Reached (.wait :: .flush :: twoFrames) := by
  have hfirst : Reached [.wait, .flush, .store 0x80600000#32, .wait] :=
    (reached_start.wait.store (by decide)).flush.wait
  exact (hfirst.store (by decide)).flush.wait

/-- The second framebuffer is lost: the first one is active again. -/
theorem the_second_framebuffer_is_lost : ¬∀ (config : List RegionConfig)
    (h between : FrameHistory) (p : Machine Memory × ViState) (ks : List Suspended) (a : Word),
    MapsVi config → FrameRun config (.wait :: (between ++ .flush :: h)) p ks →
    .wait ∉ between → lastStored h = some a → p.2.nextFrameBuffer = a := by
  intro hclaim
  obtain ⟨s, v, f, hrun, _⟩ := reached_twoFrames
  have hlost := hclaim wiiDefaults twoFrames [] (s, v) [] 0x80700000#32 wii_mapsVi hrun
    List.not_mem_nil rfl
  obtain ⟨_, _, hf⟩ := (run_frames wii_mapsVi hrun).frames
  have hshown : v.nextFrameBuffer = 0x80600000#32 := hf.active.trans rfl
  exact absurd (hshown.symm.trans hlost) (by decide)

/-- The law on this history. -/
theorem the_first_of_two_framebuffers_is_active : ∃ p : Machine Memory × ViState,
    ShowsFirstFlushed twoFrames [] p.2.nextFrameBuffer ∧ p.2.nextFrameBuffer = 0x80600000#32 := by
  obtain ⟨s, v, f, hrun, _⟩ := reached_twoFrames
  have hbetween : FrameRun wiiDefaults (.wait :: ([] ++ .flush :: twoFrames)) (s, v) [] := hrun
  have hlaw := the_first_flushed_framebuffer_is_active wii_mapsVi hbetween List.not_mem_nil
  have hpending : pendingFrame twoFrames ≠ 0#32 := by decide
  exact ⟨(s, v), hlaw, hlaw.kept hpending⟩

end wii_switch
