-- The retrace callback of the guest (source/vi_init_hle_bridge.cpp). Any thread registers one
-- with VISetPostRetraceCallback, and a retrace gives the machine to it, so the callback and the
-- sleepers that the retrace wakes may register others and call the video interface themselves.
-- A call out of a retrace is still the wakeup, or of what was registered last.
import WiiSwitch.RetraceRuns
import WiiSwitch.Lib.Pools

namespace wii_switch

open Bytes OS VI

/-- `VISetPostRetraceCallback`. -/
def viSetPostRetraceCallback (cpu : CpuPtr) : VI Unit := do
  if cpu = 0 then return ()
  let newCallback ← getGpr cpu 3
  viInit cpu
  let previousCallback ← read32IfMapped kViPostRetraceCallbackAddr
  write32IfMapped kViPostRetraceCallbackAddr newCallback
  setGpr cpu 3 previousCallback

/-! ## The calls of the guest -/

/-- A call out of a retrace, with r3 and the callbacks that had been registered, newest first. -/
structure HandOff where
  away : Away
  argument : Word
  registered : List Word

/-- The argument that a call of guest code gets in r3. -/
def Away.argument (i : Away) (s : Machine Memory) : Word :=
  match i with
  | .guest _ cpu => s.gpr cpu 3
  | .jump _ cpu => s.gpr cpu 3
  | .host _ => 0#32

/-- A retrace gave the machine away, the callbacks that were registered, and the calls out of
the retraces; newest first. -/
structure CallbackWorld where
  begun : Bool
  registered : List Word
  handOffs : List HandOff

instance : Preorder CallbackWorld where
  le g g' := (g.begun = true → g'.begun = true) ∧ g.registered <:+ g'.registered ∧
    g.handOffs <:+ g'.handOffs
  le_refl _ := ⟨id, List.suffix_rfl, List.suffix_rfl⟩
  le_trans _ _ _ h h' := ⟨h'.1 ∘ h.1, h.2.1.trans h'.2.1, h.2.2.trans h'.2.2⟩

/-- A retrace calls out. -/
def CallbackWorld.note (g : CallbackWorld) (i : Away) (p : Machine Memory × ViState) :
    CallbackWorld :=
  ⟨true, g.registered, ⟨i, i.argument p.1, g.registered⟩ :: g.handOffs⟩

abbrev ViOperation := Coop.Operation CallbackWorld (Machine Memory × ViState) Stop Away

/-- A call of an entry point that registers nothing. -/
def entryCall (c : ViCall) (cpu : CpuPtr) : ViOperation where
  code := c.routine cpu
  note := CallbackWorld.note
  grow g _ := g

/-- A call that registers a callback. -/
def registerCall (cpu : CpuPtr) (callback : Word) : ViOperation where
  code := viSetPostRetraceCallback cpu
  note := CallbackWorld.note
  grow g _ := { g with registered := callback :: g.registered }

inductive BeginsViCall (g : CallbackWorld) (p : Machine Memory × ViState) : ViOperation → Prop
  | entry (c : ViCall) (cpu : CpuPtr) : BeginsViCall g p (entryCall c cpu)
  | register (cpu : CpuPtr) : cpu ≠ 0 → BeginsViCall g p (registerCall cpu (p.1.gpr cpu 3))

/-- Other guest code leaves the words of the callbacks. -/
structure LeavesCallbacks (config : List RegionConfig) (g : CallbackWorld)
    (p : Machine Memory × ViState) (g' : CallbackWorld)
    (p' : Machine Memory × ViState) : Prop where
  world : g' = g
  serves : Serves config p'.1.mem
  state : p'.2 = p.2
  pre : viWord p'.1.mem .preRetraceCallback = viWord p.1.mem .preRetraceCallback
  post : viWord p'.1.mem .postRetraceCallback = viWord p.1.mem .postRetraceCallback

/-- The process starts before VIInit. -/
structure CallbackStart (config : List RegionConfig) (g : CallbackWorld)
    (p : Machine Memory × ViState) : Prop where
  serves : Serves config p.1.mem
  state : ∃ clock, p.2 = .start clock
  world : g = ⟨false, [], []⟩

/-- The runs of the entry points, by any threads. Every call out gives the machine away. -/
abbrev CallbackRun (config : List RegionConfig) :
    Coop.Pool CallbackWorld (Machine Memory × ViState) Stop Away → Prop :=
  Coop.PoolRun (fun _ => True) (fun _ _ _ => False) (CallbackStart config) BeginsViCall
    (LeavesCallbacks config)

/-! ## The invariant -/

/-- The call wakes the sleepers on the retrace queue. -/
def HandOff.WakesRetraceQueue (c : HandOff) : Prop :=
  (∃ cpu, c.away = .guest kOSWakeupThreadFunction cpu) ∧ c.argument = kViRetraceQueueAddr

/-- The call is of the callback that was registered last. -/
def HandOff.CallsLast (c : HandOff) : Prop :=
  ∃ callback older cpu, c.registered = callback :: older ∧ callback ≠ 0#32 ∧
    c.away = .guest callback cpu

/-- The words of the callbacks, and the calls so far. -/
structure Registers (g : CallbackWorld) (f : ViWords) (v : ViState) : Prop where
  post : v.initialized = true → f .postRetraceCallback = g.registered.headD 0#32
  pre : v.initialized = true → f .preRetraceCallback = 0#32
  fresh : v.initialized = false → g.registered = []
  begun : g.begun = true → v.initialized = true
  handOffs : ∀ c ∈ g.handOffs, c.WakesRetraceQueue ∨ c.CallsLast

/-- The state shows it. -/
def ShowsCallbacks (config : List RegionConfig) (g : CallbackWorld)
    (p : Machine Memory × ViState) : Prop :=
  ∃ f, Displays config p.1.mem f ∧ Registers g f p.2

/-- The same of an initialized interface. -/
def RetraceReady (config : List RegionConfig) (g : CallbackWorld)
    (p : Machine Memory × ViState) : Prop :=
  ShowsCallbacks config g p ∧ p.2.initialized = true

section

variable {config : List RegionConfig} {g g' : CallbackWorld} {f f' : ViWords} {v v' : ViState}
  {cpu : CpuPtr} {p : Machine Memory × ViState} {α β : Type}

/-- What the others do while a retrace is away. -/
abbrev callbackContract (config : List RegionConfig) :
    Coop.WorldContract CallbackWorld (Machine Memory × ViState) Away :=
  Coop.sharing (fun _ => True) (fun _ _ _ => False) (ShowsCallbacks config) CallbackWorld.note

theorem Registers.congr (h : Registers g f v) (hinit : v'.initialized = v.initialized)
    (hpost : f' .postRetraceCallback = f .postRetraceCallback)
    (hpre : f' .preRetraceCallback = f .preRetraceCallback) : Registers g f' v' where
  post := by rw [hinit, hpost]; exact h.post
  pre := by rw [hinit, hpre]; exact h.pre
  fresh := by rw [hinit]; exact h.fresh
  begun := by rw [hinit]; exact h.begun
  handOffs := h.handOffs

/-- VIInit clears the words when it does its work. -/
theorem Registers.inited (h : Registers g f v) : Registers g (f.inited v) v.inited := by
  cases hinit : v.initialized with
  | true =>
    have hsame : v.inited = v := by simp [ViState.inited, hinit]
    rw [ViWords.inited_of_initialized hinit, hsame]
    exact h
  | false =>
    have hwords : f.inited v = f.defaults := by simp [ViWords.inited, hinit]
    rw [hwords]
    constructor
    case post => exact fun _ => by rw [h.fresh hinit]; rfl
    case pre => exact fun _ => rfl
    case fresh => exact fun hno => absurd (hno.symm.trans v.inited_initialized) (by decide)
    case begun => exact fun _ => v.inited_initialized
    case handOffs => exact h.handOffs

theorem Registers.retraced (h : Registers g f v) : Registers g (f.retraced v) v.retraced := by
  refine h.inited.congr ?_ ?_ ?_
  · rw [v.retraced_initialized, v.inited_initialized]
  · exact ViWords.committed_of_ne (g := .postRetraceCallback) (by decide)
  · exact ViWords.committed_of_ne (g := .preRetraceCallback) (by decide)

/-- A routine that returns meets every contract. -/
theorem meetsIn_of_ret {Q : CallbackWorld → α → Machine Memory × ViState → Prop}
    {r : VI α} {a : α} {p' : Machine Memory × ViState} (hrun : r p = .ret a p') (hq : Q g a p') :
    (r p).MeetsIn (callbackContract config) Q g := by
  rw [hrun]
  exact hq

/-! ## Calls out of a retrace -/

/-- The routine starts and ends ready, in any greater world that the others leave. -/
def StaysReady (config : List RegionConfig) (r : VI α) : Prop :=
  ∀ g p, RetraceReady config g p →
    (r p).MeetsIn (callbackContract config) (fun g' _ p' => RetraceReady config g' p') g

theorem staysReady_bind {x : VI α} {y : α → VI β} (hx : StaysReady config x)
    (hy : ∀ a, StaysReady config (y a)) : StaysReady config (x >>= y) := by
  intro g p hp
  refine Coop.meetsIn_bind.mpr ((hx g p hp).mono fun g' a p' hp' => ?_)
  exact hy a g' p' hp'

theorem lift_bind (x : OS α) (y : α → OS β) :
    (lift (x >>= y) : VI β) = lift x >>= fun a => lift (y a) := by
  funext p
  have hcoop : ∀ (c : Coop (Machine Memory) Stop Away α) (v : ViState),
      (c.bind y).beside v = (c.beside v).bind fun a q => (y a q.1).beside q.2 := by
    intro c
    induction c with
    | ret a s => exact fun v => rfl
    | stop e s => exact fun v => rfl
    | call i s k ih =>
      intro v
      change Coop.call i (s, v) (fun q => ((k q.1).bind y).beside q.2) = _
      congr 1
      funext q
      exact ih q.1 q.2
  exact hcoop (x p.1) p.2

theorem staysReady_setGpr (cpu : CpuPtr) (i : Fin 32) (x : Word) :
    StaysReady config (lift (setGpr cpu i x)) := fun _ _ hp => hp

/-- A read stops, or changes nothing. -/
theorem read32IfMapped_cases (a : Word) (p : Machine Memory × ViState) :
    (∃ x, (lift (read32IfMapped a) : VI Word) p = .ret x p) ∨
      ∃ e, (lift (read32IfMapped a) : VI Word) p = .stop e p := by
  unfold lift read32IfMapped
  rw [Routine.bind_of (contains_apply _ _ _), Routine.ite_apply]
  split
  · unfold read32
    cases p.1.mem.read32 a with
    | none => exact Or.inr ⟨_, rfl⟩
    | some x => exact Or.inl ⟨x, rfl⟩
  · exact Or.inl ⟨0#32, rfl⟩

theorem staysReady_read32IfMapped (a : Word) : StaysReady config (lift (read32IfMapped a)) := by
  intro g p hp
  rcases read32IfMapped_cases a p with ⟨x, hrun⟩ | ⟨e, hrun⟩
  · rw [hrun]
    exact hp
  · rw [hrun]
    trivial

/-- Behind a call out the interface is ready, whatever the others did. -/
theorem meetsIn_out {i : Away} {a : α}
    {k : Machine Memory × ViState → Coop (Machine Memory × ViState) Stop Away α}
    (hp : RetraceReady config g p)
    (hi : HandOff.WakesRetraceQueue ⟨i, i.argument p.1, g.registered⟩ ∨
      HandOff.CallsLast ⟨i, i.argument p.1, g.registered⟩)
    (hk : ∀ q, ∃ s : Machine Memory, k q = .ret a (s, q.2) ∧ s.mem = q.1.mem) :
    (Coop.call i p k).MeetsIn (callbackContract config)
      (fun g' _ p' => RetraceReady config g' p') g := by
  obtain ⟨⟨f, hd, hr⟩, hinit⟩ := hp
  constructor
  · intro _
    refine ⟨f, hd, hr.post, hr.pre, hr.fresh, fun _ => hinit, ?_⟩
    exact List.forall_mem_cons.mpr ⟨hi, hr.handOffs⟩
  · rintro g' q (⟨_, hgrow, f', hd', hr'⟩ | ⟨hno, _⟩)
    · obtain ⟨s, hrun, hmem⟩ := hk q
      rw [hrun]
      exact ⟨⟨f', hmem ▸ hd', hr'⟩, hr'.begun (hgrow.1 rfl)⟩
    · exact absurd trivial hno

theorem meetsIn_invokeIndirectCpu {target : Word} (hcpu : cpu ≠ 0) (hp : RetraceReady config g p)
    (hi : HandOff.CallsLast ⟨.guest target cpu, p.1.gpr cpu 3, g.registered⟩) :
    (lift (invokeIndirectCpu target cpu) p : Coop _ Stop Away Unit).MeetsIn
      (callbackContract config) (fun g' _ p' => RetraceReady config g' p') g := by
  simp only [lift, invokeIndirectCpu, tryDispatchIndirect, Routine.bind_apply, Routine.ite_apply,
    if_neg hcpu]
  cases hd : p.1.dispatch target with
  | none =>
    simp only [Routine.gets_apply, Coop.bind_ret, hd]
    trivial
  | some record =>
    simp only [Routine.gets_apply, Coop.bind_ret, hd, Routine.bind_apply, Routine.call_apply,
      Coop.bind_call]
    exact meetsIn_out hp (Or.inr hi) fun q => ⟨_, rfl, rfl⟩

/-- The wakeup of the retrace queue. -/
theorem staysReady_wake (cpu : CpuPtr) : StaysReady config (lift (wakeRetraceQueue cpu)) := by
  unfold wakeRetraceQueue
  rw [lift_bind]
  apply staysReady_bind (staysReady_read32IfMapped _)
  intro queueHead
  rw [lift_bind]
  apply staysReady_bind (staysReady_read32IfMapped _)
  intro queueTail
  split
  · exact fun _ _ hp => hp
  intro g p hp
  have hset : (lift (setGpr cpu 3 kViRetraceQueueAddr) : VI Unit) p =
      .ret () (p.1.setGpr cpu 3 kViRetraceQueueAddr, p.2) := rfl
  have hready : RetraceReady config g (p.1.setGpr cpu 3 kViRetraceQueueAddr, p.2) := hp
  rw [lift_bind, Routine.bind_of hset]
  simp only [lift, invokeTranslatedCpu, Routine.bind_apply]
  cases hmask : (p.1.setGpr cpu 3 kViRetraceQueueAddr).translated kOSWakeupThreadFunction with
  | none =>
    simp only [Routine.gets_apply, Coop.bind_ret, hmask]
    trivial
  | some mask =>
    simp only [Routine.gets_apply, Coop.bind_ret, hmask, Routine.bind_apply, Routine.call_apply,
      Coop.bind_call]
    exact meetsIn_out hready (Or.inl ⟨⟨cpu, rfl⟩, by simp [Away.argument]⟩) fun q =>
      ⟨_, rfl, rfl⟩

/-- The callbacks, with none before the retrace: the one behind it is what was registered last. -/
theorem staysReady_callbacks (hcpu : cpu ≠ 0) (retraceValue : Word) :
    StaysReady config (lift (runRetraceCallbacks cpu retraceValue)) := by
  rintro g ⟨s, v⟩ ⟨⟨f, hd, hr⟩, hinit⟩
  have hread : Updates config (do
      let preCallback ← read32IfMapped kViPreRetraceCallbackAddr
      let postCallback ← read32IfMapped kViPostRetraceCallbackAddr
      setGpr cpu 3 retraceValue
      pure (preCallback, postCallback)) f (f .preRetraceCallback, f .postRetraceCallback) f := by
    apply updates_bind (updates_read32IfMapped (g := .preRetraceCallback) rfl)
    apply updates_bind (updates_read32IfMapped (g := .postRetraceCallback) rfl)
    exact updates_bind (updates_setGpr _ _ _) (updates_pure _)
  obtain ⟨s', hrun, hd'⟩ := hread s hd
  have hready : RetraceReady config g (s', v) := ⟨⟨f, hd', hr⟩, hinit⟩
  have hsplit : runRetraceCallbacks cpu retraceValue = (do
      let preCallback ← read32IfMapped kViPreRetraceCallbackAddr
      let postCallback ← read32IfMapped kViPostRetraceCallbackAddr
      setGpr cpu 3 retraceValue
      pure (preCallback, postCallback)) >>= fun c => (do
        onlyIf (decide (c.1 ≠ 0#32)) (invokeIndirectCpu c.1 cpu)
        let system ← if c.2 = 0#32 then pure 0#32 else read32IfMapped kEggSSystemAddr
        onlyIf (decide (system ≠ 0#32)) (invokeIndirectCpu c.2 cpu)) := by
    funext s
    simp only [runRetraceCallbacks, Routine.bind_apply, Coop.bind_assoc, Routine.pure_apply,
      Coop.bind_ret]
  have hfirst : (lift (do
      let preCallback ← read32IfMapped kViPreRetraceCallbackAddr
      let postCallback ← read32IfMapped kViPostRetraceCallbackAddr
      setGpr cpu 3 retraceValue
      pure (preCallback, postCallback)) : VI (Word × Word)) (s, v) =
      .ret (f .preRetraceCallback, f .postRetraceCallback) (s', v) := by
    rw [lift, hrun]
    rfl
  rw [hsplit, lift_bind, Routine.bind_of hfirst, hr.pre hinit, hr.post hinit]
  have hnone : (lift (onlyIf (decide ((0#32 : Word) ≠ 0#32)) (invokeIndirectCpu 0#32 cpu)) :
      VI Unit) (s', v) = .ret () (s', v) := rfl
  dsimp only
  rw [lift_bind, Routine.bind_of hnone]
  by_cases hzero : g.registered.headD 0#32 = 0#32
  · rw [if_pos hzero]
    exact hready
  · rw [if_neg hzero, lift_bind]
    have hlast : HandOff.CallsLast
        ⟨.guest (g.registered.headD 0#32) cpu, s'.gpr cpu 3, g.registered⟩ := by
      cases hregistered : g.registered with
      | nil =>
        rw [hregistered] at hzero
        exact absurd rfl hzero
      | cons callback older =>
        rw [hregistered] at hzero
        exact ⟨callback, older, cpu, rfl, hzero, rfl⟩
    rcases read32IfMapped_cases kEggSSystemAddr (s', v) with ⟨x, hegg⟩ | ⟨e, hegg⟩
    · rw [Routine.bind_of hegg]
      unfold onlyIf
      split
      · exact meetsIn_invokeIndirectCpu hcpu hready hlast
      · exact hready
    · rw [Routine.bind_apply, hegg]
      trivial

/-! ## The entry points -/

/-- An entry point that returns at once. -/
theorem meetsIn_of_advances {r : VI Unit} {s : Machine Memory} (hd : Displays config s.mem f)
    (hr : Registers g f' v') (h : Advances config r f v () f' v') :
    (r (s, v)).MeetsIn (callbackContract config) (fun g' _ q => ShowsCallbacks config g' q) g := by
  obtain ⟨s', hrun, hd'⟩ := h s hd
  exact meetsIn_of_ret hrun ⟨f', hd', hr⟩

/-- A retrace counts, and then calls out. -/
theorem viWaitForRetrace_keeps (hp : ShowsCallbacks config g p) (cpu : CpuPtr) :
    (viWaitForRetrace cpu p).MeetsIn (callbackContract config)
      (fun g' _ q => ShowsCallbacks config g' q) g := by
  obtain ⟨s, v⟩ := p
  obtain ⟨f, hd, hr⟩ := hp
  by_cases hcpu : cpu = 0
  · unfold viWaitForRetrace
    rw [Routine.ite_apply, if_pos hcpu]
    exact ⟨f, hd, hr⟩
  obtain ⟨s₁, hinit, hd₁⟩ := advances_viInit (v := v) cpu s hd
  obtain ⟨s₂, hpace, hd₂⟩ := advances_paceRetrace s₁ hd₁
  obtain ⟨s₃, hcommit, hd₃⟩ := advances_commitArmed s₂ hd₂
  obtain ⟨s₄, hpublish, hd₄⟩ := advances_publishRetrace v.inited.target s₃ hd₃
  have hready : RetraceReady config g (s₄, v.retraced) :=
    ⟨⟨f.retraced v, hd₄, hr.retraced⟩, v.retraced_initialized⟩
  have hrest : StaysReady config (do
      lift (wakeRetraceQueue cpu)
      lift (runRetraceCallbacks cpu (v.inited.paced.committed.retraceCount + 1#32))
      lift (setGpr cpu 3 0#32) : VI Unit) := by
    apply staysReady_bind (staysReady_wake cpu)
    intro _
    apply staysReady_bind (staysReady_callbacks hcpu _)
    exact fun _ => staysReady_setGpr _ _ _
  unfold viWaitForRetrace
  rw [Routine.ite_apply, if_neg hcpu, Routine.bind_of hinit, Routine.bind_of hpace,
    Routine.bind_of hcommit, Routine.bind_of hpublish]
  exact (hrest g _ hready).mono fun _ _ _ hq => hq.1

/-- The entry points that register nothing. -/
theorem entry_keeps (hp : ShowsCallbacks config g p) (c : ViCall) (cpu : CpuPtr) :
    (c.routine cpu p).MeetsIn (callbackContract config)
      (fun g' _ q => ShowsCallbacks config g' q) g := by
  obtain ⟨s, v⟩ := p
  have hshow := hp
  obtain ⟨f, hd, hr⟩ := hp
  cases c with
  | init => exact meetsIn_of_advances hd hr.inited (advances_viInit cpu)
  | configure =>
    by_cases hrej : RejectsMode config cpu (s.gpr cpu 3)
    · obtain ⟨s', hrun, hd'⟩ := viConfigure_rejects (v := v) hd hrej
      exact meetsIn_of_ret hrun ⟨f, hd', hr⟩
    · obtain ⟨s', mode, hrun, hd'⟩ := viConfigure_runs (v := v) hd hrej
      exact meetsIn_of_ret hrun ⟨f.inited v, hd', hr.inited.congr rfl rfl rfl⟩
  | setBlack =>
    obtain ⟨s', hrun, hd'⟩ := viSetBlack_runs (v := v) cpu hd
    apply meetsIn_of_ret hrun
    unfold ViState.blackened
    by_cases hcpu : cpu = 0
    · rw [if_pos hcpu] at hd' ⊢
      exact ⟨f, hd', hr⟩
    · rw [if_neg hcpu] at hd' ⊢
      exact ⟨f.inited v, hd', hr.inited.congr rfl rfl rfl⟩
  | flush =>
    have hflushed : Registers g (f.inited v) (v.inited.flushed (f.inited v)) :=
      hr.inited.congr rfl rfl rfl
    exact meetsIn_of_advances hd hflushed (advances_viFlush cpu)
  | waitForRetrace => exact viWaitForRetrace_keeps hshow cpu

/-- VISetPostRetraceCallback gives the callback that was registered before. -/
theorem viSetPostRetraceCallback_runs (hp : ShowsCallbacks config g p) (hcpu : cpu ≠ 0) :
    ∃ p', viSetPostRetraceCallback cpu p = .ret () p' ∧
      p'.1.gpr cpu 3 = g.registered.headD 0#32 ∧
      viWord p'.1.mem .postRetraceCallback = some (p.1.gpr cpu 3) ∧
      ShowsCallbacks config { g with registered := p.1.gpr cpu 3 :: g.registered } p' := by
  obtain ⟨s, v⟩ := p
  obtain ⟨f, hd, hr⟩ := hp
  obtain ⟨s₁, hinit, hd₁⟩ := advances_viInit (v := v) cpu s hd
  obtain ⟨s₂, hread, hd₂⟩ :=
    updates_read32IfMapped (g := .postRetraceCallback) rfl s₁ hd₁
  obtain ⟨s₃, hwrite, hd₃⟩ := updates_write32IfMapped (g := .postRetraceCallback) rfl
    (s.gpr cpu 3) s₂ hd₂
  have hprevious : f.inited v .postRetraceCallback = g.registered.headD 0#32 :=
    hr.inited.post v.inited_initialized
  refine ⟨(s₃.setGpr cpu 3 (g.registered.headD 0#32), v.inited), ?_, ?_, ?_, ?_⟩
  · have hread' : (lift (read32IfMapped kViPostRetraceCallbackAddr) : VI Word) (s₁, v.inited) =
        .ret (g.registered.headD 0#32) (s₂, v.inited) := by
      rw [lift, show read32IfMapped kViPostRetraceCallbackAddr s₁ = _ from hread, ← hprevious]
      rfl
    have hwrite' : (lift (write32IfMapped kViPostRetraceCallbackAddr (s.gpr cpu 3)) : VI Unit)
        (s₂, v.inited) = .ret () (s₃, v.inited) := by
      rw [lift, show write32IfMapped kViPostRetraceCallbackAddr _ s₂ = _ from hwrite]
      rfl
    have hget : (lift (getGpr cpu 3) : VI Word) (s, v) = .ret (s.gpr cpu 3) (s, v) := rfl
    have hcode : viSetPostRetraceCallback cpu = (lift (getGpr cpu 3) >>= fun newCallback =>
        viInit cpu >>= fun _ => lift (read32IfMapped kViPostRetraceCallbackAddr) >>=
        fun previousCallback => lift (write32IfMapped kViPostRetraceCallbackAddr newCallback) >>=
        fun _ => lift (setGpr cpu 3 previousCallback) : VI Unit) := by
      unfold viSetPostRetraceCallback
      rw [if_neg hcpu]
      rfl
    rw [hcode, Routine.bind_of hget, Routine.bind_of hinit, Routine.bind_of hread',
      Routine.bind_of hwrite']
    rfl
  · simp
  · rw [show (s₃.setGpr cpu 3 (g.registered.headD 0#32), v.inited).1.mem = s₃.mem from rfl,
      hd₃.words, Function.update_self]
  · refine ⟨_, hd₃, ?_⟩
    constructor
    case post => exact fun _ => Function.update_self ..
    case pre =>
      intro _
      rw [Function.update_of_ne (by decide)]
      exact hr.inited.pre v.inited_initialized
    case fresh => exact fun hno => absurd (hno.symm.trans v.inited_initialized) (by decide)
    case begun => exact fun _ => v.inited_initialized
    case handOffs => exact hr.handOffs

/-! ## Every run -/

theorem entryCall_grows (c : ViCall) (cpu : CpuPtr) : (entryCall c cpu).Grows :=
  ⟨fun _ _ _ => ⟨fun _ => rfl, List.suffix_rfl, List.suffix_cons _ _⟩, fun _ _ => le_rfl⟩

theorem registerCall_grows (cpu : CpuPtr) (callback : Word) : (registerCall cpu callback).Grows :=
  ⟨fun _ _ _ => ⟨fun _ => rfl, List.suffix_rfl, List.suffix_cons _ _⟩,
    fun _ _ => ⟨id, List.suffix_cons _ _, List.suffix_rfl⟩⟩

theorem CallbackRun.shows (hmaps : MapsVi config)
    {P : Coop.Pool CallbackWorld (Machine Memory × ViState) Stop Away} (h : CallbackRun config P) :
    ShowsCallbacks config P.world P.state := by
  refine (Coop.PoolRun.keeps (ShowsCallbacks config) ?_ ?_ ?_ h).1
  · rintro g ⟨s, v⟩ ⟨hs, ⟨clock, rfl⟩, rfl⟩
    obtain ⟨f, hd⟩ := exists_displays hmaps hs
    refine ⟨f, hd, ?_, ?_, fun _ => rfl, ?_, fun _ hno => absurd hno List.not_mem_nil⟩
    · exact fun hno => absurd hno Bool.false_ne_true
    · exact fun hno => absurd hno Bool.false_ne_true
    · exact fun hno => absurd hno Bool.false_ne_true
  · rintro g p g' p' ⟨f, hd, hr⟩ ⟨rfl, hs, hstate, hpre, hpost⟩
    obtain ⟨f', hd'⟩ := exists_displays hmaps hs
    refine ⟨le_rfl, f', hd', hr.congr (by rw [hstate]) ?_ ?_⟩
    · exact Option.some.inj ((hd'.words _).symm.trans (hpost.trans (hd.words _)))
    · exact Option.some.inj ((hd'.words _).symm.trans (hpre.trans (hd.words _)))
  · rintro g p x hp hx
    cases hx with
    | entry c cpu => exact ⟨entryCall_grows c cpu, entry_keeps hp c cpu⟩
    | register cpu hcpu =>
      refine ⟨registerCall_grows cpu _, ?_⟩
      obtain ⟨p', hrun, _, _, hshows⟩ := viSetPostRetraceCallback_runs hp hcpu
      exact meetsIn_of_ret hrun hshows

/-- In every run, with callbacks and woken threads that call the video interface and register
callbacks themselves: each call out of a retrace is the wakeup of its queue, or of the callback that
was registered last; and a call of VISetPostRetraceCallback at any time gives the callback that was
registered before it and puts its own in its place. -/
theorem retraces_call_what_was_registered (hmaps : MapsVi config)
    {P : Coop.Pool CallbackWorld (Machine Memory × ViState) Stop Away} (h : CallbackRun config P) :
    (∀ c ∈ P.world.handOffs, c.WakesRetraceQueue ∨ c.CallsLast) ∧
    ∀ cpu, cpu ≠ 0 → ∃ p', viSetPostRetraceCallback cpu P.state = .ret () p' ∧
      p'.1.gpr cpu 3 = P.world.registered.headD 0#32 ∧
      viWord p'.1.mem .postRetraceCallback = some (P.state.1.gpr cpu 3) := by
  have hshows := h.shows hmaps
  refine ⟨?_, fun cpu hcpu => ?_⟩
  · obtain ⟨f, _, hr⟩ := hshows
    exact hr.handOffs
  · obtain ⟨p', hrun, hr3, hword, _⟩ := viSetPostRetraceCallback_runs hshows hcpu
    exact ⟨p', hrun, hr3, hword⟩

end

/-! ## A retrace that calls back -/

/-- A Wii whose system object is made and whose guest code can be called, with a callback in
r3. -/
def callbackBoot : Option (Machine Memory × ViState) :=
  wiiBoot.bind fun m => (m.write32 kEggSSystemAddr 1#32).map fun m =>
    ({ bootMachine m with dispatch := fun _ => some ⟨false, 0#32⟩ }.setGpr 1 3 0x80001234#32,
      .start fun _ => 0)

theorem callbackBoot_starts {p : Machine Memory × ViState} (h : callbackBoot = some p) :
    CallbackStart wiiDefaults ⟨false, [], []⟩ p := by
  obtain ⟨m, hm, h⟩ := Option.bind_eq_some_iff.mp h
  obtain ⟨m', hwrite, rfl⟩ := Option.map_eq_some_iff.mp h
  exact ⟨(wiiBoot_serves hm).write32 hwrite, ⟨_, rfl⟩, rfl⟩

/-- A callback is registered, and the first retrace gives the machine to it. -/
theorem the_first_retrace_calls_back :
    ∃ P : Coop.Pool CallbackWorld (Machine Memory × ViState) Stop Away,
      P.world.handOffs.map HandOff.away = [.guest 0x80001234#32 1] ∧
      (∀ c ∈ P.world.handOffs, c.WakesRetraceQueue ∨ c.CallsLast) ∧
      ∀ cpu, cpu ≠ 0 → ∃ p', viSetPostRetraceCallback cpu P.state = .ret () p' ∧
        p'.1.gpr cpu 3 = P.world.registered.headD 0#32 ∧
        viWord p'.1.mem .postRetraceCallback = some (P.state.1.gpr cpu 3) := by
  have hrun : (callbackBoot.bind fun p => (viSetPostRetraceCallback 1 p).ended.bind fun q =>
      (viWaitForRetrace 1 q.2).firstCall.map Prod.fst) = some (.guest 0x80001234#32 1) := by
    decide +kernel
  obtain ⟨p, hp, hrun⟩ := Option.bind_eq_some_iff.mp hrun
  obtain ⟨⟨_, q⟩, hq, hrun⟩ := Option.bind_eq_some_iff.mp hrun
  obtain ⟨⟨_, s⟩, hs, rfl⟩ := Option.map_eq_some_iff.mp hrun
  obtain ⟨k, hcall⟩ := Coop.call_of_firstCall hs
  have hregister : Coop.Settles (fun _ : Away => True) (fun _ _ _ => False)
      (viSetPostRetraceCallback 1 p) q none := by
    rw [Coop.ret_of_ended hq]
    exact .ret () q
  have hregistered : CallbackRun wiiDefaults _ := .ends (.start (callbackBoot_starts hp))
    (BeginsViCall.register 1 Nat.one_ne_zero) hregister
  have haway : Coop.Settles (fun _ : Away => True) (fun _ _ _ => False)
      (viWaitForRetrace 1 q) s (some (.guest 0x80001234#32 1, k)) := by
    rw [hcall]
    exact .waits trivial
  have hretrace : CallbackRun wiiDefaults _ :=
    .waits hregistered (BeginsViCall.entry .waitForRetrace 1) haway
  exact ⟨_, rfl, retraces_call_what_was_registered wii_mapsVi hretrace⟩

end wii_switch
