-- Starts and stops of the runtime in any order, on any host. A context or a memory that a start
-- took is given back by the next stop, the worker answers both switches whenever it can be
-- created, no product is called before the low memory is seeded, and the stop point says how
-- far the start came.
import WiiSwitch.Bootstrap

namespace wii_switch

open Bytes OS Boot

/-! ## The worker against the scheduler -/

/-- What each context goes on with when it is switched to. -/
abbrev Parked := Handle → BootState → Coop BootState Stop Away Unit

/-- A switch to a context runs it until it switches back to the scheduler. -/
def switchBack : Away → Parked → BootState → Option (BootState × Parked)
  | .host target, parked, p =>
    match parked target p with
    | .call (.host back) p' rest =>
      if back = p'.2.scheduler then some (p', Function.update parked target rest) else none
    | _ => none
  | _, _, _ => none

/-- A fresh context begins at `worker_entry`. -/
def freshContexts (turns : Nat) : Parked := fun _ => workerEntry turns

/-- A start, with all the contexts that it creates. -/
def runStart (linked : Linked) (host : Answers) (turns : Nat) (p : BootState) :
    Option (Except Stop BootResult × BootState × Parked) :=
  (Boot.start linked host p).against switchBack (freshContexts turns)

section

variable {p q : BootState} {t : Handle} {turns : Nat}

theorem lift_hostSwitch (ht : t ≠ 0) (hcurrent : p.1.hosts.current ≠ 0)
    (hne : t ≠ p.1.hosts.current) : Boot.lift (hostSwitch t) p =
      .call (.host t) (p.1.onHost t, p.2) fun q => .ret () (q.1.onHost p.1.hosts.current, q.2) := by
  unfold Boot.lift hostSwitch
  simp [ht, hcurrent, hne, Coop.beside]

/-- The second part of `worker_entry`, when the worker gets the host back. -/
def workerRest (turns : Nat) (worker : Handle) (p : BootState) : Coop BootState Stop Away Unit :=
  (do
    Boot.modify (·.withPhase 2)
    Boot.lift (hostSwitch (← Boot.gets (·.scheduler)))
    workerLoop turns : Boot Unit) (p.1.onHost worker, p.2)

/-- The third part. -/
def workerEnd (turns : Nat) (worker : Handle) (p : BootState) : Coop BootState Stop Away Unit :=
  workerLoop turns (p.1.onHost worker, p.2)

/-- The worker has the host, and the scheduler is another context. -/
structure WorkerRuns (t : Handle) (p : BootState) : Prop where
  current : p.1.hosts.current = t
  worker : t ≠ 0
  scheduler : p.2.scheduler ≠ 0
  apart : p.2.scheduler ≠ t

theorem workerEntry_first (h : WorkerRuns t p) : workerEntry turns p =
    .call (.host p.2.scheduler) (p.1.onHost p.2.scheduler, p.2.withPhase 1)
      (workerRest turns t) := by
  have hcurrent : (p.1, p.2.withPhase 1).1.hosts.current ≠ 0 := by
    change p.1.hosts.current ≠ 0
    rw [h.current]
    exact h.worker
  have hne : p.2.scheduler ≠ (p.1, p.2.withPhase 1).1.hosts.current := by
    change _ ≠ p.1.hosts.current
    rw [h.current]
    exact h.apart
  have hswitch := lift_hostSwitch (p := (p.1, p.2.withPhase 1)) h.scheduler hcurrent hne
  unfold workerEntry
  simp only [Routine.bind_apply, Boot.modify_apply, Boot.gets_apply, Coop.bind_ret,
    BootGlobals.withPhase_scheduler]
  rw [hswitch, Coop.bind_call, h.current]
  rfl

theorem workerRest_second (turns : Nat) (h : WorkerRuns t (p.1.onHost t, p.2)) :
    workerRest turns t p =
    .call (.host p.2.scheduler) (p.1.onHost p.2.scheduler, p.2.withPhase 2)
      (workerEnd turns t) := by
  have hswitch := lift_hostSwitch (p := (p.1.onHost t, p.2.withPhase 2))
    h.scheduler h.worker h.apart
  unfold workerRest
  simp only [Routine.bind_apply, Boot.modify_apply, Boot.gets_apply, Coop.bind_ret,
    BootGlobals.withPhase_scheduler]
  rw [hswitch]
  rfl

end

/-! ## The states between the parts -/

/-- No call is going on: the scheduler is the only context, if there is one. -/
structure BootIdle (p : BootState) : Prop where
  worker : p.2.worker = 0
  current : p.1.hosts.current = p.2.scheduler
  live : ∀ h, p.1.hosts.live h = true ↔ h ≠ 0 ∧ h = p.2.scheduler
  below : p.2.scheduler < p.1.hosts.next
  booted : Booted p.1.mem

/-- A start has brought up the memory and both contexts. -/
structure BootUp (p : BootState) : Prop where
  scheduler : p.2.scheduler ≠ 0
  worker : p.2.worker ≠ 0
  apart : p.2.worker ≠ p.2.scheduler
  current : p.1.hosts.current = p.2.scheduler
  live : ∀ h, p.1.hosts.live h = true ↔ h = p.2.scheduler ∨ h = p.2.worker
  below : p.2.scheduler < p.1.hosts.next
  booted : Booted p.1.mem
  serves : Serves wiiDefaults p.1.mem

section

variable {p q : BootState} {turns : Nat} {parked : Parked}

theorem Machine.onHost_self {s : Machine Memory} {h : Handle} (hcurrent : s.hosts.current = h) :
    s.onHost h = s := by
  subst hcurrent
  rfl

/-- What a switch to the worker does to the scheduler. -/
theorem switch_worker (h : BootUp p) (parked : Parked) {phase : Nat}
    {rest rest' : BootState → Coop BootState Stop Away Unit}
    (hparked : parked p.2.worker = rest)
    (hrest : rest (p.1.onHost p.2.worker, p.2) = .call (.host p.2.scheduler)
      ((p.1.onHost p.2.worker).onHost p.2.scheduler, p.2.withPhase phase) rest') :
    (Boot.lift (hostSwitch p.2.worker) p).against switchBack parked =
      some (.ok (), (p.1, p.2.withPhase phase),
        Function.update parked p.2.worker rest') := by
  have hcurrent : p.1.hosts.current ≠ 0 := by
    rw [h.current]
    exact h.scheduler
  have hne : p.2.worker ≠ p.1.hosts.current := by
    rw [h.current]
    exact h.apart
  have hanswer : switchBack (.host p.2.worker) parked (p.1.onHost p.2.worker, p.2) =
      some (((p.1.onHost p.2.worker).onHost p.2.scheduler, p.2.withPhase phase),
        Function.update parked p.2.worker rest') := by
    unfold switchBack
    simp only [hparked, hrest, BootGlobals.withPhase_scheduler, if_true]
  rw [lift_hostSwitch h.worker hcurrent hne, Coop.against_call hanswer, Coop.against_ret, h.current]
  change some (Except.ok (), (p.1.onHost p.2.scheduler, _), _) = _
  rw [Machine.onHost_self h.current]

theorem BootUp.workerRuns (h : BootUp p) : WorkerRuns p.2.worker (p.1.onHost p.2.worker, p.2) :=
  ⟨rfl, h.worker, h.scheduler, h.apart.symm⟩

theorem BootUp.phase (h : BootUp p) (n : Nat) : BootUp (p.1, p.2.withPhase n) :=
  ⟨h.scheduler, h.worker, h.apart, h.current, h.live, h.below, h.booted, h.serves⟩

/-- The state after the worker was destroyed. -/
def withoutWorker (p : BootState) (phase : Nat) : BootState :=
  (p.1.withHosts { p.1.hosts with live := Function.update p.1.hosts.live p.2.worker false },
    (p.2.withPhase phase).withWorker 0)

theorem lift_hostDestroy (h : BootUp p) : Boot.lift (hostDestroy p.2.worker) p =
    .ret ()
      (p.1.withHosts { p.1.hosts with live := Function.update p.1.hosts.live p.2.worker false },
        p.2) := by
  have hne : ¬(p.2.worker = 0 ∨ p.2.worker = p.1.hosts.current) := by
    rw [h.current]
    exact not_or.mpr ⟨h.worker, h.apart⟩
  unfold Boot.lift hostDestroy
  simp [hne, Coop.beside]

/-- Both switches reach the worker, and then it is gone. -/
theorem handOff_runs (h : BootUp p) (r : BootResult) (turns : Nat) : ∃ parked,
    (handOff r p).against switchBack (freshContexts turns) =
      some (.ok (r.handed true true),
        withoutWorker p 2, parked) := by
  have hfirst := switch_worker h (freshContexts turns) rfl (workerEntry_first h.workerRuns)
  have h₁ := h.phase 1
  have hrest := workerRest_second (t := p.2.worker)
    (p := (p.1.onHost p.2.worker, p.2.withPhase 1)) turns h₁.workerRuns
  have hsecond := switch_worker h₁ (Function.update (freshContexts turns) p.2.worker
    (workerRest turns p.2.worker)) (Function.update_self ..) hrest
  refine ⟨Function.update (Function.update (freshContexts turns) p.2.worker
    (workerRest turns p.2.worker)) p.2.worker (workerEnd turns p.2.worker), ?_⟩
  unfold handOff
  simp only [Routine.bind_apply, Boot.gets_apply, Coop.bind_ret]
  rw [Coop.against_bind hfirst]
  simp only [BootGlobals.withPhase_workerPhase, decide_true, if_true]
  have hcontinue : (continueWorker (p.1, p.2.withPhase 1)).against switchBack
      (Function.update (freshContexts turns) p.2.worker (workerRest turns p.2.worker)) =
      some (.ok true, (p.1, p.2.withPhase 2),
        Function.update (Function.update (freshContexts turns) p.2.worker
          (workerRest turns p.2.worker)) p.2.worker (workerEnd turns p.2.worker)) := by
    unfold continueWorker
    simp only [Routine.bind_apply, Boot.gets_apply, Coop.bind_ret]
    rw [Coop.against_bind hsecond]
    rfl
  rw [Routine.bind_apply, Coop.against_bind hcontinue]
  have hdestroy := lift_hostDestroy (h.phase 2)
  simp only [BootGlobals.withPhase_worker] at hdestroy
  simp only [Routine.bind_apply, Boot.gets_apply, Coop.bind_ret, BootGlobals.withPhase_worker,
    hdestroy]
  rfl

/-! ## The contexts -/

/-- The contexts that were there are the contexts that are there. -/
structure HostsKept (before after : HostContexts) : Prop where
  current : after.current = before.current
  live : after.live = before.live
  next : before.next ≤ after.next

theorem HostsKept.refl (hosts : HostContexts) : HostsKept hosts hosts := ⟨rfl, rfl, le_refl _⟩

/-- The contexts and the scheduler decide whether a state is idle. -/
theorem BootIdle.of (h : BootIdle p) (hhosts : HostsKept p.1.hosts q.1.hosts)
    (hscheduler : q.2.scheduler = p.2.scheduler) (hworker : q.2.worker = p.2.worker)
    (hbooted : Booted q.1.mem) : BootIdle q where
  worker := hworker.trans h.worker
  current := by rw [hhosts.current, hscheduler, h.current]
  live := by rw [hhosts.live, hscheduler]; exact h.live
  below := by rw [hscheduler]; exact Nat.lt_of_lt_of_le h.below hhosts.next
  booted := hbooted

/-- A refused allocation spends a handle. -/
def spent (p : BootState) : BootState :=
  (p.1.withHosts { p.1.hosts with next := p.1.hosts.next + 1 }, p.2)

theorem BootIdle.spent (h : BootIdle p) : BootIdle (spent p) :=
  ⟨h.worker, h.current, h.live, Nat.lt_succ_of_lt h.below, h.booted⟩

/-- What `InitializeScheduler` does: it makes a context exactly when there is none and the host
has room for it. -/
structure SchedulerTried (p : BootState) (b : Bool) (q : BootState) : Prop where
  idle : BootIdle q
  mem : q.1.mem = p.1.mem
  calls : q.2.calls = p.2.calls
  made : b = true ↔ p.2.scheduler = 0 ∧ p.1.hosts.grants p.1.hosts.next = true
  scheduler : b = true → q.2.scheduler ≠ 0
  next : b = true → q.1.hosts.next = p.1.hosts.next + 1
  grants : q.1.hosts.grants = p.1.hosts.grants

theorem initializeScheduler_runs (h : BootIdle p) :
    ∃ b q, Boot.initializeScheduler p = .ret b q ∧ SchedulerTried p b q := by
  unfold Boot.initializeScheduler
  simp only [Routine.bind_apply, Routine.gets_apply, Coop.bind_ret]
  by_cases hcurrent : p.1.hosts.current ≠ 0
  · rw [if_pos hcurrent]
    have hsome : p.2.scheduler ≠ 0 := h.current ▸ hcurrent
    exact ⟨false, p, rfl, h, rfl, rfl, by simp [hsome], by simp, by simp, rfl⟩
  · rw [if_neg hcurrent]
    rw [not_not] at hcurrent
    simp only [Routine.bind_apply, onHosts_apply, Coop.bind_ret]
    by_cases hroom : p.1.hosts.grants p.1.hosts.next = false
    · rw [if_pos hroom]
      exact ⟨false, wii_switch.spent p, rfl, h.spent, rfl, rfl, by simp [hroom], by simp, by simp,
        rfl⟩
    · rw [if_neg hroom]
      rw [Bool.not_eq_false] at hroom
      have hnone : p.2.scheduler = 0 := h.current.symm.trans hcurrent
      have hnext : p.1.hosts.next ≠ 0 := Nat.ne_of_gt (Nat.lt_of_le_of_lt (Nat.zero_le _) h.below)
      refine ⟨true, _, rfl, ⟨h.worker, rfl, fun x => ?_, Nat.lt_succ_self _, h.booted⟩, rfl,
        rfl, by simp [hnone, hroom], fun _ => hnext, fun _ => rfl, rfl⟩
      change Function.update p.1.hosts.live p.1.hosts.next true x = true ↔
        x ≠ 0 ∧ x = p.1.hosts.next
      by_cases hx : x = p.1.hosts.next
      · subst hx
        simp [hnext]
      · rw [Function.update_of_ne hx, h.live x, hnone]
        simp [hx]

/-- The worker context is created, or the state stays idle. -/
theorem createWorker_runs (h : BootIdle p) (hscheduler : p.2.scheduler ≠ 0)
    (hs : Serves wiiDefaults p.1.mem) : ∃ w q, Boot.lift (hostCreate 0#32) p = .ret w q ∧
      q.1.mem = p.1.mem ∧ q.2 = p.2 ∧ (w ≠ 0 ↔ p.1.hosts.grants p.1.hosts.next = true) ∧
      (w = 0 → BootIdle q) ∧ (w ≠ 0 → BootUp (q.1, q.2.withWorker w)) := by
  have hcurrent : p.1.hosts.current ≠ 0 := by
    rw [h.current]
    exact hscheduler
  unfold Boot.lift hostCreate
  simp only [Routine.bind_apply, Routine.gets_apply, Coop.bind_ret, if_neg hcurrent,
    Routine.modify_apply]
  by_cases hroom : p.1.hosts.grants p.1.hosts.next = true
  · have hnext : p.1.hosts.next ≠ 0 := Nat.ne_of_gt (Nat.lt_of_le_of_lt (Nat.zero_le _) h.below)
    rw [if_pos hroom]
    refine ⟨p.1.hosts.next, _, rfl, rfl, rfl, by simp [hnext, hroom],
      fun hzero => absurd hzero hnext, fun _ => ?_⟩
    refine ⟨hscheduler, hnext, Nat.ne_of_gt h.below, h.current, fun x => ?_,
      Nat.lt_succ_of_lt h.below, h.booted, hs⟩
    change Function.update p.1.hosts.live p.1.hosts.next true x = true ↔
      x = p.2.scheduler ∨ x = p.1.hosts.next
    by_cases hx : x = p.1.hosts.next
    · subst hx
      simp
    · rw [Function.update_of_ne hx, h.live x]
      simp only [hx, or_false]
      exact ⟨fun hlive => hlive.2, fun heq => ⟨heq ▸ hscheduler, heq⟩⟩
  · rw [if_neg hroom]
    exact ⟨0, wii_switch.spent p, rfl, rfl, rfl, by simp [hroom], fun _ => h.spent,
      fun hne => absurd rfl hne⟩

/-- The state after a shutdown of the scheduler. -/
theorem shutdownScheduler_runs (h : BootIdle p) (hscheduler : p.2.scheduler ≠ 0) :
    ∃ q, Boot.shutdownScheduler p.2.scheduler p = .ret () q ∧
    q.1.mem = p.1.mem ∧ q.2 = p.2 ∧
      BootIdle (q.1, q.2.withScheduler 0) := by
  unfold Boot.shutdownScheduler
  rw [if_neg hscheduler]
  refine ⟨_, rfl, rfl, rfl, ⟨h.worker, ?_, fun x => ?_, ?_, h.booted⟩⟩
  · exact if_pos h.current
  · change Function.update p.1.hosts.live p.2.scheduler false x = true ↔ x ≠ 0 ∧ x = 0
    by_cases hx : x = p.2.scheduler
    · subst hx
      simp [hscheduler]
    · rw [Function.update_of_ne hx, h.live x]
      simp only [hx, and_false, false_iff, not_and]
      exact fun hne => hne
  · exact Nat.lt_of_le_of_lt (Nat.zero_le _) h.below

theorem reset_down (m : Memory) : m.reset.initialized = false := by
  unfold Memory.reset
  split <;> rfl

/-- There is no scheduler yet, and the host has room for two contexts. -/
def RoomForBoth (p : BootState) : Prop :=
  p.2.scheduler = 0 ∧ p.1.hosts.grants p.1.hosts.next = true ∧
    p.1.hosts.grants (p.1.hosts.next + 1) = true

/-- What the contexts of a start come to: both are there, or neither and no memory. -/
structure ContextsTried (p : BootState) (b : Bool) (q : BootState) : Prop where
  calls : q.2.calls = p.2.calls
  made : b = true ↔ RoomForBoth p
  down : b = false → BootIdle q ∧ q.1.mem.initialized = false
  up : b = true → BootUp q

theorem bringUpContexts_runs (h : BootIdle p) (hs : Serves wiiDefaults p.1.mem) :
    ∃ b q, Boot.bringUpContexts p = .ret b q ∧ ContextsTried p b q := by
  have h₀ : BootIdle (p.1, p.2.withPhase 0) := h.of (.refl _) rfl rfl h.booted
  obtain ⟨b, q, hrun, htried⟩ := initializeScheduler_runs h₀
  have hmade : b = true ↔ p.2.scheduler = 0 ∧ p.1.hosts.grants p.1.hosts.next =
    true := htried.made
  have hcalls : q.2.calls = p.2.calls := htried.calls
  unfold Boot.bringUpContexts
  simp only [Routine.bind_apply, Boot.modify_apply, Coop.bind_ret, hrun]
  cases b with
  | false =>
    have hno : ¬RoomForBoth p := fun hroom =>
      Bool.false_ne_true (hmade.mpr ⟨hroom.1, hroom.2.1⟩)
    refine ⟨false, (q.1.withMem q.1.mem.reset, q.2), rfl, hcalls, by simp [hno], fun _ => ?_,
      by simp⟩
    exact ⟨htried.idle.of (.refl _) rfl rfl (.reset htried.idle.booted), reset_down q.1.mem⟩
  | true =>
    have hsq : Serves wiiDefaults q.1.mem := htried.mem ▸ hs
    obtain ⟨w, u, hcreate, humem, hu, hgranted, hrefused, hup⟩ :=
      createWorker_runs htried.idle (htried.scheduler rfl) hsq
    have hroom : RoomForBoth p ↔ w ≠ 0 := by
      rw [hgranted, htried.next rfl, htried.grants]
      exact ⟨fun hroom => hroom.2.2, fun hsecond =>
        ⟨(hmade.mp rfl).1, (hmade.mp rfl).2, hsecond⟩⟩
    have hucalls : u.2.calls = p.2.calls := by rw [hu]; exact hcalls
    simp only [Bool.true_eq_false, if_false, Routine.bind_apply, Boot.modify_apply, Coop.bind_ret,
      hcreate]
    by_cases hw : w = 0
    · subst hw
      have hidle : BootIdle (u.1, u.2.withWorker 0) :=
        (hrefused rfl).of (.refl _) rfl (hrefused rfl).worker.symm (hrefused rfl).booted
      have hne : u.2.scheduler ≠ 0 := by rw [hu]; exact htried.scheduler rfl
      obtain ⟨v, hshut, hvmem, hv, hvidle⟩ := shutdownScheduler_runs hidle hne
      simp only [BootGlobals.withWorker_scheduler] at hshut
      rw [if_pos rfl]
      simp only [Routine.bind_apply, Boot.gets_apply, Coop.bind_ret,
        BootGlobals.withWorker_scheduler, hshut, Boot.modify_apply, memoryReset_apply]
      refine ⟨false, _, rfl, ?_, by simp [hroom], fun _ => ?_, by simp⟩
      · change v.2.calls = p.2.calls
        rw [hv]
        exact hucalls
      · exact ⟨hvidle.of (.refl _) rfl rfl (.reset hvidle.booted), reset_down v.1.mem⟩
    · rw [if_neg hw]
      exact ⟨true, _, rfl, hucalls, by simp [hroom, hw], by simp, fun _ => hup hw⟩

/-! ## The memory of a Wii -/

/-- The host refuses what the memory of a Wii needs: the address window, its reservation, or the
block of MEM1, of MEM2 or of the locked cache. -/
def HostEnv.RefusesWii (env : HostEnv) : Prop :=
  env.findAslr = none ∨ env.addReservation = none ∨ ∃ i < 3, env.callocOk i = false

/-- The seven regions come to three sections. -/
theorem wii_sections : ∃ sections regions,
    (wiiDefaults.map Memory.request).foldlM addRegion .fresh =
      .ok { FlatState.fresh with sections := sections, regions := regions } ∧
    sections.length = 3 := by
  have hbuilt : Built [] FlatState.fresh :=
    ⟨List.nodup_nil, List.Forall₂.nil, by simp [FlatState.fresh]⟩
  obtain ⟨sections, regions, heq, _⟩ :=
    foldlM_addRegion_fits hbuilt wiiDefaults_admissible.fitting.1 (by decide)
  have hlength : ((wiiDefaults.map Memory.request).foldlM addRegion .fresh).toOption.map
      (fun st => st.sections.length) = some 3 := by decide
  rw [heq] at hlength
  exact ⟨sections, regions, heq, Option.some.inj hlength⟩

/-- `Memory::Init` aborts exactly on such a host. -/
theorem memoryInit_refused_iff {env : HostEnv} {m : Memory} (h : Booted m) :
    Memory.init env wiiDefaults m = none ↔ env.RefusesWii := by
  obtain ⟨sections, regions, hloop, hlength⟩ := wii_sections
  have hsome := (@init_isSome_iff env _ _ wiiDefaults_admissible h).trans
    (initializeGuestFlat_iff hloop wiiDefaults_admissible.fitting.2 m.reset.host)
  rw [hlength] at hsome
  rw [← Option.not_isSome_iff_eq_none, hsome]
  simp only [not_and_or, not_forall, Bool.not_eq_true, exists_prop, Option.isSome_eq_false_iff,
    Option.isNone_iff_eq_none, HostEnv.RefusesWii]

/-! ## The first part of a start -/

/-- The four services that a start needs. -/
def ServiceStatus.ready (status : ServiceStatus) : Bool :=
  status.lifecycleReady && status.filesystemReady && status.timingReady && status.inputReady

/-- How the first part of a start ends. -/
inductive BroughtUp (linked : Linked) (host : Answers) (p : BootState) :
    Coop BootState Stop Away (BootResult × Bool) → Prop
  | refused {status : ServiceStatus} {q : BootState} :
    status = (initializeServices host.services p.2.services).1 → status.ready = false →
    BootIdle q → q.2.calls = p.2.calls →
    BroughtUp linked host p (.ret (BootResult.opened linked status, false) q)
  | aborted {q : BootState} :
    (initializeServices host.services p.2.services).1.ready = true →
    host.memory.RefusesWii →
    BroughtUp linked host p (.stop (.boundary "Memory::Init" 0#32) q)
  | contexts {status : ServiceStatus} {b : Bool} {p' q : BootState} :
    status = (initializeServices host.services p.2.services).1 → status.ready = true →
    ¬host.memory.RefusesWii →
    (RoomForBoth p' ↔ RoomForBoth p) → p'.2.calls = p.2.calls → ContextsTried p' b q →
    BroughtUp linked host p (.ret ((BootResult.opened linked status).upTo b, b) q)

theorem bringUp_runs (h : BootIdle p) (linked : Linked) (host : Answers) :
    BroughtUp linked host p (Boot.bringUp linked host p) := by
  generalize hstatus : initializeServices host.services p.2.services = services
  have h₀ : BootIdle (p.1, p.2.withServices services.2) := h.of (.refl _) rfl rfl h.booted
  have hfirst : services.1 = (initializeServices host.services p.2.services).1 :=
    congrArg Prod.fst hstatus.symm
  unfold Boot.bringUp
  simp only [Routine.bind_apply, Boot.gets_apply, Boot.modify_apply, Coop.bind_ret, hstatus]
  have hflags : (!(BootResult.opened linked services.1).lifecycleReady ||
      !(BootResult.opened linked services.1).filesystemReady ||
      !(BootResult.opened linked services.1).timingReady ||
      !(BootResult.opened linked services.1).inputReady) = !services.1.ready := by
    simp [BootResult.opened, ServiceStatus.ready, Bool.not_and]
  rw [hflags]
  cases hready : services.1.ready with
  | false => exact .refused hfirst hready h₀ rfl
  | true =>
    simp only [Bool.not_true, Bool.false_eq_true, if_false, Routine.bind_apply]
    unfold Boot.memoryInit
    cases hinit : Memory.init host.memory wiiDefaults p.1.mem with
    | none => exact .aborted (hfirst ▸ hready) ((memoryInit_refused_iff h.booted).mp hinit)
    | some m =>
      have hserves : Serves wiiDefaults m := Serves.init wiiDefaults_admissible h.booted hinit
      have hm : BootIdle (p.1.withMem m, p.2.withServices services.2) :=
        h₀.of (.refl _) rfl rfl (.init h.booted hinit)
      obtain ⟨b, q, hrun, htried⟩ := bringUpContexts_runs hm hserves
      simp only [Coop.bind_ret, lift_isInitialized, Machine.withMem_mem, hserves.initialized,
        Bool.true_eq_false, if_false, Routine.bind_apply, hrun, Routine.pure_apply]
      have hgranted : ¬host.memory.RefusesWii := by
        rw [← memoryInit_refused_iff h.booted, hinit]
        simp
      refine .contexts hfirst hready hgranted ?_ ?_ htried
      · exact Iff.rfl
      · rfl

end

/-! ## The products -/

/-- What the code of a product is trusted with: it destroys the host contexts that it creates and
no others, and changes the memory by stores. -/
structure Linked.Contained (linked : Linked) : Prop where
  dataInit : ∀ api entry, linked.dataInit = some api → api.entry = some entry → ∀ m,
    HostsKept m.hosts (entry m).2.hosts ∧ ∃ ws, runStores m.mem ws = some (entry m).2.mem
  execution : ∀ api entry, linked.execution = some api → api.entry = some entry → ∀ m,
    HostsKept m.hosts (entry m).2.hosts ∧ ∃ ws, runStores m.mem ws = some (entry m).2.mem

/-- The low memory has the words of the loader. -/
structure SeededWii (m : Memory) : Prop where
  serves : Serves wiiDefaults m
  words : ∀ e ∈ seedEntries pinnedLayout, m.read32 e.address = some e.value

/-- All that a call into a product needs. -/
def HandoffStatus.usable (status : HandoffStatus) : Bool :=
  status.linked && status.abiCompatible && status.available

/-- All that a call of the data initializer needs. -/
structure InitReady (r : BootResult) : Prop where
  core : coreReady r = true
  linked : r.product.linked = true
  abi : r.product.abiCompatible = true
  enabled : r.dataInitHandoffEnabled = true
  usable : r.dataInit.usable = true

/-- How far the products go. -/
inductive ProductsRun (r : BootResult) (calls : List BootEvent) :
    BootResult → List BootEvent → Prop
  | notReady : coreReady r = false → ProductsRun r calls r calls
  | unlinked : coreReady r = true → r.product.linked = false →
    ProductsRun r calls (r.stoppedAt .waitingForTranslatedProduct) calls
  | foreignAbi : coreReady r = true → r.product.linked = true →
    r.product.abiCompatible = false →
    ProductsRun r calls r calls
  | disabled : coreReady r = true → r.product.linked = true → r.product.abiCompatible = true →
    r.dataInitHandoffEnabled = false →
    ProductsRun r calls (r.stoppedAt .translatedProductLinked) calls
  | noInitializer : coreReady r = true → r.product.linked = true →
    r.product.abiCompatible = true → r.dataInitHandoffEnabled = true →
    r.dataInit.usable = false →
    ProductsRun r calls (r.stoppedAt .waitingForDataInitializer) calls
  | failed {m : Memory} : InitReady r → SeededWii m →
    ProductsRun r calls (r.tried false) (.dataInit m false :: calls)
  | initialized {m : Memory} : InitReady r → SeededWii m → r.executionHandoffEnabled = false →
    ProductsRun r calls (r.tried true) (.dataInit m true :: calls)
  | noRunner {m : Memory} : InitReady r → SeededWii m → r.executionHandoffEnabled = true →
    r.execution.usable = false →
    ProductsRun r calls ((r.tried true).stoppedAt .waitingForTranslatedExecution)
      (.dataInit m true :: calls)
  | executed {m : Memory} {b : Bool} {probe : ProbeResult} : InitReady r → SeededWii m →
    r.executionHandoffEnabled = true → r.execution.usable = true →
    ProductsRun r calls ((r.tried true).executed b probe)
      (.firstFunction b :: .dataInit m true :: calls)

section

variable {p q : BootState} {linked : Linked} {r : BootResult} {m : Memory}

theorem Booted.stores {m' : Memory} {ws : List Store} (h : Booted m)
    (hws : runStores m ws = some m') : Booted m' := by
  induction ws generalizing m with
  | nil =>
    rw [runStores, List.foldlM_nil] at hws
    exact Option.some_inj.mp hws ▸ h
  | cons w ws ih =>
    rw [runStores, List.foldlM_cons] at hws
    obtain ⟨m₁, hw, hrest⟩ := Option.bind_eq_some_iff.mp hws
    exact ih (.write h hw) hrest

theorem Serves.stores {config : List RegionConfig} {m' : Memory} {ws : List Store}
    (h : Serves config m) (hws : runStores m ws = some m') : Serves config m' := by
  induction ws generalizing m with
  | nil =>
    rw [runStores, List.foldlM_nil] at hws
    exact Option.some_inj.mp hws ▸ h
  | cons w ws ih =>
    rw [runStores, List.foldlM_cons] at hws
    obtain ⟨m₁, hw, hrest⟩ := Option.bind_eq_some_iff.mp hws
    exact ih (h.write hw) hrest

/-- A memory that is down has given everything back. -/
theorem Booted.down (h : Booted m) (hdown : m.initialized = false) : m.flat = .fresh := by
  induction h with
  | start h => rfl
  | reset hm _ => exact reset_flat hm.flat
  | @init m m' env config _ hinit _ =>
    unfold Memory.init at hinit
    simp only at hinit
    split at hinit
    · split at hinit
      · cases hinit
      · rw [Option.some.injEq] at hinit
        subst hinit
        cases hdown
    · cases hinit
  | @write m m' w _ hw ih =>
    rw [Memory.write_eq, Memory.writeAs] at hw
    split at hw
    · cases hw
    · obtain ⟨host, _, rfl⟩ := Option.map_eq_some_iff.mp hw
      exact ih hdown

/-- Where a handoff is usable there is an entry to call. -/
theorem usable_entry {β : Type} {api : Option (HandoffApi β)}
    (h : (inspectHandoff api).usable = true) :
    ∃ a entry, api = some a ∧ a.abiVersion = kAbiVersion ∧ a.entry = some entry := by
  cases api with
  | none => cases h
  | some a =>
    simp only [inspectHandoff, HandoffStatus.usable, Bool.and_eq_true, decide_eq_true_eq] at h
    obtain ⟨entry, hentry⟩ := Option.isSome_iff_exists.mp h.2.2
    exact ⟨a, entry, rfl, h.2.1, hentry⟩

/-- The scheduler and the memory of a Wii are up, and no worker is. -/
structure BootSteady (p : BootState) : Prop where
  idle : BootIdle p
  scheduler : p.2.scheduler ≠ 0
  serves : Serves wiiDefaults p.1.mem

/-- A contained product keeps the state steady. -/
theorem BootSteady.of (h : BootSteady p) {m : Memory} {ws : List Store}
    (hws : runStores p.1.mem ws = some m) (hhosts : HostsKept p.1.hosts q.1.hosts)
    (hmem : q.1.mem = m)
    (hscheduler : q.2.scheduler = p.2.scheduler) (hworker : q.2.worker = p.2.worker) :
    BootSteady q where
  idle := h.idle.of hhosts hscheduler hworker (hmem ▸ h.idle.booted.stores hws)
  scheduler := hscheduler ▸ h.scheduler
  serves := hmem ▸ h.serves.stores hws

theorem runDataInitializer_runs (h : BootSteady p) (hcontained : linked.Contained)
    (husable : (inspectHandoff linked.dataInit).usable = true) :
    ∃ b q m, Boot.runDataInitializer linked.dataInit p = .ret b q ∧
    BootSteady q ∧ SeededWii m ∧
      q.2.calls = .dataInit m b :: p.2.calls := by
  obtain ⟨api, entry, hapi, habi, hentry⟩ := usable_entry husable
  obtain ⟨m, hseed, hseeded⟩ := seedPinnedDefaults_runs h.serves
  have hlift : Boot.lift seedPinnedDefaults p = .ret () (p.1.withMem m, p.2) := by
    rw [Boot.lift, hseed]
    rfl
  obtain ⟨hhosts, ws, hws⟩ := hcontained.dataInit api entry hapi hentry (p.1.withMem m)
  obtain ⟨ws', hws'⟩ := hseeded.stores
  have hm : BootSteady (p.1.withMem m, p.2) := h.of hws' (.refl _) rfl rfl rfl
  unfold Boot.runDataInitializer
  rw [hapi]
  dsimp only
  rw [if_neg (not_not.mpr habi), hentry]
  dsimp only
  rw [Routine.bind_of hlift]
  exact ⟨_, _, m, rfl, hm.of hws hhosts rfl rfl rfl,
    ⟨hseeded.serves, fun e he => hseeded.words e he (seedEntries_mapped e he)⟩, rfl⟩

theorem runFirstTranslatedFunction_runs (h : BootSteady p) (hcontained : linked.Contained)
    (husable : (inspectHandoff linked.execution).usable = true) :
    ∃ b probe q, Boot.runFirstTranslatedFunction linked.execution p = .ret (b, probe) q ∧
      BootSteady q ∧ q.2.calls = .firstFunction b :: p.2.calls := by
  obtain ⟨api, entry, hapi, habi, hentry⟩ := usable_entry husable
  obtain ⟨hhosts, ws, hws⟩ := hcontained.execution api entry hapi hentry p.1
  unfold Boot.runFirstTranslatedFunction
  rw [hapi]
  dsimp only
  rw [if_neg (not_not.mpr habi), hentry]
  exact ⟨_, _, _, rfl, h.of hws hhosts rfl rfl rfl, rfl⟩

theorem not_usable_iff (status : HandoffStatus) :
    (!status.linked || !status.abiCompatible || !status.available) = !status.usable := by
  simp [HandoffStatus.usable, Bool.not_and]

theorem runProducts_runs (h : BootSteady p) (hcontained : linked.Contained)
    (hinit : r.dataInit = inspectHandoff linked.dataInit)
    (hrun : r.execution = inspectHandoff linked.execution) : ∃ r' q,
      Boot.runProducts linked r p = .ret r' q ∧ BootSteady q ∧
        ProductsRun r p.2.calls r' q.2.calls := by
  unfold Boot.runProducts
  rw [not_usable_iff]
  cases hcore : coreReady r with
  | false => exact ⟨r, p, rfl, h, .notReady hcore⟩
  | true =>
  cases hlinked : r.product.linked with
  | false => exact ⟨_, p, rfl, h, .unlinked hcore hlinked⟩
  | true =>
  cases habi : r.product.abiCompatible with
  | false => exact ⟨r, p, rfl, h, .foreignAbi hcore hlinked habi⟩
  | true =>
  cases henabled : r.dataInitHandoffEnabled with
  | false => exact ⟨_, p, rfl, h, .disabled hcore hlinked habi henabled⟩
  | true =>
  cases husable : r.dataInit.usable with
  | false => exact ⟨_, p, rfl, h, .noInitializer hcore hlinked habi henabled husable⟩
  | true =>
    have hready : InitReady r := ⟨hcore, hlinked, habi, henabled, husable⟩
    obtain ⟨b, q, m, hcall, hq, hm, hcalls⟩ :=
      runDataInitializer_runs h hcontained (hinit ▸ husable)
    simp only [Bool.not_true, Bool.false_eq_true, if_false, Routine.bind_apply, hcall,
      Coop.bind_ret]
    cases b with
    | false => exact ⟨_, q, rfl, hq, hcalls ▸ .failed hready hm⟩
    | true =>
      cases hexec : r.executionHandoffEnabled with
      | false => exact ⟨_, q, rfl, hq, hcalls ▸ .initialized hready hm hexec⟩
      | true =>
        have hsame : (r.tried true).execution = r.execution := rfl
        simp only [Bool.and_self, if_true]
        unfold Boot.execute
        rw [not_usable_iff, hsame]
        cases hrunner : r.execution.usable with
        | false => exact ⟨_, q, rfl, hq, hcalls ▸ .noRunner hready hm hexec hrunner⟩
        | true =>
          obtain ⟨passed, probe, u, hfirst, hu, hucalls⟩ :=
            runFirstTranslatedFunction_runs hq hcontained (hrun ▸ hrunner)
          simp only [Bool.not_true, Bool.false_eq_true, if_false, Routine.bind_apply, hfirst,
            Coop.bind_ret]
          refine ⟨_, u, rfl, hu, ?_⟩
          rw [hucalls, hcalls]
          exact .executed hready hm hexec hrunner

/-! ## What a start tells -/

/-- What a stop point says of the rest of the result. -/
def StopPoint.Means (r : BootResult) : StopPoint → Prop
  | failed => coreReady r = false ∨ r.product.linked = true ∧ r.product.abiCompatible = false
  | waitingForTranslatedProduct => coreReady r = true ∧ r.product.linked = false
  | translatedProductLinked => coreReady r = true ∧ r.product.linked = true ∧
    r.product.abiCompatible = true ∧ r.dataInitHandoffEnabled = false
  | waitingForDataInitializer => coreReady r = true ∧ r.product.linked = true ∧
    r.product.abiCompatible = true ∧ r.dataInitHandoffEnabled = true ∧ r.dataInit.usable = false
  | dataSectionInitializationFailed =>
    r.dataSectionsInitAttempted = true ∧ r.dataSectionsInitialized = false
  | dataSectionsInitialized =>
    r.dataSectionsInitialized = true ∧ r.executionHandoffEnabled = false
  | waitingForTranslatedExecution => r.dataSectionsInitialized = true ∧
    r.executionHandoffEnabled = true ∧ r.execution.usable = false
  | translatedBootstrapPreludeExecuted =>
    r.executionPassed = true ∧ r.bootstrapPreludeMode = true
  | translatedBootstrapPreludeExecutionFailed => r.executionAttempted = true ∧
    r.executionPassed = false ∧ r.bootstrapPreludeMode = true
  | translatedSequenceExecuted => r.executionPassed = true ∧ r.bootstrapPreludeMode = false ∧
    r.sequenceMode = true
  | translatedSequenceExecutionFailed => r.executionAttempted = true ∧
    r.executionPassed = false ∧ r.bootstrapPreludeMode = false ∧ r.sequenceMode = true
  | translatedFunctionExecuted => r.executionPassed = true ∧ r.bootstrapPreludeMode = false ∧
    r.sequenceMode = false
  | translatedFunctionExecutionFailed => r.executionAttempted = true ∧
    r.executionPassed = false ∧ r.bootstrapPreludeMode = false ∧ r.sequenceMode = false

/-- No product was called yet. -/
structure Untried (r : BootResult) : Prop where
  attempted : r.dataSectionsInitAttempted = false
  initialized : r.dataSectionsInitialized = false
  executionAttempted : r.executionAttempted = false
  executionPassed : r.executionPassed = false
  stopPoint : r.stopPoint = .failed

/-- What the result of a start says of what the start did. -/
structure StartTells (r : BootResult) : Prop where
  handOffs : r.hostContextSchedulerReady = true →
    r.hostContextFirstHandoff = true ∧ r.hostContextContinuation = true
  ready : r.dataSectionsInitAttempted = true → InitReady r
  initialized : r.dataSectionsInitialized = true → r.dataSectionsInitAttempted = true
  executed : r.executionAttempted = true → r.dataSectionsInitialized = true ∧
    r.executionHandoffEnabled = true ∧ r.execution.usable = true
  passed : r.executionPassed = true → r.executionAttempted = true
  stopPoint : ∀ stopPoint : StopPoint, r.stopPoint = stopPoint ↔ stopPoint.Means r

/-- The calls that a result reports, newest first. -/
def BootResult.called (r : BootResult) (m : Memory) : List BootEvent :=
  (if r.executionAttempted then [.firstFunction r.executionPassed] else []) ++
    if r.dataSectionsInitAttempted then [.dataInit m r.dataSectionsInitialized] else []

/-- Calls into products in their order: a first function runs right behind a data initializer
that succeeded, and a data initializer finds the words of the loader. -/
def CallsInOrder : List BootEvent → Prop
  | [] => True
  | .dataInit m _ :: calls => SeededWii m ∧ CallsInOrder calls
  | .firstFunction _ :: .dataInit m b :: calls => b = true ∧ SeededWii m ∧ CallsInOrder calls
  | .firstFunction _ :: _ => False

theorem ProductsRun.calls {r' : BootResult} {calls calls' : List BootEvent}
    (h : ProductsRun r calls r' calls') (hr : Untried r) (m₀ : Memory) :
    ∃ m, calls' = r'.called m ++ calls := by
  have hattempted := hr.attempted
  have hexecuted := hr.executionAttempted
  cases h with
  | @failed m _ _ => exact ⟨m, by simp [BootResult.called, BootResult.tried, hexecuted]⟩
  | @initialized m _ _ _ => exact ⟨m, by simp [BootResult.called, BootResult.tried, hexecuted]⟩
  | @noRunner m _ _ _ _ =>
    exact ⟨m, by simp [BootResult.called, BootResult.tried, BootResult.stoppedAt, hexecuted]⟩
  | @executed m _ _ _ _ _ _ =>
    exact ⟨m, by simp [BootResult.called, BootResult.tried, BootResult.executed]⟩
  | _ => exact ⟨m₀, by simp [BootResult.called, BootResult.stoppedAt, hattempted, hexecuted]⟩

theorem ProductsRun.inOrder {r' : BootResult} {calls calls' : List BootEvent}
    (h : ProductsRun r calls r' calls') (hcalls : CallsInOrder calls) : CallsInOrder calls' := by
  cases h with
  | failed _ hm => exact ⟨hm, hcalls⟩
  | initialized _ hm _ => exact ⟨hm, hcalls⟩
  | noRunner _ hm _ _ => exact ⟨hm, hcalls⟩
  | executed _ hm _ _ => exact ⟨rfl, hm, hcalls⟩
  | _ => exact hcalls

/-- The flags that a later part of the start does not touch. -/
theorem InitReady.congr {r' : BootResult} (h : InitReady r) (hcore : coreReady r' = coreReady r)
    (hproduct : r'.product = r.product)
    (henabled : r'.dataInitHandoffEnabled = r.dataInitHandoffEnabled)
    (hinit : r'.dataInit = r.dataInit) : InitReady r' where
  core := hcore.trans h.core
  linked := hproduct ▸ h.linked
  abi := hproduct ▸ h.abi
  enabled := henabled.trans h.enabled
  usable := hinit ▸ h.usable

theorem ProductsRun.tells {r' : BootResult} {calls calls' : List BootEvent}
    (h : ProductsRun r calls r' calls') (hr : Untried r)
    (hhand : r.hostContextSchedulerReady = true →
      r.hostContextFirstHandoff = true ∧ r.hostContextContinuation = true) : StartTells r' := by
  obtain ⟨h1, h2, h3, h4, h5⟩ := hr
  cases h with
  | notReady hcore =>
    refine ⟨hhand, by simp [h1], by simp [h2], by simp [h3], by simp [h4], fun sp => ?_⟩
    cases sp <;> simp [StopPoint.Means, hcore, h1, h2, h3, h4, h5]
  | unlinked hcore hlinked =>
    refine ⟨hhand, by simp [BootResult.stoppedAt, h1], by simp [BootResult.stoppedAt, h2],
      by simp [BootResult.stoppedAt, h3], by simp [BootResult.stoppedAt, h4], fun sp => ?_⟩
    simp only [coreReady, Bool.and_eq_true] at hcore
    cases sp <;> simp [StopPoint.Means, coreReady, hcore, BootResult.stoppedAt, hlinked, h1, h2, h3,
      h4]
  | foreignAbi hcore hlinked habi =>
    refine ⟨hhand, by simp [h1], by simp [h2], by simp [h3], by simp [h4], fun sp => ?_⟩
    cases sp <;> simp [StopPoint.Means, hcore, hlinked, habi, h1, h2, h3, h4, h5]
  | disabled hcore hlinked habi henabled =>
    refine ⟨hhand, by simp [BootResult.stoppedAt, h1], by simp [BootResult.stoppedAt, h2],
      by simp [BootResult.stoppedAt, h3], by simp [BootResult.stoppedAt, h4], fun sp => ?_⟩
    simp only [coreReady, Bool.and_eq_true] at hcore
    cases sp <;> simp [StopPoint.Means, coreReady, hcore, BootResult.stoppedAt, hlinked, habi,
      henabled, h1, h2, h3, h4]
  | noInitializer hcore hlinked habi henabled husable =>
    refine ⟨hhand, by simp [BootResult.stoppedAt, h1], by simp [BootResult.stoppedAt, h2],
      by simp [BootResult.stoppedAt, h3], by simp [BootResult.stoppedAt, h4], fun sp => ?_⟩
    simp only [coreReady, Bool.and_eq_true] at hcore
    cases sp <;> simp [StopPoint.Means, coreReady, hcore, BootResult.stoppedAt, hlinked, habi,
      henabled, husable, h1, h2, h3, h4]
  | failed hready _ =>
    have hready' : InitReady (r.tried false) := hready.congr rfl rfl rfl rfl
    refine ⟨hhand, fun _ => hready', by simp [BootResult.tried], by simp [BootResult.tried, h3],
      by simp [BootResult.tried, h4], fun sp => ?_⟩
    obtain ⟨g1, g2, g3, g4, g5⟩ := hready'
    cases sp <;> simp_all [StopPoint.Means, BootResult.tried]
  | initialized hready _ hexec =>
    have hready' : InitReady (r.tried true) := hready.congr rfl rfl rfl rfl
    refine ⟨hhand, fun _ => hready', by simp [BootResult.tried], by simp [BootResult.tried, h3],
      by simp [BootResult.tried, h4], fun sp => ?_⟩
    obtain ⟨g1, g2, g3, g4, g5⟩ := hready'
    cases sp <;> simp_all [StopPoint.Means, BootResult.tried]
  | noRunner hready _ hexec hrunner =>
    have hready' : InitReady ((r.tried true).stoppedAt .waitingForTranslatedExecution) :=
      hready.congr rfl rfl rfl rfl
    refine ⟨hhand, fun _ => hready', by simp [BootResult.tried, BootResult.stoppedAt],
      by simp [BootResult.tried, BootResult.stoppedAt, h3],
      by simp [BootResult.tried, BootResult.stoppedAt, h4], fun sp => ?_⟩
    obtain ⟨g1, g2, g3, g4, g5⟩ := hready'
    cases sp <;> simp_all [StopPoint.Means, BootResult.tried, BootResult.stoppedAt]
  | @executed m b probe hready _ hexec hrunner =>
    have hready' : InitReady ((r.tried true).executed b probe) := hready.congr rfl rfl rfl rfl
    refine ⟨hhand, fun _ => hready', by simp [BootResult.tried, BootResult.executed],
      fun _ => ⟨rfl, hexec, hrunner⟩, fun _ => rfl, fun sp => ?_⟩
    obtain ⟨g1, g2, g3, g4, g5⟩ := hready'
    cases hprelude : r.bootstrapPreludeMode <;> cases hsequence : r.sequenceMode <;> cases b <;>
      cases sp <;> simp_all [StopPoint.Means, BootResult.tried, BootResult.executed,
        BootResult.executionStopPoint]

/-! ## Whole starts and stops -/

theorem Untried.tells (h : Untried r) (hcore : coreReady r = false)
    (hscheduler : r.hostContextSchedulerReady = false) : StartTells r := by
  have hrun : ProductsRun r [] r [] := .notReady hcore
  exact hrun.tells h (by simp [hscheduler])

theorem Untried.called (h : Untried r) (m : Memory) : r.called m = [] := by
  simp [BootResult.called, h.attempted, h.executionAttempted]

theorem untried_opened (linked : Linked) (status : ServiceStatus) :
    Untried (BootResult.opened linked status) := ⟨rfl, rfl, rfl, rfl, rfl⟩

/-- The worker is destroyed. -/
theorem BootUp.steady (h : BootUp p) (phase : Nat) : BootSteady (withoutWorker p phase) := by
  refine ⟨⟨rfl, h.current, fun x => ?_, h.below, h.booted⟩, h.scheduler, h.serves⟩
  change Function.update p.1.hosts.live p.2.worker false x = true ↔ x ≠ 0 ∧ x = p.2.scheduler
  by_cases hx : x = p.2.worker
  · subst hx
    simp [h.apart]
  · rw [Function.update_of_ne hx, h.live x]
    simp only [hx, or_false]
    exact ⟨fun heq => ⟨heq ▸ h.scheduler, heq⟩, fun hboth => hboth.2⟩

/-- What a start leaves behind: the result tells what happened, the calls that it tells of were
made, and what it took is there or was given back. -/
structure StartLeaves (r : BootResult) (p q : BootState) : Prop where
  idle : BootIdle q
  tells : StartTells r
  calls : ∃ m, q.2.calls = r.called m ++ p.2.calls
  inOrder : CallsInOrder p.2.calls → CallsInOrder q.2.calls
  up : r.hostContextSchedulerReady = true →
    q.2.scheduler ≠ 0 ∧ Serves wiiDefaults q.1.mem
  down : r.memoryReady = true → r.hostContextSchedulerReady = false →
    q.1.mem.initialized = false ∧ q.1.mem.flat = .fresh

theorem StartLeaves.untried (hr : Untried r) (hcore : coreReady r = false)
    (hscheduler : r.hostContextSchedulerReady = false) (hq : BootIdle q)
    (hcalls : q.2.calls = p.2.calls)
    (hdown : r.memoryReady = true → q.1.mem.initialized = false) : StartLeaves r p q where
  idle := hq
  tells := hr.tells hcore hscheduler
  calls := ⟨q.1.mem, by rw [hr.called, hcalls, List.nil_append]⟩
  inOrder h := hcalls ▸ h
  up h := absurd (hscheduler.symm.trans h) Bool.false_ne_true
  down hmem _ := ⟨hdown hmem, hq.booted.down (hdown hmem)⟩

/-- The products leave the first flags alone. -/
theorem ProductsRun.flags {r' : BootResult} {calls calls' : List BootEvent}
    (h : ProductsRun r calls r' calls') : r'.memoryReady = r.memoryReady ∧
      r'.hostContextSchedulerReady = r.hostContextSchedulerReady := by
  cases h <;> exact ⟨rfl, rfl⟩

/-- The second part of a start, behind the two contexts. -/
theorem start_products (h : BootUp p) (hcontained : linked.Contained) (hr : Untried r)
    (hready : r.hostContextSchedulerReady = true) (turns : Nat) : ∃ r' q parked,
    ((do
      let r ← handOff r
      runProducts linked (r.inspected linked) : Boot BootResult) p).against switchBack
        (freshContexts turns) = some (.ok r', q, parked) ∧ StartLeaves r' p q ∧
    r'.memoryReady = r.memoryReady ∧ r'.hostContextSchedulerReady = true := by
  obtain ⟨parked, hhand⟩ := handOff_runs h r turns
  have hr' : Untried ((r.handed true true).inspected linked) :=
    ⟨hr.attempted, hr.initialized, hr.executionAttempted, hr.executionPassed, hr.stopPoint⟩
  obtain ⟨r', q, hrun, hq, hproducts⟩ := runProducts_runs
    (r := (r.handed true true).inspected linked) (h.steady 2) hcontained rfl rfl
  obtain ⟨hmem, hscheduler⟩ := hproducts.flags
  have hup : r'.hostContextSchedulerReady = true := hscheduler.trans hready
  refine ⟨r', q, parked, ?_, ⟨hq.idle, hproducts.tells hr' fun _ => ⟨rfl, rfl⟩,
    hproducts.calls hr' p.1.mem, hproducts.inOrder, fun _ => ⟨hq.scheduler, hq.serves⟩,
    fun _ hdown => ?_⟩, hmem, hup⟩
  · rw [Routine.bind_apply, Coop.against_bind hhand, hrun, Coop.against_ret]
  · exact absurd (hup.symm.trans hdown) (by decide)

/-- How a start ends. -/
inductive StartEnds (linked : Linked) (host : Answers) (p : BootState) :
    Option (Except Stop BootResult × BootState × Parked) → Prop
  /-- The services are ready, and the host refuses the memory. -/
  | aborted {q : BootState} {parked : Parked} :
    (initializeServices host.services p.2.services).1.ready = true →
    host.memory.RefusesWii →
    StartEnds linked host p (some (.error (.boundary "Memory::Init" 0#32), q, parked))
  /-- The start returns. -/
  | returned {r : BootResult} {q : BootState} {parked : Parked} :
    (r.memoryReady = true ↔ (initializeServices host.services p.2.services).1.ready = true) →
    (r.hostContextSchedulerReady = true ↔ r.memoryReady = true ∧ RoomForBoth p) →
    (r.memoryReady = true → ¬host.memory.RefusesWii) →
    StartLeaves r p q → StartEnds linked host p (some (.ok r, q, parked))

/-- A start from an idle state. -/
theorem start_ends (h : BootIdle p) (hcontained : linked.Contained) (host : Answers)
    (turns : Nat) : StartEnds linked host p (runStart linked host turns p) := by
  unfold runStart Boot.start
  rw [Routine.bind_apply]
  generalize hrun : Boot.bringUp linked host p = c
  have hbrought := bringUp_runs h linked host
  rw [hrun] at hbrought
  cases hbrought with
  | aborted hready hrefused => exact .aborted hready hrefused
  | @refused status q hstatus hready hq hcalls =>
    subst hstatus
    have hcore : coreReady (BootResult.opened linked
        (initializeServices host.services p.2.services).1) = false := by
      simp [coreReady, BootResult.opened]
    refine .returned (by simp [hready, BootResult.opened]) (by simp [BootResult.opened])
      (by simp [BootResult.opened]) ?_
    exact .untried (untried_opened linked _) hcore rfl hq hcalls fun hmem => by cases hmem
  | @contexts status b p' q hstatus hready hmemory hroom hcalls htried =>
    subst hstatus
    generalize hopened : BootResult.opened linked
      (initializeServices host.services p.2.services).1 = r
    have hr : Untried (r.upTo b) := hopened ▸ ⟨rfl, rfl, rfl, rfl, rfl⟩
    have hqcalls : q.2.calls = p.2.calls := htried.calls.trans hcalls
    have hmade := htried.made.trans hroom
    cases b with
    | false =>
      have hcore : coreReady (r.upTo false) = false := by
        simp [coreReady, BootResult.upTo]
      have hno : ¬RoomForBoth p := fun hboth => Bool.false_ne_true (hmade.mpr hboth)
      refine .returned (by simp [hready, BootResult.upTo]) (by simp [hno, BootResult.upTo])
        (fun _ => hmemory) ?_
      exact .untried hr hcore rfl (htried.down rfl).1 hqcalls fun _ => (htried.down rfl).2
    | true =>
      obtain ⟨r', u, parked, hproducts, hleaves, hmem, hscheduler⟩ :=
        start_products (htried.up rfl) hcontained hr rfl turns
      have hmem' : r'.memoryReady = true := hmem
      obtain ⟨hidle, htells, hmade', horder, hleft, hgone⟩ := hleaves
      have hends : StartEnds linked host p (some (.ok r', u, parked)) :=
        .returned (by simp [hmem', hready]) (by simp [hmem', hscheduler, hmade.mp rfl])
          (fun _ => hmemory) ⟨hidle, htells, hqcalls ▸ hmade',
            hqcalls ▸ horder, hleft, hgone⟩
      rw [← hproducts] at hends
      exact hends

/-- A stop has given everything back. -/
structure Released (p : BootState) : Prop where
  scheduler : p.2.scheduler = 0
  worker : p.2.worker = 0
  phase : p.2.workerPhase = 0
  current : p.1.hosts.current = 0
  live : ∀ h, p.1.hosts.live h = false
  down : p.1.mem.initialized = false
  flat : p.1.mem.flat = .fresh

theorem stopScheduler_runs (h : BootIdle p) : ∃ q, Boot.stopScheduler p = .ret () q ∧
    q.1.mem = p.1.mem ∧ q.2.calls = p.2.calls ∧ q.2.scheduler = 0 ∧ BootIdle q := by
  unfold Boot.stopScheduler
  simp only [Routine.bind_apply, Boot.gets_apply, Coop.bind_ret]
  by_cases hscheduler : p.2.scheduler = 0
  · rw [if_pos hscheduler]
    exact ⟨p, rfl, rfl, rfl, hscheduler, h⟩
  · obtain ⟨q, hrun, hmem, hq, hidle⟩ := shutdownScheduler_runs h hscheduler
    rw [if_neg hscheduler]
    simp only [Routine.bind_apply, hrun, Coop.bind_ret, Boot.modify_apply]
    exact ⟨_, rfl, hmem, by rw [BootGlobals.withScheduler_calls, hq], rfl, hidle⟩

theorem stopMemory_runs (h : Booted p.1.mem) : ∃ m,
    Boot.stopMemory p = .ret () (p.1.withMem m, p.2) ∧ Booted m ∧ m.initialized = false := by
  unfold Boot.stopMemory
  simp only [Routine.bind_apply, lift_isInitialized, Coop.bind_ret]
  by_cases hup : p.1.mem.initialized = true
  · rw [if_pos hup, memoryReset_apply]
    exact ⟨p.1.mem.reset, rfl, .reset h, reset_down p.1.mem⟩
  · rw [if_neg hup]
    exact ⟨p.1.mem, rfl, h, by simpa using hup⟩

theorem stop_runs (h : BootIdle p) : ∃ q, Boot.stop p = .ret () q ∧
    Released q ∧ BootIdle q ∧
    q.2.calls = p.2.calls := by
  have hworker : Boot.stopWorker p = .ret () p := by
    unfold Boot.stopWorker
    simp only [Routine.bind_apply, Boot.gets_apply, Coop.bind_ret, if_pos h.worker,
      Routine.pure_apply]
  obtain ⟨u, hrun, humem, hcalls, hnone, hidle⟩ := stopScheduler_runs h
  obtain ⟨m, hmem, hbooted, hdown⟩ := stopMemory_runs hidle.booted
  have hlive : ∀ x, u.1.hosts.live x = false := by
    intro x
    rw [← Bool.not_eq_true, hidle.live x, hnone]
    exact fun hboth => hboth.1 hboth.2
  refine ⟨(u.1.withMem m, u.2.withPhase 0), ?_, ⟨hnone, hidle.worker, rfl,
    hidle.current.trans hnone, hlive, hdown, hbooted.down hdown⟩,
    hidle.of (.refl _) rfl rfl hbooted, hcalls⟩
  unfold Boot.stop
  rw [Routine.bind_of hworker, Routine.bind_of hrun, Routine.bind_of hmem, Boot.modify_apply]

/-! ## Every run -/

/-- The states between the starts and the stops of a process, in any order and number, with any
answers of the host. -/
inductive BootRun (linked : Linked) : BootState → Prop
  | begin {s : Machine Memory} {h : Host} : s.mem = ⟨false, [], .fresh, h⟩ →
    s.hosts.current = 0 → 0 < s.hosts.next → (∀ x, s.hosts.live x = false) →
    BootRun linked (s, .start)
  | started {p q : BootState} {host : Answers} {turns : Nat} {r : BootResult} {parked : Parked} :
    BootRun linked p → runStart linked host turns p = some (.ok r, q, parked) → BootRun linked q
  | stopped {p q : BootState} : BootRun linked p → Boot.stop p = .ret () q → BootRun linked q

theorem BootRun.keeps (h : BootRun linked p) (hcontained : linked.Contained) :
    BootIdle p ∧ CallsInOrder p.2.calls := by
  induction h with
  | @begin s _ hmem hcurrent hnext hlive =>
    have hlive' : ∀ x, s.hosts.live x = true ↔ x ≠ 0 ∧ x = 0 := by
      simp [hlive]
    have hbooted : Booted s.mem := by
      rw [hmem]
      exact .start _
    exact ⟨⟨rfl, hcurrent, hlive', hnext, hbooted⟩, trivial⟩
  | @started p q host turns r parked _ hrun ih =>
    have hends := start_ends ih.1 hcontained host turns
    rw [hrun] at hends
    cases hends with
    | returned _ _ _ hleaves => exact ⟨hleaves.idle, hleaves.inOrder ih.2⟩
  | @stopped p q _ hrun ih =>
    obtain ⟨q', hstop, _, hidle, hcalls⟩ := stop_runs ih.1
    rw [hrun] at hstop
    cases hstop
    exact ⟨hidle, hcalls ▸ ih.2⟩

/-- What holds between the starts and stops of any run. -/
structure BootInOrder (linked : Linked) (p : BootState) : Prop where
  idle : BootIdle p
  calls : CallsInOrder p.2.calls
  starts : ∀ host turns, StartEnds linked host p (runStart linked host turns p)
  stops : ∃ q, Boot.stop p = .ret () q ∧ Released q ∧ q.2.calls = p.2.calls

/-- Starts and stops in any order: nothing is left over, and no product is called too early. -/
theorem the_bootstrap_stays_in_order (hcontained : linked.Contained) (h : BootRun linked p) :
    BootInOrder linked p := by
  obtain ⟨hidle, hcalls⟩ := h.keeps hcontained
  obtain ⟨q, hrun, hreleased, _, hsame⟩ := stop_runs hidle
  exact ⟨hidle, hcalls, fun host turns => start_ends hidle hcontained host turns,
    ⟨q, hrun, hreleased, hsame⟩⟩

end

/-! ## A start with a product -/

/-- A product that stores a word as its data section, and then runs a function that clears r3 of
the first register file. -/
def storingProduct : Linked where
  product := some ⟨kAbiVersion, some "storing", none⟩
  dataInit := some ⟨kAbiVersion, some fun m =>
    match m.mem.write32 0x80001000#32 0x60000000#32 with
    | none => (false, m)
    | some mem => (true, m.withMem mem)⟩
  execution := some ⟨kAbiVersion, some fun m =>
    ((true, ⟨0x8000609C#32, m.gpr 1 1, m.gpr 1 2, m.gpr 1 13, m.gpr 1 3, 0#32⟩),
      m.setGpr 1 3 0#32)⟩
  dataInitHandoffEnabled := true
  executionHandoffEnabled := true
  sequenceMode := false
  bootstrapPreludeMode := false

theorem storingProduct_contained : storingProduct.Contained := by
  constructor
  · intro api entry hapi hentry m
    cases hapi
    cases hentry
    dsimp only
    cases hwrite : m.mem.write32 0x80001000#32 0x60000000#32 with
    | none => exact ⟨.refl _, [], rfl⟩
    | some mem =>
      refine ⟨.refl _, [⟨.w32, 0x80001000#32, 0x60000000#32⟩], ?_⟩
      rw [runStores, List.foldlM_cons]
      exact Option.bind_eq_some_iff.mpr ⟨mem, hwrite, rfl⟩
  · intro api entry hapi hentry m
    cases hapi
    cases hentry
    exact ⟨.refl _, [], rfl⟩

/-- The process begins. -/
def processStart : BootState :=
  (bootMachine ⟨false, [], .fresh, ⟨fun _ => none, 0, []⟩⟩, .start)

/-- The host grants everything. -/
def grantingHost : Answers :=
  ⟨⟨true, true, true, true, true, 1#64⟩, ⟨some 0, some 0, fun _ => true⟩⟩

/-- What the first start comes to: its stop point, the calls, and the word of the product. -/
def firstStart : Option (StopPoint × Nat × Option Word) :=
  match runStart storingProduct grantingHost 1 processStart with
  | some (.ok r, q, _) => some (r.stopPoint, q.2.calls.length, q.1.mem.read32 0x80001000#32)
  | _ => none

theorem firstStart_executes :
    firstStart = some (.translatedFunctionExecuted, 2, some 0x60000000#32) := by decide +kernel

/-- Behind its first start the product has stored its word, and everything is in order. -/
theorem a_storing_product_stays_in_order : ∃ q, BootInOrder storingProduct q ∧
    q.2.calls.length = 2 ∧ q.1.mem.read32 0x80001000#32 = some 0x60000000#32 := by
  have hfacts := firstStart_executes
  unfold firstStart at hfacts
  split at hfacts
  · rename_i r q parked hrun
    simp only [Option.some.injEq, Prod.mk.injEq] at hfacts
    have hbegin : BootRun storingProduct processStart :=
      .begin rfl rfl Nat.zero_lt_one fun _ => rfl
    exact ⟨q, the_bootstrap_stays_in_order storingProduct_contained (hbegin.started hrun),
      hfacts.2⟩
  · cases hfacts

end wii_switch
