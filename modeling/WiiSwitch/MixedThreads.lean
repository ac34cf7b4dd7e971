-- Threads with and without fibers in one run. SelectThread goes to the host stack of a thread
-- that has a fiber, and loads the context of another thread on the running stack. The load
-- does not touch the fiber table: whoever owned the registers there still owns them, and
-- the next switch stores the registers of the loaded thread in the record of the owner.
import WiiSwitch.SwitchRefinement

namespace wii_switch

open OS Routine SelectThread

/-! ## The load of a context leaves the fibers -/

/-- Only the outside changes the fiber table and the host contexts. -/
abbrev LeavesFibers {α : Type} (x : OS α) : Prop :=
  Routine.Steady (fun s : Machine Memory => (s.fibers, s.hosts)) x

theorem leavesFibers_read32 (a : Word) : LeavesFibers (read32 a) := by
  intro s
  unfold read32
  split <;> rfl

theorem leavesFibers_clearExceptionBit (context : Word) :
    LeavesFibers (clearExceptionBit context) := by
  have hread : LeavesFibers (read16 (context + kContextModeFlagsOffset)) := by
    intro s
    unfold read16
    split <;> rfl
  refine steady_bind hread fun modeFlags => steady_ite ?_ (steady_pure _)
  intro s
  unfold write16
  split <;> rfl

theorem leavesFibers_loadGprs (cpu : CpuPtr) (context : Word) (is : List (Fin 32)) :
    LeavesFibers (loadGprs cpu context is) := by
  induction is with
  | nil => exact steady_pure _
  | cons i is ih =>
    exact steady_bind (leavesFibers_read32 _) fun _ =>
      steady_bind (steady_modify fun _ => rfl) fun _ => ih

theorem leavesFibers_loadGqrs (cpu : CpuPtr) (context : Word) (is : List (Fin 8)) :
    LeavesFibers (loadGqrs cpu context is) := by
  induction is with
  | nil => exact steady_pure _
  | cons i is ih =>
    exact steady_bind (leavesFibers_read32 _) fun _ =>
      steady_bind (steady_modify fun _ => rfl) fun _ => ih

theorem leavesFibers_invokeIndirectJump (target : Word) (cpu : CpuPtr) :
    LeavesFibers (invokeIndirectJump target cpu) := by
  have htry : LeavesFibers (tryDispatchIndirect .jump target cpu) := by
    refine steady_ite (steady_pure _) (steady_bind (steady_gets _) fun record => ?_)
    cases record with
    | none => exact steady_pure _
    | some record =>
      refine steady_bind (steady_gets _) fun _ => steady_bind (steady_call _) fun _ => ?_
      exact steady_bind (steady_modify fun _ => rfl) fun _ => steady_pure _
  exact steady_bind htry fun _ => steady_ite (steady_pure _) (steady_stop _)

theorem leavesFibers_loadContextRegisters (cpu : CpuPtr) (context srr0 : Word) :
    LeavesFibers (loadContextRegisters cpu context srr0) := by
  refine steady_bind (leavesFibers_loadGprs cpu context _) fun _ => ?_
  refine steady_bind (leavesFibers_read32 _) fun _ => ?_
  refine steady_bind (leavesFibers_read32 _) fun _ => ?_
  refine steady_bind (leavesFibers_read32 _) fun _ => ?_
  refine steady_bind (leavesFibers_read32 _) fun _ => ?_
  refine steady_bind (steady_modify fun _ => rfl) fun _ => ?_
  refine steady_bind (steady_modify fun _ => rfl) fun _ => ?_
  refine steady_bind (leavesFibers_loadGqrs cpu context _) fun _ => ?_
  refine steady_bind (leavesFibers_clearExceptionBit _) fun _ => ?_
  exact steady_bind (leavesFibers_read32 _) fun _ => steady_modify fun _ => rfl

theorem leavesFibers_osLoadContext (ctx : CpuPtr) : LeavesFibers (osLoadContext ctx) := by
  refine steady_bind (steady_gets _) fun context => steady_ite (steady_stop _) ?_
  refine steady_bind (leavesFibers_read32 _) fun srr0 => steady_ite (steady_stop _) ?_
  refine steady_bind (leavesFibers_loadContextRegisters _ _ _) fun _ => ?_
  exact steady_bind (leavesFibers_invokeIndirectJump _ _) fun _ => steady_stop _

/-! ## Runs of threads with and without fibers -/

/-- OSRunningContext is the thread. -/
def Memory.Names (m : Memory) (t : Word) : Prop := m.read32 kOSRunningContextAddr = some t

/-- SelectThread goes to the thread `t`, which has no fiber, on the running stack: the machine
`m` is published, and guest code goes on with `m'`. -/
structure HostStacks.FallsBack (sys : HostStacks) (t : Word) (c : CpuPtr)
    (m m' : Machine Memory) : Prop where
  fibers : m.fibers = sys.machine.fibers
  hosts : m.hosts = sys.machine.hosts
  published : m.mem.Publishes t
  noFiber : hasFiber t m = .ret false m
  loads : ∃ target k, osLoadContext c (m.setGpr c 3 t) = .call (.jump target (cpuOf c)) m' k
  named : m'.mem.Names t

/-- SelectThread itself goes so. -/
theorem HostStacks.FallsBack.enterThread {sys : HostStacks} {running t : Word} {c : CpuPtr}
    {m m' : Machine Memory} (h : sys.FallsBack t c m m') :
    SelectThread.enterThread c running t m = osLoadContext c (m.setGpr c 3 t) := by
  unfold SelectThread.enterThread
  rw [bind_of h.noFiber, Routine.ite_apply, if_neg (by decide), bind_of (setGpr_apply ..)]

theorem HostStacks.FallsBack.table {sys : HostStacks} {t : Word} {c : CpuPtr}
    {m m' : Machine Memory} (h : sys.FallsBack t c m m') :
    m'.fibers = sys.machine.fibers ∧ m'.hosts = sys.machine.hosts := by
  obtain ⟨target, k, hcall⟩ := h.loads
  have hsteady := leavesFibers_osLoadContext c (m.setGpr c 3 t)
  rw [hcall] at hsteady
  have hsame : (m'.fibers, m'.hosts) = (m.fibers, m.hosts) := hsteady.1
  rw [Prod.mk.injEq] at hsame
  exact ⟨hsame.1.trans h.fibers, hsame.2.trans h.hosts⟩

/-- Only SelectThread registers a thread, in `select` below. -/
def FiberCall.Registers : FiberCall → Prop
  | .registerCurrent _ _ => True
  | _ => False

/-- The other calls leave the memory, and the thread that owns the registers. -/
theorem FiberCall.Gives.frame {s m : Machine Memory} {c : FiberCall} (h : c.Gives s m)
    (hnot : ¬ c.Registers) :
    m.mem = s.mem ∧ m.fibers.currentGuestThread = s.fibers.currentGuestThread := by
  cases h with
  | initialized => exact ⟨rfl, rfl⟩
  | created hc => cases hc <;> exact ⟨rfl, rfl⟩
  | registered _ => exact absurd trivial hnot
  | suspended t =>
    obtain ⟨_, howner, _⟩ := setState_same s.fibers t fun h : FiberState.waiting = .empty =>
      FiberState.noConfusion h
    exact ⟨rfl, howner⟩
  | resumed t =>
    obtain ⟨_, howner, _⟩ := setState_same s.fibers t fun h : FiberState.ready = .empty =>
      FiberState.noConfusion h
    exact ⟨rfl, howner⟩

/-- The runs of guest threads, and the thread that runs. Guest code leaves the fiber table, the
host contexts and OSRunningContext alone; fibers are made for any threads, or not made when there
is no room; SelectThread goes to threads with fibers and to threads without. `P` is asked of a
selection of a thread without a fiber. -/
inductive MixedRun (P : HostStacks → Word → Prop) : Word → HostStacks → Prop
  | start {sys : HostStacks} {r : Word} : sys.Fresh → sys.machine.mem.Names r →
    MixedRun P r sys
  | guest {sys : HostStacks} {r : Word} {m : Machine Memory} (cpu : CpuPtr) :
    MixedRun P r sys → m.fibers = sys.machine.fibers → m.hosts = sys.machine.hosts →
    m.mem.Names r → MixedRun P r { sys with machine := m, cpu := cpu }
  | call {sys : HostStacks} {r : Word} {m : Machine Memory} (c : FiberCall) :
    MixedRun P r sys → ¬ c.Registers → c.code sys.machine = .ret () m →
    MixedRun P r { sys with machine := m }
  | select {sys sys' : HostStacks} {r t : Word} {c : CpuPtr} {m m' : Machine Memory}
    {e : SwitchEnd} : MixedRun P r sys → sys.Selects r t c m m' e sys' → MixedRun P t sys'
  | fallback {sys : HostStacks} {r t : Word} {c : CpuPtr} {m m' : Machine Memory} :
    MixedRun P r sys → P sys t → sys.FallsBack t c m m' →
    MixedRun P t { sys with machine := m', cpu := cpuOf c }

theorem MixedRun.fiberCall {P : HostStacks → Word → Prop} {r : Word} {sys sys' : HostStacks}
    {c : FiberCall} (hrun : MixedRun P r sys) (h : sys.fiberCall c = some sys')
    (hnot : ¬ c.Registers) : MixedRun P r sys' := by
  obtain ⟨⟨_, m⟩, hended, rfl⟩ := Option.map_eq_some_iff.mp h
  exact hrun.call c hnot (Coop.ret_of_ended hended)

theorem MixedRun.stackRun {P : HostStacks → Word → Prop} {r : Word} {sys : HostStacks}
    (h : MixedRun P r sys) : ∃ started, StackRun started sys := by
  induction h with
  | start hfresh _ => exact ⟨_, .start hfresh⟩
  | guest cpu _ hfibers hhosts _ ih =>
    obtain ⟨started, hrun⟩ := ih
    exact ⟨started, hrun.guest cpu hfibers hhosts⟩
  | call c _ _ hcall ih =>
    obtain ⟨started, hrun⟩ := ih
    exact ⟨started, hrun.call c hcall⟩
  | select _ hselect ih =>
    obtain ⟨started, hrun⟩ := ih
    have hregistered := (hrun.set hselect.fibers hselect.hosts).registerMain hselect.registered
    have hpublished := hselect.published
    rw [← (registerMain_mem hselect.registered).1] at hpublished
    exact ⟨_, hregistered.switchTo hpublished hselect.switched⟩
  | fallback _ _ hfalls ih =>
    obtain ⟨started, hrun⟩ := ih
    exact ⟨started, hrun.guest _ hfalls.table.1 hfalls.table.2⟩

/-! ## The invariant -/

/-- The stacks are not mixed up: no two records have one stack, the running stack is of the
thread that owns the registers, and a stack that waits was left by its own thread. -/
structure HostStacks.Unmixed (sys : HostStacks) : Prop where
  apart : ∀ i j, sys.machine.fibers.Used i → sys.machine.fibers.Used j →
    (sys.machine.fibers.records i).host = (sys.machine.fibers.records j).host → i = j
  running : ∀ i, sys.machine.fibers.Used i →
    (sys.machine.fibers.records i).host = sys.machine.hosts.current →
    (sys.machine.fibers.records i).guestThread = sys.machine.fibers.currentGuestThread
  waits : ∀ i w, sys.machine.fibers.Used i →
    sys.waiting (sys.machine.fibers.records i).host = some w →
    w.frame.previousThread = (sys.machine.fibers.records i).guestThread

namespace HostStacks

variable {sys sys' : HostStacks} {started : List Handle} {r t : Word} {i : Fin 64} {c : CpuPtr}
  {m m' : Machine Memory} {e : SwitchEnd}

/-- The invariant looks at the records and the running stack. -/
theorem Unmixed.restate (hu : sys.Unmixed) (cpu : CpuPtr)
    (hcurrent : m.hosts.current = sys.machine.hosts.current)
    (howner : m.fibers.currentGuestThread = sys.machine.fibers.currentGuestThread)
    (hused : ∀ i, m.fibers.Used i ↔ sys.machine.fibers.Used i)
    (hsame : ∀ i, (m.fibers.records i).guestThread =
      (sys.machine.fibers.records i).guestThread ∧
        (m.fibers.records i).host = (sys.machine.fibers.records i).host) :
    Unmixed { sys with machine := m, cpu := cpu } := by
  have hthreads : ∀ i, (m.fibers.records i).guestThread =
      (sys.machine.fibers.records i).guestThread := fun i => (hsame i).1
  have hhosts : ∀ i, (m.fibers.records i).host = (sys.machine.fibers.records i).host :=
    fun i => (hsame i).2
  constructor
  · simpa only [hused, hhosts] using hu.apart
  · simpa only [hused, hhosts, hthreads, hcurrent, howner] using hu.running
  · simpa only [hused, hhosts, hthreads] using hu.waits

/-- Guest code that leaves the table alone. -/
theorem Unmixed.guest (hu : sys.Unmixed) (cpu : CpuPtr)
    (hfibers : m.fibers = sys.machine.fibers) (hhosts : m.hosts = sys.machine.hosts) :
    Unmixed { sys with machine := m, cpu := cpu } := by
  apply hu.restate cpu
  · rw [hhosts]
  · rw [hfibers]
  · rw [hfibers]
    exact fun _ => Iff.rfl
  · rw [hfibers]
    exact fun _ => ⟨rfl, rfl⟩

/-- A record is cleared, or it gets a stack that is new or runs. -/
theorem Unmixed.setRecord (hu : sys.Unmixed) (record : GuestFiberRecord)
    (hcurrent : m.hosts.current = sys.machine.hosts.current)
    (hrecords : m.fibers.records = (sys.machine.fibers.setRecord i record).records)
    (howner : ∀ j, j ≠ i → sys.machine.fibers.Used j →
      (sys.machine.fibers.records j).host = sys.machine.hosts.current →
      (sys.machine.fibers.records j).guestThread = m.fibers.currentGuestThread)
    (hrecord : record.state ≠ .empty → sys.waiting record.host = none ∧
      (record.host = sys.machine.hosts.current →
        record.guestThread = m.fibers.currentGuestThread) ∧
      ∀ j, j ≠ i → sys.machine.fibers.Used j →
        (sys.machine.fibers.records j).host ≠ record.host) :
    Unmixed { sys with machine := m } := by
  have hcase := GuestFibers.setRecord_used hrecords
  constructor
  · intro j k hj hk heq
    rcases hcase j hj with ⟨hji, hju, hold⟩ | ⟨hji, hstate, hnew⟩
    · rcases hcase k hk with ⟨_, hku, hold'⟩ | ⟨_, hstate, hnew⟩
      · rw [hold, hold'] at heq
        exact hu.apart j k hju hku heq
      · rw [hold, hnew] at heq
        exact absurd heq ((hrecord hstate).2.2 j hji hju)
    · rcases hcase k hk with ⟨hki, hku, hold'⟩ | ⟨hki, _, _⟩
      · rw [hold', hnew] at heq
        exact absurd heq.symm ((hrecord hstate).2.2 k hki hku)
      · rw [hji, hki]
  · intro j hj hhost
    rw [hcurrent] at hhost
    rcases hcase j hj with ⟨hji, hju, hold⟩ | ⟨_, hstate, hnew⟩
    · rw [hold] at hhost ⊢
      exact howner j hji hju hhost
    · rw [hnew] at hhost ⊢
      exact (hrecord hstate).2.1 hhost
  · intro j w hj hw
    rcases hcase j hj with ⟨_, hju, hold⟩ | ⟨_, hstate, hnew⟩
    · rw [hold] at hw ⊢
      exact hu.waits j w hju hw
    · rw [hnew] at hw
      cases (hrecord hstate).1.symm.trans hw

/-- `create` gives its thread a new stack, or takes its record away. -/
theorem Unmixed.creates (hu : sys.Unmixed) (hs : sys.Sound started) {entry arg top : Word}
    {seed : CpuPtr} {b : Bool} (hc : sys.machine.Creates t entry arg top seed b m) :
    Unmixed { sys with machine := m } := by
  cases hc with
  | refused => exact hu.restate sys.cpu rfl rfl (fun _ => Iff.rfl) fun _ => ⟨rfl, rfl⟩
  | cleared i _ _ _ =>
    apply hu.setRecord (i := i) .none
    · exact HostContexts.destroy_current ..
    · rfl
    · exact fun j _ => hu.running j
    · exact fun h => absurd rfl h
  | made i hid2 _ _ _ _ =>
    apply hu.setRecord (i := i) ⟨t, sys.machine.hosts.next, entry, arg,
      seededCpu entry arg top hid2, .waiting, false⟩
    · exact HostContexts.destroy_current ..
    · rfl
    · exact fun j _ => hu.running j
    · refine fun _ => ⟨hs.owned.next_idle, fun hhost => ?_, fun j _ hj => ?_⟩
      · exact absurd hhost (Nat.ne_of_gt hs.owned.current_below.2)
      · exact Nat.ne_of_lt (hs.owned.host_below j hj).2

/-- `suspend` and `resume`. -/
theorem Unmixed.setState (hu : sys.Unmixed) {state : FiberState} (hstate : state ≠ .empty) :
    Unmixed { sys with
      machine := sys.machine.withFibers (sys.machine.fibers.setState t state) } := by
  obtain ⟨_, howner, hsame⟩ := setState_same sys.machine.fibers t hstate
  refine hu.restate sys.cpu rfl howner (fun j => (hsame j).1) fun j => ?_
  obtain ⟨state', hrecord⟩ := (hsame j).2
  rw [Machine.withFibers_fibers, hrecord]
  exact ⟨rfl, rfl⟩

/-- The calls of the fiber layer keep the stacks apart. -/
theorem Unmixed.call (hu : sys.Unmixed) (hs : sys.Sound started) {call : FiberCall}
    (hnot : ¬ call.Registers) (h : call.code sys.machine = .ret () m) :
    Unmixed { sys with machine := m } := by
  cases call.gives hs.owned.next_ne h with
  | initialized => exact hu.restate sys.cpu rfl rfl (fun _ => Iff.rfl) fun _ => ⟨rfl, rfl⟩
  | created hc => exact hu.creates hs hc
  | registered _ => exact absurd trivial hnot
  | suspended t => exact hu.setState fun h => FiberState.noConfusion h
  | resumed t => exact hu.setState fun h => FiberState.noConfusion h

/-- SelectThread registers the running thread on the running stack only while no fiber owns the
registers, and then no fiber has the running stack. -/
theorem Unmixed.registerMain (hu : sys.Unmixed) (hs : sys.Sound started)
    (howner : sys.machine.fibers.currentGuestThread = 0#32 ∨
      sys.machine.fibers.currentGuestThread = r)
    (h : SelectThread.registerMain c r sys.machine = .ret true m) :
    Unmixed { sys with machine := m } ∧ (m.fibers.currentGuestThread = 0#32 ∨
      m.fibers.currentGuestThread = r) := by
  rcases registerMain_cases h with ⟨rfl, _⟩ | ⟨hunclaimed, _, hregisters⟩
  · exact ⟨hu, howner⟩
  cases hregisters with
  | made i record ht hslot hready hcurrent _ hruns =>
    have hother : ∀ j, sys.machine.fibers.Used j →
        (sys.machine.fibers.records j).host ≠ sys.machine.hosts.current := by
      intro j hj hhost
      have hzero := (hu.running j hj hhost).trans hunclaimed
      exact hs.owned.distinct.thread_ne j hj hzero
    refine ⟨?_, Or.inr rfl⟩
    have hhost : record.host = sys.machine.hosts.current := hruns.host_eq.trans hcurrent.symm
    apply hu.setRecord (i := i) record
    · rfl
    · rfl
    · exact fun j _ hj hhost => absurd hhost (hother j hj)
    · intro _
      rw [hhost]
      exact ⟨hs.owned.idle, fun _ => hruns.thread, fun j _ hj => hother j hj⟩

/-- The thread of the record `i` goes on, and the running stack may wait in its call. -/
theorem Unmixed.switched (hu : sys.Unmixed) {s : Machine Memory}
    {waiting : Handle → Option Waiting} (cpu : CpuPtr)
    (hi : sys.machine.fibers.find t = some i) (h : sys.Switched t c i s)
    (hwaiting : ∀ k w, waiting k = some w →
      (k = sys.machine.hosts.current ∧ w = sys.caller c) ∨ sys.waiting k = some w) :
    Unmixed ⟨s, cpu, waiting⟩ := by
  obtain ⟨_, hused, hit⟩ := GuestFibers.find_spec hi
  constructor
  · intro j k hj hk heq
    change (s.fibers.records j).host = (s.fibers.records k).host at heq
    rw [h.host, h.host] at heq
    exact hu.apart j k ((h.used j).mp hj) ((h.used k).mp hk) heq
  · intro j hj hhost
    change (s.fibers.records j).host = s.hosts.current at hhost
    rw [h.host, h.current] at hhost
    change (s.fibers.records j).guestThread = s.fibers.currentGuestThread
    rw [h.thread, h.owner, hu.apart j i ((h.used j).mp hj) hused hhost]
    exact hit
  · intro j w hj hw
    change waiting (s.fibers.records j).host = some w at hw
    change w.frame.previousThread = (s.fibers.records j).guestThread
    rw [h.host] at hw
    rw [h.thread]
    rcases hwaiting _ _ hw with ⟨hcurrent, rfl⟩ | hold
    · -- The stack that is left is of the thread that owned the registers.
      exact (hu.running j ((h.used j).mp hj) hcurrent).symm
    · exact hu.waits j w ((h.used j).mp hj) hold

/-- The stacks that wait once the running one waits too. -/
theorem withCaller_cases {k : Handle} {w : Waiting} (hw : sys.withCaller c k = some w) :
    (k = sys.machine.hosts.current ∧ w = sys.caller c) ∨ sys.waiting k = some w := by
  unfold withCaller at hw
  by_cases hk : k = sys.machine.hosts.current
  · rw [hk, Function.update_self] at hw
    cases hw
    exact Or.inl ⟨hk, rfl⟩
  · rw [Function.update_of_ne hk] at hw
    exact Or.inr hw

/-- The thread `t` goes on with the registers of its own record: behind its own call on this
stack, at its entry on the stack that was made for it, or on the stack that it has left. -/
def GoesOnOwn (sys' : HostStacks) (t : Word) (c : CpuPtr) (e : SwitchEnd) : Prop :=
  ∃ i, sys'.machine.fibers.find t = some i ∧
    sys'.machine.hosts.current = (sys'.machine.fibers.records i).host ∧
    match e with
    | .returned _ => sys'.machine.cpus c = (sys'.machine.fibers.records i).savedCpu
    | .entered host => sys'.machine.hosts.argument host = t ∧ ∃ r1 r2 r13 lr,
      sys'.machine.cpus c = (sys'.machine.fibers.records i).enter r1 r2 r13 lr
        (sys'.machine.fibers.records i).savedCpu
    | .resumed _ w => w.frame.previousThread = t ∧
      sys'.machine.cpus w.frame.cpu = (sys'.machine.fibers.records i).savedCpu

/-- A switch keeps the stacks apart, and its target goes on as itself. -/
theorem Unmixed.goes (hu : sys.Unmixed) (hs : sys.Sound started)
    (hpublished : sys.machine.mem.Publishes t) (hi : sys.machine.Switches t c i)
    (h : sys.Goes t c i e sys') :
    sys'.Unmixed ∧ sys.Switched t c i sys'.machine ∧ sys'.GoesOnOwn t c e := by
  obtain ⟨ht, hused, hit⟩ := GuestFibers.find_spec hi.found
  have hfound : ∀ {s : Machine Memory}, sys.Switched t c i s → s.fibers.find t = some i ∧
      s.hosts.current = (s.fibers.records i).host := fun hsw =>
    ⟨(GuestFibers.find_congr hsw.used hsw.thread).trans hi.found,
      hsw.current.trans (hsw.host i).symm⟩
  cases h with
  | here hhost =>
    have hsw : sys.Switched t c i (sys.machine.loaded t c i) :=
      switched_loaded hused rfl rfl hhost.symm
    refine ⟨?_, hsw, i, (hfound hsw).1, (hfound hsw).2, ?_⟩
    · exact hu.switched sys.cpu hi.found hsw fun _ _ hw => Or.inr hw
    · change (sys.machine.loaded t c i).cpus c = _
      rw [loaded_cpus, Function.update_self, hsw.saved]
  | enter host j r1 r2 r13 lr hhost hne hidle hfind =>
    subst hhost
    have hsw : sys.Switched t c i (((sys.machine.loaded t c i).onHost
        (sys.machine.fibers.records i).host).onCpu c
          (((sys.machine.loaded t c i).fibers.records j).enter r1 r2 r13 lr)) :=
      switched_loaded hused rfl rfl rfl
    have hargument := hs.owned.argument_of_idle hused hne hidle
    rw [hargument, hit] at hfind
    have hji : j = i := Option.some_inj.mp (hfind.symm.trans (hfound hsw).1)
    subst hji
    refine ⟨?_, hsw, j, (hfound hsw).1, (hfound hsw).2, hargument.trans hit, r1, r2, r13, lr,
      ?_⟩
    · exact hu.switched c hi.found hsw fun _ _ => withCaller_cases
    · rw [hsw.saved]
      change ((((sys.machine.loaded t c j).onHost _).onCpu c _).cpus c) = _
      rw [onCpu_cpus, Function.update_self, onHost_cpus, loaded_cpus, Function.update_self]
      rfl
  | resume host w hhost hne hwaits =>
    subst hhost
    have hprevious : w.frame.previousThread = t := (hu.waits i w hused hwaits).trans hit
    have hrecord := hs.owned.previous _ w i hwaits hused rfl (hit.trans hprevious.symm)
    have hselected : w.frame.Selected sys.machine.mem := by
      unfold SwitchFrame.Selected
      rw [hprevious]
      exact ⟨ht, hpublished⟩
    have hreclaims : w.frame.reclaims sys.machine.mem = some i := by
      unfold SwitchFrame.reclaims
      rw [if_pos hselected, hrecord]
    have hloaded : sys.Switched t c i ((sys.machine.loaded t c i).onHost
        (sys.machine.fibers.records i).host) := switched_loaded hused rfl rfl rfl
    have hsw := hloaded.reclaim hused hreclaims hprevious
    refine ⟨?_, hsw, i, (hfound hsw).1, (hfound hsw).2, hprevious, ?_⟩
    · apply hu.switched w.cpu hi.found hsw
      intro k v hv
      by_cases hk : k = (sys.machine.fibers.records i).host
      · rw [hk, Function.update_self] at hv
        cases hv
      · rw [Function.update_of_ne hk] at hv
        exact withCaller_cases hv
    · have hcpus := leave_cpus w.frame ((sys.machine.loaded t c i).onHost
        (sys.machine.fibers.records i).host)
      rw [onHost_mem, loaded_mem, hreclaims] at hcpus
      rw [hsw.saved]
      change (w.frame.leave _).cpus w.frame.cpu = _
      rw [hcpus, Function.update_self]
      exact loaded_savedCpu ..

/-- A fiber owns the registers for the running thread, or none does. -/
def OwnedBy (sys : HostStacks) (r : Word) : Prop :=
  sys.machine.fibers.currentGuestThread = 0#32 ∨ sys.machine.fibers.currentGuestThread = r

/-- SelectThread goes to a fiber from stacks that are not mixed up. -/
theorem Unmixed.registered (hu : sys.Unmixed) (hrun : StackRun started sys)
    (howner : sys.OwnedBy r) (h : sys.Selects r t c m m' e sys') :
    ∃ i, m'.Switches t c i ∧ HostStacks.Goes { sys with machine := m' } t c i e sys' ∧
      Unmixed { sys with machine := m' } ∧ OwnedBy { sys with machine := m' } r ∧
      m'.mem.Publishes t := by
  have hset := hrun.set h.fibers h.hosts
  have howner' : OwnedBy { sys with machine := m } r := by
    unfold OwnedBy
    rw [h.fibers]
    exact howner
  obtain ⟨hu', hregistered⟩ :=
    (hu.guest sys.cpu h.fibers h.hosts).registerMain hset.sound howner' h.registered
  obtain ⟨i, hi⟩ := h.switches hrun.sound
  have hgoes := HostStacks.switchTo_goes (hset.registerMain h.registered).sound.kept hi h.switched
  refine ⟨i, hi, hgoes, hu', hregistered, ?_⟩
  rw [(registerMain_mem h.registered).1]
  exact h.published

/-- What SelectThread does when it goes to a fiber. -/
theorem Unmixed.select (hu : sys.Unmixed) (hrun : StackRun started sys) (howner : sys.OwnedBy r)
    (h : sys.Selects r t c m m' e sys') :
    ∃ i, sys'.Unmixed ∧ HostStacks.Switched { sys with machine := m' } t c i sys'.machine ∧
      sys'.GoesOnOwn t c e ∧ OwnedBy { sys with machine := m' } r ∧ m'.mem.Publishes t := by
  obtain ⟨i, hi, hgoes, hu', howner', hpublished⟩ := hu.registered hrun howner h
  have hsound := ((hrun.set h.fibers h.hosts).registerMain h.registered).sound
  obtain ⟨hunmixed, hsw, hon⟩ := hu'.goes hsound hpublished hi hgoes
  exact ⟨i, hunmixed, hsw, hon, howner', hpublished⟩

/-- A switch stores registers in the record of the running thread only, and those that the
thread passes to the switch. -/
theorem Switched.stores {s : Machine Memory} (h : sys.Switched t c i s) (howner : sys.OwnedBy r)
    (j : Fin 64) : (s.fibers.records j).savedCpu = (sys.machine.fibers.records j).savedCpu ∨
      ((sys.machine.fibers.records j).guestThread = r ∧
        (s.fibers.records j).savedCpu = sys.machine.cpus c) := by
  rw [h.saved, Machine.savedAtSwitch]
  split
  · rename_i hfind
    obtain ⟨hne, _, hthread⟩ := GuestFibers.find_spec hfind
    rcases howner with hzero | howner
    · exact absurd hzero hne
    · exact Or.inr ⟨hthread.trans howner, rfl⟩
  · exact Or.inl rfl

/-- A thread without a fiber is selected while no fiber owns the registers, or its own did. -/
def UnclaimedFallback (sys : HostStacks) (t : Word) : Prop :=
  sys.machine.fibers.currentGuestThread = 0#32 ∨ sys.machine.fibers.currentGuestThread = t

end HostStacks

/-! ## The law -/

section

variable {r : Word} {sys : HostStacks}

/-- What holds after each step of a run whose selections of threads without fibers are all made
while no other fiber owns the registers. -/
theorem MixedRun.unmixed (h : MixedRun HostStacks.UnclaimedFallback r sys) :
    sys.Unmixed ∧ sys.OwnedBy r ∧ sys.machine.mem.Names r := by
  induction h with
  | start hfresh hnamed =>
    have hnone := hfresh.unused
    refine ⟨⟨?_, ?_, ?_⟩, Or.inl hfresh.unclaimed, hnamed⟩
    · exact fun i _ hi => absurd hi (hnone i)
    · exact fun i hi => absurd hi (hnone i)
    · exact fun i _ hi => absurd hi (hnone i)
  | guest cpu _ hfibers hhosts hnamed ih =>
    obtain ⟨hu, howner, _⟩ := ih
    refine ⟨hu.guest cpu hfibers hhosts, ?_, hnamed⟩
    unfold HostStacks.OwnedBy
    rw [hfibers]
    exact howner
  | call c hrun hnot hcall ih =>
    obtain ⟨hu, howner, hnamed⟩ := ih
    obtain ⟨started, hstack⟩ := hrun.stackRun
    obtain ⟨hmem, hcurrent⟩ := (c.gives hstack.sound.owned.next_ne hcall).frame hnot
    refine ⟨hu.call hstack.sound hnot hcall, ?_, ?_⟩
    · unfold HostStacks.OwnedBy
      rw [hcurrent]
      exact howner
    · rw [hmem]
      exact hnamed
  | select hrun hselect ih =>
    obtain ⟨hu, howner, _⟩ := ih
    obtain ⟨started, hstack⟩ := hrun.stackRun
    obtain ⟨i, hu', hsw, _, _, hpublished⟩ := hu.select hstack howner hselect
    refine ⟨hu', Or.inr hsw.owner, ?_⟩
    rw [hsw.mem]
    exact hpublished.1
  | fallback hrun hunclaimed hfalls ih =>
    obtain ⟨hfibers, hhosts⟩ := hfalls.table
    refine ⟨ih.1.guest _ hfibers hhosts, ?_, hfalls.named⟩
    unfold HostStacks.OwnedBy
    rw [hfibers]
    exact hunclaimed

/-- In a run that selects a thread without a fiber only while no other fiber owns the registers,
no fiber owns them or the published thread does, a switch stores the registers of the running
thread and in its own record, and its target goes on as itself. The selection of a thread
without a fiber keeps this exactly then. -/
theorem a_fallback_needs_unclaimed_registers
    (hrun : MixedRun HostStacks.UnclaimedFallback r sys) :
    (sys.machine.fibers.currentGuestThread = 0#32 ∨
      sys.machine.mem.Names sys.machine.fibers.currentGuestThread) ∧
    (∀ (t : Word) (c : CpuPtr) (m m' : Machine Memory) (e : SwitchEnd) (sys' : HostStacks),
      sys.Selects r t c m m' e sys' →
      (∀ j, (sys'.machine.fibers.records j).savedCpu = (m'.fibers.records j).savedCpu ∨
        ((m'.fibers.records j).guestThread = r ∧
          (sys'.machine.fibers.records j).savedCpu = m'.cpus c)) ∧
      sys'.GoesOnOwn t c e) ∧
    (∀ (t : Word) (c : CpuPtr) (m m' : Machine Memory), sys.FallsBack t c m m' →
      ((m'.fibers.currentGuestThread = 0#32 ∨ m'.mem.Names m'.fibers.currentGuestThread) ↔
        sys.UnclaimedFallback t)) := by
  obtain ⟨hu, howner, hnamed⟩ := hrun.unmixed
  obtain ⟨started, hstack⟩ := hrun.stackRun
  refine ⟨?_, ?_, ?_⟩
  · rcases howner with hzero | howner
    · exact Or.inl hzero
    · rw [howner]
      exact Or.inr hnamed
  · intro t c m m' e sys' hselect
    obtain ⟨i, _, hsw, hon, howner', _⟩ := hu.select hstack howner hselect
    exact ⟨hsw.stores howner', hon⟩
  · intro t c m m' hfalls
    rw [hfalls.table.1]
    unfold HostStacks.UnclaimedFallback
    apply or_congr_right
    constructor
    · intro howns
      exact Option.some_inj.mp (howns.symm.trans hfalls.named)
    · intro howns
      rw [howns]
      exact hfalls.named

end

/-! ## Threads with and without fibers on a booted Wii -/

/-- SelectThread goes to the thread `t`, which has no fiber and whose context starts at
0x80002000 with the stack pointer 0x80700000. -/
def HostStacks.fallBack (sys : HostStacks) (t : Word) (c : CpuPtr) :
    Option (Machine Memory × Machine Memory) :=
  (publishedBoot t).bind fun mem =>
    (mem.write32 (t + kContextSrr0Offset) 0x80002000#32).bind fun mem =>
      (mem.write32 (t + kContextR1Offset) 0x80700000#32).bind fun mem =>
        let m := sys.machine.withMem mem
        if mem.read32 kOSRunningContextAddr = some t ∧
            mem.read32 kOSCurrentContextAddr = some t ∧ m.fibers.has t = false then
          match osLoadContext c (m.setGpr c 3 t) with
          | .call (.jump _ cpu) m' _ =>
            if cpu = cpuOf c ∧ m'.mem.read32 kOSRunningContextAddr = some t then some (m, m')
            else none
          | _ => none
        else none

theorem HostStacks.fallsBack {sys : HostStacks} {t : Word} {c : CpuPtr} {m m' : Machine Memory}
    (h : sys.fallBack t c = some (m, m')) : sys.FallsBack t c m m' := by
  obtain ⟨_, _, h⟩ := Option.bind_eq_some_iff.mp h
  obtain ⟨_, _, h⟩ := Option.bind_eq_some_iff.mp h
  obtain ⟨mem, _, h⟩ := Option.bind_eq_some_iff.mp h
  simp only at h
  split at h
  · rename_i hready
    split at h
    · rename_i target cpu m₁ k hcall
      split at h
      · rename_i hjump
        cases h
        refine ⟨rfl, rfl, ⟨hready.1, hready.2.1⟩, ?_, ⟨target, k, ?_⟩, hjump.2⟩
        · unfold hasFiber
          rw [bind_of (gets_apply ..), Routine.ite_apply, bind_of (getFibers_apply _), hready.2.2]
          split <;> rfl
        · rw [hcall, hjump.1]
      · cases h
    · cases h
  · cases h

/-- The booted Wii, on a host that refuses the second fiber. -/
def crowdedStack (mem : Memory) : HostStacks :=
  let sys := firstStack mem
  let hosts : HostContexts := { sys.machine.hosts with grants := fun h => h ≠ 3 }
  { sys with machine := sys.machine.withHosts hosts }

theorem crowdedStack_fresh (mem : Memory) : (crowdedStack mem).Fresh :=
  ⟨fun _ => rfl, rfl, rfl, ⟨Nat.one_pos, Nat.lt_succ_self 1⟩, rfl, fun _ => rfl⟩

/-- The main thread makes a thread with a fiber and one without. The thread with the fiber runs,
then the other one, and then the main thread. -/
def mixedSwitches : Option (HostStacks × Machine Memory × SwitchEnd × HostStacks) :=
  (publishedBoot 0x80300000#32).bind fun mem =>
    ((crowdedStack mem).fiberCall
      (.create 0x80400000#32 0x80001000#32 0#32 0x80500000#32 1)).bind fun sys₁ =>
        (sys₁.fiberCall (.create 0x80600000#32 0x80002000#32 0#32 0x80700000#32 1)).bind
          fun sys₂ =>
            (sys₂.select 0x80300000#32 0x80400000#32 1).bind fun there =>
              (there.2.2.2.fallBack 0x80600000#32 1).bind fun fallen =>
                let sys₄ : HostStacks :=
                  { there.2.2.2 with machine := fallen.2, cpu := cpuOf 1 }
                (sys₄.select 0x80600000#32 0x80300000#32 1).map fun back => (sys₄, back.2)

theorem mixedSwitches_run {sys sys' : HostStacks} {m' : Machine Memory} {e : SwitchEnd}
    (h : mixedSwitches = some (sys, m', e, sys')) :
    MixedRun (fun _ _ => True) 0x80600000#32 sys ∧
      ∃ m, sys.Selects 0x80600000#32 0x80300000#32 1 m m' e sys' := by
  obtain ⟨mem, hmem, h⟩ := Option.bind_eq_some_iff.mp h
  obtain ⟨sys₁, hmade, h⟩ := Option.bind_eq_some_iff.mp h
  obtain ⟨sys₂, hrefused, h⟩ := Option.bind_eq_some_iff.mp h
  obtain ⟨⟨m₁, m₁', e₁, sys₃⟩, hthere, h⟩ := Option.bind_eq_some_iff.mp h
  obtain ⟨⟨m₂, m₂'⟩, hfallen, h⟩ := Option.bind_eq_some_iff.mp h
  obtain ⟨⟨m, back⟩, hback, heq⟩ := Option.map_eq_some_iff.mp h
  cases heq
  have hstart : MixedRun (fun _ _ => True) 0x80300000#32 (crowdedStack mem) :=
    .start (crowdedStack_fresh mem) (publishedBoot_publishes hmem).1
  have hcreated := (hstart.fiberCall hmade fun h => h).fiberCall hrefused fun h => h
  have hselected := hcreated.select (HostStacks.selects hthere)
  exact ⟨hselected.fallback trivial (HostStacks.fallsBack hfallen), m, HostStacks.selects hback⟩

/-- The thread without a fiber takes the running stack while the registers are owned by the
thread with the fiber, and the switch to the main thread stores its stack pointer in the record
of that thread. -/
theorem a_fallback_mixes_the_registers : ∃ r sys t c m m' e sys' i,
    MixedRun (fun _ _ => True) r sys ∧
    ¬ (sys.machine.fibers.currentGuestThread = 0#32 ∨
      sys.machine.mem.Names sys.machine.fibers.currentGuestThread) ∧
    sys.Selects r t c m m' e sys' ∧
    m'.fibers.Used i ∧ (m'.fibers.records i).guestThread ≠ r ∧
    (m'.fibers.records i).savedCpu.gpr 1 ≠ (m'.cpus c).gpr 1 ∧
    (sys'.machine.fibers.records i).savedCpu.gpr 1 = (m'.cpus c).gpr 1 := by
  have hfacts : (mixedSwitches.map fun x => decide (
      x.1.machine.fibers.currentGuestThread = 0x80400000#32 ∧
      x.1.machine.mem.read32 kOSRunningContextAddr = some 0x80600000#32 ∧
      x.2.1.fibers.find 0x80400000#32 = some 0 ∧
      (x.2.1.fibers.records 0).savedCpu.gpr 1 = 0x80500000#32 ∧
      (x.2.1.cpus 1).gpr 1 = 0x80700000#32 ∧
      (x.2.2.2.machine.fibers.records 0).savedCpu.gpr 1 = 0x80700000#32)) = some true := by
    decide +kernel
  obtain ⟨⟨sys, m', e, sys'⟩, hrun, hfacts⟩ := Option.map_eq_some_iff.mp hfacts
  obtain ⟨howner, hnamed, hfind, hbefore, hregisters, hafter⟩ := of_decide_eq_true hfacts
  obtain ⟨hmixed, m, hselects⟩ := mixedSwitches_run hrun
  obtain ⟨_, hused, hthread⟩ := GuestFibers.find_spec hfind
  refine ⟨_, sys, _, 1, m, m', e, sys', 0, hmixed, ?_, hselects, hused, ?_, ?_, ?_⟩
  · unfold Memory.Names
    rw [howner, hnamed]
    decide
  · rw [hthread]
    decide
  · rw [hbefore, hregisters]
    decide
  · rw [hafter, hregisters]

/-- A thread without a fiber runs first, makes one with a fiber, and goes to it. -/
def firstMixedSwitch : Option (HostStacks × SwitchEnd × HostStacks) :=
  (publishedBoot 0x80300000#32).bind fun mem =>
    ((firstStack mem).fallBack 0x80600000#32 1).bind fun fallen =>
      let sys₁ : HostStacks := { firstStack mem with machine := fallen.2, cpu := cpuOf 1 }
      (sys₁.fiberCall (.create 0x80400000#32 0x80001000#32 0#32 0x80500000#32 1)).bind
        fun sys₂ => (sys₂.select 0x80600000#32 0x80400000#32 1).map fun there =>
          (sys₂, there.2.2)

/-- That thread goes on as itself. -/
theorem a_thread_goes_on_behind_a_first_fallback : ∃ r sys t c e sys',
    MixedRun HostStacks.UnclaimedFallback r sys ∧ (∃ m m', sys.Selects r t c m m' e sys') ∧
      sys'.GoesOnOwn t c e := by
  have hrun : firstMixedSwitch.isSome = true := by decide +kernel
  obtain ⟨⟨sys, e, sys'⟩, hrun⟩ := Option.isSome_iff_exists.mp hrun
  obtain ⟨mem, hmem, hrun⟩ := Option.bind_eq_some_iff.mp hrun
  obtain ⟨⟨m₁, m₁'⟩, hfallen, hrun⟩ := Option.bind_eq_some_iff.mp hrun
  obtain ⟨sys₂, hmade, hrun⟩ := Option.bind_eq_some_iff.mp hrun
  obtain ⟨⟨m, m', there⟩, hthere, heq⟩ := Option.map_eq_some_iff.mp hrun
  cases heq
  have hstart : MixedRun HostStacks.UnclaimedFallback 0x80300000#32 (firstStack mem) :=
    .start (firstStack_fresh mem) (publishedBoot_publishes hmem).1
  have hfallback := hstart.fallback (Or.inl rfl) (HostStacks.fallsBack hfallen)
  have hcreated := hfallback.fiberCall hmade fun h => h
  have hselects := HostStacks.selects hthere
  obtain ⟨_, hgoes, _⟩ := a_fallback_needs_unclaimed_registers hcreated
  exact ⟨_, _, _, _, _, _, hcreated, ⟨m, m', hselects⟩,
    (hgoes _ _ _ _ _ _ hselects).2⟩

end wii_switch
