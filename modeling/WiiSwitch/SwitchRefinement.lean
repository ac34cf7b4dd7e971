-- The fibers as coroutines. SelectThread publishes a thread, registers the first thread that
-- leaves its stack, and calls switch_to. Whatever the other threads do in between, a thread
-- goes on with the registers that it passed to the switch, on its own host stack.
import WiiSwitch.FiberStacks
import WiiSwitch.Lib.Coroutines
import WiiSwitch.SelectThread

namespace wii_switch

open OS Routine SelectThread

/-! ## Runs of threads with fibers -/

/-- What a thread leaves in a call of `switch_to`: its registers, the register file that the
call got, the one of its guest code, and its host stack. -/
structure Left where
  registers : CpuContext
  cpu : CpuPtr
  guestCpu : CpuPtr
  host : Handle

/-- SelectThread goes from the thread `running` to the fiber of `t`: the machine `m` is
published, and `m'` is the one that `switch_to` gets. -/
structure HostStacks.Selects (sys : HostStacks) (running t : Word) (c : CpuPtr)
    (m m' : Machine Memory) (e : SwitchEnd) (sys' : HostStacks) : Prop where
  fibers : m.fibers = sys.machine.fibers
  hosts : m.hosts = sys.machine.hosts
  published : m.mem.Publishes t
  cpu_ne : c ≠ 0
  fiber : hasFiber t m = .ret true m
  registered : registerMain c running m = .ret true m'
  switched : HostStacks.switchTo { sys with machine := m' } t c = some (e, sys')

/-- What the running thread leaves when SelectThread takes it off. -/
def HostStacks.leaves (sys : HostStacks) (m : Machine Memory) (c : CpuPtr) : Left :=
  ⟨m.cpus c, c, sys.cpu, m.hosts.current⟩

/-- The runs of threads that SelectThread hands the machine to, beside their runs as
coroutines. A thread without a fiber takes the stack of the running one, which is allowed
while no fiber owns the registers. A thread that is made again starts again; the running
thread is not made again. -/
inductive FiberRun : Coroutines Word Left → HostStacks → Prop
  | start {sys : HostStacks} {t : Word} : sys.Fresh → t ≠ 0#32 →
    sys.machine.mem.Publishes t →
    FiberRun ⟨t, fun _ => none⟩ sys
  | guest {co : Coroutines Word Left} {sys : HostStacks} {m : Machine Memory} (cpu : CpuPtr) :
    FiberRun co sys → m.fibers = sys.machine.fibers → m.hosts = sys.machine.hosts →
    m.mem.Publishes co.running → FiberRun co { sys with machine := m, cpu := cpu }
  | create {co : Coroutines Word Left} {sys : HostStacks} {t entry arg top : Word}
    {seed : CpuPtr} {b : Bool} {m : Machine Memory} : FiberRun co sys → t ≠ co.running →
    createFiber t entry arg top seed sys.machine = .ret b m →
    FiberRun (if b then co.renew t else co) { sys with machine := m }
  | suspend {co : Coroutines Word Left} {sys : HostStacks} (t : Word) {m : Machine Memory} :
    FiberRun co sys → suspendFiber t sys.machine = .ret () m →
    FiberRun co { sys with machine := m }
  | resume {co : Coroutines Word Left} {sys : HostStacks} (t : Word) {m : Machine Memory} :
    FiberRun co sys → resumeFiber t sys.machine = .ret () m →
    FiberRun co { sys with machine := m }
  | fallback {co : Coroutines Word Left} {sys : HostStacks} {t : Word} {m : Machine Memory}
    (cpu : CpuPtr) : FiberRun co sys → sys.machine.fibers.currentGuestThread = 0#32 →
    m.fibers = sys.machine.fibers → m.hosts = sys.machine.hosts → t ≠ 0#32 →
    m.mem.Publishes t → hasFiber t m = .ret false m →
    FiberRun (co.seize t) { sys with machine := m, cpu := cpu }
  | select {co : Coroutines Word Left} {sys sys' : HostStacks} {t : Word} {c : CpuPtr}
    {m m' : Machine Memory} {e : SwitchEnd} : FiberRun co sys →
    sys.Selects co.running t c m m' e sys' →
    FiberRun (co.handTo t (sys.leaves m' c)) sys'

/-- SelectThread itself goes so. -/
theorem HostStacks.Selects.enterThread {sys sys' : HostStacks} {running t : Word} {c : CpuPtr}
    {m m' : Machine Memory} {e : SwitchEnd} (h : sys.Selects running t c m m' e sys') :
    SelectThread.enterThread c running t m = (do
      unless ← OS.switchTo t c do
        return ← boundary "SELECTTHREAD_GUEST_FIBER_SWITCH" kSelectThreadAddress
      setGpr c 3 0#32 : OS Unit) m' := by
  unfold SelectThread.enterThread
  rw [bind_of h.fiber, Routine.ite_apply, if_pos rfl, bind_of h.registered, Routine.ite_apply,
    if_pos rfl]

/-! ## They are runs of host stacks -/

/-- The two outcomes of `registerMain`: nothing to do, or the running thread is registered. -/
theorem registerMain_cases {s s' : Machine Memory} {c : CpuPtr} {running : Word} {b : Bool}
    (h : registerMain c running s = .ret b s') :
    (s' = s ∧ (s.fibers.currentGuestThread ≠ 0#32 ∨ running = 0#32 ∨
      s.fibers.has running = true)) ∨
      (s.fibers.currentGuestThread = 0#32 ∧ s.fibers.has running = false ∧
        s.Registers running c b s') := by
  unfold registerMain at h
  rw [bind_of (getFibers_apply s), Routine.ite_apply] at h
  by_cases hnothing : s.fibers.currentGuestThread ≠ 0#32 ∨ running = 0#32 ∨
      s.fibers.has running = true
  · rw [if_pos hnothing] at h
    cases h
    exact Or.inl ⟨rfl, hnothing⟩
  · rw [if_neg hnothing] at h
    rw [not_or, not_not, not_or, Bool.not_eq_true] at hnothing
    exact Or.inr ⟨hnothing.1, hnothing.2.2, registerCurrent_cases h⟩

theorem registerMain_mem {s s' : Machine Memory} {c : CpuPtr} {running : Word} {b : Bool}
    (h : registerMain c running s = .ret b s') :
    s'.mem = s.mem ∧ s'.cpus = s.cpus ∧ s'.hosts = s.hosts := by
  rcases registerMain_cases h with ⟨rfl, _⟩ | ⟨_, _, hr⟩
  · exact ⟨rfl, rfl, rfl⟩
  · cases hr <;> exact ⟨rfl, rfl, rfl⟩

/-- The machine of a run becomes another one with the same table. -/
theorem StackRun.set {started : List Handle} {sys : HostStacks} {m : Machine Memory}
    (hrun : StackRun started sys) (hfibers : m.fibers = sys.machine.fibers)
    (hhosts : m.hosts = sys.machine.hosts) : StackRun started { sys with machine := m } :=
  hrun.guest sys.cpu hfibers hhosts

theorem StackRun.registerMain {started : List Handle} {sys : HostStacks} {m : Machine Memory}
    {c : CpuPtr} {running : Word} {b : Bool} (hrun : StackRun started sys)
    (h : SelectThread.registerMain c running sys.machine = .ret b m) :
    StackRun started { sys with machine := m } := by
  unfold SelectThread.registerMain at h
  rw [bind_of (getFibers_apply _), Routine.ite_apply] at h
  split at h
  · cases h
    exact hrun
  · apply hrun.call (.registerCurrent running c)
    change (do let _ ← registerCurrent running c : OS Unit) _ = _
    rw [bind_of h]
    rfl

/-- A run of threads is a run of host stacks. -/
theorem FiberRun.stackRun {co : Coroutines Word Left} {sys : HostStacks} (h : FiberRun co sys) :
    ∃ started, StackRun started sys := by
  induction h with
  | start hfresh => exact ⟨_, .start hfresh⟩
  | guest cpu _ hfibers hhosts _ ih =>
    obtain ⟨started, ih⟩ := ih
    exact ⟨started, ih.guest cpu hfibers hhosts⟩
  | @create _ _ t entry arg top seed _ _ _ _ hcreate ih =>
    obtain ⟨started, ih⟩ := ih
    refine ⟨started, ih.call (.create t entry arg top seed) ?_⟩
    change (do let _ ← createFiber t entry arg top seed : OS Unit) _ = _
    rw [bind_of hcreate]
    rfl
  | suspend t _ hcall ih =>
    obtain ⟨started, ih⟩ := ih
    exact ⟨started, ih.call (.suspend t) hcall⟩
  | resume t _ hcall ih =>
    obtain ⟨started, ih⟩ := ih
    exact ⟨started, ih.call (.resume t) hcall⟩
  | fallback cpu _ _ hfibers hhosts _ _ _ ih =>
    obtain ⟨started, ih⟩ := ih
    exact ⟨started, ih.guest cpu hfibers hhosts⟩
  | select _ hselect ih =>
    obtain ⟨started, ih⟩ := ih
    have hregistered := (ih.set hselect.fibers hselect.hosts).registerMain hselect.registered
    have hpublished := hselect.published
    rw [← (registerMain_mem hselect.registered).1] at hpublished
    exact ⟨_, hregistered.switchTo hpublished hselect.switched⟩

/-! ## The relation to the coroutines -/

/-- What the record `i` and its stack keep for the coroutine of its thread. -/
def GuestFiberRecord.Keeps (record : GuestFiberRecord) (i : Fin 64)
    (waiting : Handle → Option Waiting) : Option Left → Prop
  | .none => waiting record.host = .none
  | .some p => p.host = record.host ∧ record.savedCpu = p.registers ∧
    ∃ w, waiting record.host = some w ∧ w.cpu = p.guestCpu ∧
      w.frame = ⟨record.guestThread, some i, p.registers, p.cpu⟩

/-- The same thread, host and registers keep the same. -/
theorem GuestFiberRecord.Keeps.congr {r r' : GuestFiberRecord} {i : Fin 64}
    {waiting waiting' : Handle → Option Waiting} {left : Option Left} (h : r.Keeps i waiting left)
    (hthread : r'.guestThread = r.guestThread) (hhost : r'.host = r.host)
    (hsaved : r'.savedCpu = r.savedCpu) (hwaiting : waiting' r.host = waiting r.host) :
    r'.Keeps i waiting' left := by
  cases left with
  | none =>
    change waiting' r'.host = .none
    rw [hhost, hwaiting]
    exact h
  | some p =>
    obtain ⟨hp, hregisters, w, hw, hcpu, hframe⟩ := h
    refine ⟨?_, ?_, w, ?_, hcpu, ?_⟩
    · rw [hhost]
      exact hp
    · rw [hsaved]
      exact hregisters
    · rw [hhost, hwaiting]
      exact hw
    · rw [hthread]
      exact hframe

/-- The fibers are the coroutines: the running thread owns the registers and the running
stack, or no fiber has run yet; every other fiber keeps what its thread has left. -/
structure HostStacks.Follows (sys : HostStacks) (co : Coroutines Word Left) : Prop where
  running_ne : co.running ≠ 0#32
  apart : ∀ i j, sys.machine.fibers.Used i → sys.machine.fibers.Used j →
    (sys.machine.fibers.records i).host = (sys.machine.fibers.records j).host → i = j
  claimed : sys.machine.fibers.currentGuestThread ≠ 0#32 →
    sys.machine.fibers.currentGuestThread = co.running ∧
      ∃ i, sys.machine.fibers.find co.running = some i ∧
        (sys.machine.fibers.records i).host = sys.machine.hosts.current
  unclaimed : sys.machine.fibers.currentGuestThread = 0#32 →
    (∀ h, sys.waiting h = none) ∧ sys.machine.fibers.find co.running = none ∧
      ∀ i, sys.machine.fibers.Used i →
        (sys.machine.fibers.records i).host ≠ sys.machine.hosts.current
  others : ∀ i, sys.machine.fibers.Used i →
    (sys.machine.fibers.records i).guestThread ≠ co.running →
    (sys.machine.fibers.records i).Keeps i sys.waiting
      (co.parked (sys.machine.fibers.records i).guestThread)

namespace HostStacks

variable {sys : HostStacks} {co co' : Coroutines Word Left} {started : List Handle} {t : Word}
  {i : Fin 64} {m : Machine Memory}

/-- The relation looks at the records and the running stack. -/
theorem Follows.restate (hf : sys.Follows co) {s : Machine Memory} (cpu : CpuPtr)
    (hcurrent : s.hosts.current = sys.machine.hosts.current)
    (hthread : s.fibers.currentGuestThread = sys.machine.fibers.currentGuestThread)
    (hused : ∀ i, s.fibers.Used i ↔ sys.machine.fibers.Used i)
    (hsame : ∀ i, (s.fibers.records i).guestThread =
      (sys.machine.fibers.records i).guestThread ∧ (s.fibers.records i).host =
        (sys.machine.fibers.records i).host ∧
      (s.fibers.records i).savedCpu = (sys.machine.fibers.records i).savedCpu) :
    Follows { sys with machine := s, cpu := cpu } co := by
  have hthreads : ∀ i, (s.fibers.records i).guestThread =
      (sys.machine.fibers.records i).guestThread := fun i => (hsame i).1
  have hhosts : ∀ i, (s.fibers.records i).host = (sys.machine.fibers.records i).host :=
    fun i => (hsame i).2.1
  have hfind : ∀ t, s.fibers.find t = sys.machine.fibers.find t :=
    fun t => GuestFibers.find_congr hused hthreads
  constructor
  · exact hf.running_ne
  · simpa only [hused, hhosts] using hf.apart
  · simpa only [hthread, hfind, hhosts, hcurrent] using hf.claimed
  · simpa only [hthread, hfind, hused, hhosts, hcurrent] using hf.unclaimed
  · intro i hi hother
    obtain ⟨hthread, hhost, hsaved⟩ := hsame i
    rw [hthread] at hother ⊢
    exact (hf.others i ((hused i).mp hi) hother).congr hthread hhost hsaved rfl

/-- Guest code that leaves the table alone. -/
theorem Follows.guest (hf : sys.Follows co) (cpu : CpuPtr)
    (hfibers : m.fibers = sys.machine.fibers) (hhosts : m.hosts = sys.machine.hosts) :
    Follows { sys with machine := m, cpu := cpu } co := by
  apply hf.restate cpu
  · rw [hhosts]
  · rw [hfibers]
  · rw [hfibers]
    exact fun _ => Iff.rfl
  · rw [hfibers]
    exact fun _ => ⟨rfl, rfl, rfl⟩

/-- `suspend` and `resume`. -/
theorem Follows.setState (hf : sys.Follows co) {state : FiberState} (hstate : state ≠ .empty) :
    Follows { sys with
      machine := sys.machine.withFibers (sys.machine.fibers.setState t state) } co := by
  obtain ⟨_, howner, hsame⟩ := setState_same sys.machine.fibers t hstate
  refine hf.restate sys.cpu rfl howner (fun j => (hsame j).1) fun j => ?_
  obtain ⟨state', hrecord⟩ := (hsame j).2
  change ((sys.machine.fibers.setState t state).records j).guestThread = _ ∧ _ ∧ _
  rw [Machine.withFibers_fibers, hrecord]
  exact ⟨rfl, rfl, rfl⟩

/-- `create` takes over a slot of another thread than the running one. -/
theorem Follows.takeOver (hf : sys.Follows co) (hs : sys.Sound started)
    (hslot : sys.machine.fibers.Slot t i) (ht : t ≠ 0#32) (hrunning : t ≠ co.running)
    {r : GuestFiberRecord}
    (hcurrent : m.hosts.current = sys.machine.hosts.current)
    (hthread : m.fibers.currentGuestThread = sys.machine.fibers.currentGuestThread)
    (hrecords : m.fibers.records = (sys.machine.fibers.setRecord i r).records)
    (hdistinct : (sys.machine.fibers.setRecord i r).Distinct)
    (hr : r.state ≠ .empty →
      r.guestThread = t ∧ r.host = sys.machine.hosts.next ∧ co'.parked t = none)
    (hsame : co'.running = co.running) (hparked : ∀ u ≠ t, co'.parked u = co.parked u) :
    Follows { sys with machine := m } co' := by
  -- A record in use is an old one of another thread, or the new one.
  have hcase : ∀ j, m.fibers.Used j →
      (j ≠ i ∧ sys.machine.fibers.Used j ∧
        (sys.machine.fibers.records j).guestThread ≠ t ∧
        m.fibers.records j = sys.machine.fibers.records j) ∨
        (j = i ∧ r.state ≠ .empty ∧ m.fibers.records j = r) := by
    intro j hj
    rcases GuestFibers.setRecord_used hrecords j hj with ⟨hji, hu, hold⟩ | hnew
    · exact Or.inl ⟨hji, hu, hs.owned.distinct.slot_other ht hslot hji hu, hold⟩
    · exact Or.inr hnew
  have hfind : m.fibers.find co.running = sys.machine.fibers.find co.running := by
    have hsets : m.fibers.find co.running = (sys.machine.fibers.setRecord i r).find co.running := by
      apply GuestFibers.find_congr
      · intro j
        unfold GuestFibers.Used
        rw [hrecords]
      · intro j
        rw [hrecords]
    rw [hsets]
    exact hs.owned.distinct.find_setRecord_other hdistinct hslot (fun h => (hr h).1) hrunning.symm
  have hfresh : ∀ j, sys.machine.fibers.Used j →
      (sys.machine.fibers.records j).host ≠ sys.machine.hosts.next :=
    fun j hj => Nat.ne_of_lt (hs.owned.host_below j hj).2
  constructor
  · rw [hsame]
    exact hf.running_ne
  · intro j k hj hk heq
    rcases hcase j hj with ⟨_, hu, _, hold⟩ | ⟨hji, hstate, hnew⟩
    · rcases hcase k hk with ⟨_, hu', _, hold'⟩ | ⟨_, hstate, hnew⟩
      · rw [hold, hold'] at heq
        exact hf.apart j k hu hu' heq
      · rw [hold, hnew, (hr hstate).2.1] at heq
        exact absurd heq (hfresh j hu)
    · rcases hcase k hk with ⟨_, hu', _, hold'⟩ | ⟨hki, _, _⟩
      · rw [hold', hnew, (hr hstate).2.1] at heq
        exact absurd heq.symm (hfresh k hu')
      · rw [hji, hki]
  · intro hclaimed
    rw [hthread] at hclaimed
    obtain ⟨howner, j, hj, hhost⟩ := hf.claimed hclaimed
    refine ⟨?_, j, ?_, ?_⟩
    · rw [hthread, hsame]
      exact howner
    · rw [hsame, hfind]
      exact hj
    · have hji : j ≠ i := by
        rintro rfl
        obtain ⟨_, hu, hthread⟩ := GuestFibers.find_spec hj
        rcases hslot with h | ⟨_, hempty⟩
        · exact hrunning ((GuestFibers.find_spec h).2.2.symm.trans hthread)
        · exact hu hempty
      rw [hcurrent, hrecords, GuestFibers.setRecord_other _ r hji]
      exact hhost
  · intro hunclaimed
    rw [hthread] at hunclaimed
    obtain ⟨hidle, hnone, hhosts⟩ := hf.unclaimed hunclaimed
    refine ⟨hidle, ?_, ?_⟩
    · rw [hsame, hfind]
      exact hnone
    · intro j hj
      rw [hcurrent]
      rcases hcase j hj with ⟨_, hu, _, hold⟩ | ⟨_, hstate, hnew⟩
      · rw [hold]
        exact hhosts j hu
      · rw [hnew, (hr hstate).2.1]
        exact Nat.ne_of_gt hs.owned.current_below.2
  · intro j hj hother
    rcases hcase j hj with ⟨_, hu, hthread, hold⟩ | ⟨_, hstate, hnew⟩
    · rw [hold, hsame] at hother
      rw [hold, hparked _ hthread]
      exact hf.others j hu hother
    · obtain ⟨hthread, hhost, hnone⟩ := hr hstate
      rw [hnew, hthread, hnone]
      change sys.waiting r.host = none
      rw [hhost]
      exact hs.owned.next_idle

/-- `create` makes the coroutine of its thread start again. -/
theorem Follows.creates (hf : sys.Follows co) (hs : sys.Sound started) {entry arg top : Word}
    {seed : CpuPtr} {b : Bool} (hrunning : t ≠ co.running)
    (hc : sys.machine.Creates t entry arg top seed b m) :
    Follows { sys with machine := m } (if b then co.renew t else co) := by
  cases hc with
  | refused =>
    exact hf.restate sys.cpu rfl rfl (fun _ => Iff.rfl) fun _ => ⟨rfl, rfl, rfl⟩
  | cleared i ht hslot _ =>
    refine hf.takeOver hs hslot ht hrunning (r := .none) ?_ rfl rfl ?_ ?_ rfl ?_
    · exact HostContexts.destroy_current ..
    · exact hs.owned.distinct.clear
    · exact fun h => absurd rfl h
    · exact fun _ _ => rfl
  | made i hid2 ht hslot _ _ =>
    refine hf.takeOver hs hslot ht hrunning (r := ⟨t, sys.machine.hosts.next, entry, arg,
      seededCpu entry arg top hid2, .waiting, false⟩) ?_ rfl rfl ?_ ?_ rfl ?_
    · exact HostContexts.destroy_current ..
    · exact hs.owned.distinct.setRecord ht hslot rfl
    · exact fun _ => ⟨rfl, rfl, co.renew_parked_self t⟩
    · exact fun u hu => co.renew_parked_other hu

/-- A thread without a fiber takes the running stack over, while no fiber has run. -/
theorem Follows.fallback (hf : sys.Follows co) (hs : sys.Sound started) (cpu : CpuPtr)
    (hunclaimed : sys.machine.fibers.currentGuestThread = 0#32)
    (hfibers : m.fibers = sys.machine.fibers) (hhosts : m.hosts = sys.machine.hosts)
    (ht : t ≠ 0#32) (hnone : hasFiber t m = .ret false m) :
    Follows { sys with machine := m, cpu := cpu } (co.seize t) := by
  obtain ⟨hidle, hrunning, hother⟩ := hf.unclaimed hunclaimed
  have hfind : sys.machine.fibers.find t = none := by
    cases hfind : sys.machine.fibers.find t with
    | none => rfl
    | some i =>
      have hi := (GuestFibers.find_spec hfind).2.1
      have havailable : m.fibersAvailable = true := by
        unfold Machine.fibersAvailable
        rw [hfibers, hhosts]
        exact decide_eq_true ⟨hs.owned.scheduled i hi, Nat.ne_of_gt hs.owned.current_below.1⟩
      unfold hasFiber at hnone
      rw [bind_of (gets_apply ..), havailable, Routine.ite_apply, if_pos rfl,
        bind_of (getFibers_apply _), hfibers] at hnone
      simp only [Routine.pure_apply, Coop.ret.injEq, and_true] at hnone
      rw [hs.owned.find_of_has hnone] at hfind
      cases hfind
  constructor
  · exact ht
  · rw [hfibers]
    exact hf.apart
  · rw [hfibers]
    exact fun h => absurd hunclaimed h
  · rw [hfibers, hhosts]
    exact fun _ => ⟨hidle, hfind, hother⟩
  · rw [hfibers]
    intro i hi _
    exact hf.others i hi (GuestFibers.find_none hrunning hf.running_ne hi)

/-- SelectThread registers the running thread when no fiber has run, so that it owns the
registers and the running stack. -/
theorem Follows.registerMain (hf : sys.Follows co) (hs : sys.Sound started) {c : CpuPtr}
    (h : SelectThread.registerMain c co.running sys.machine = .ret true m) :
    Follows { sys with machine := m } co ∧ m.fibers.currentGuestThread = co.running := by
  rcases registerMain_cases h with ⟨rfl, hnothing⟩ | ⟨hunclaimed, _, hregisters⟩
  · refine ⟨hf, ?_⟩
    by_cases hclaimed : sys.machine.fibers.currentGuestThread = 0#32
    · have hnone := (hf.unclaimed hclaimed).2.1
      have hhas : sys.machine.fibers.has co.running = false := by
        unfold GuestFibers.has
        rw [hnone]
      rw [hhas] at hnothing
      rcases hnothing with h | h | h
      · exact absurd hclaimed h
      · exact absurd h hf.running_ne
      · cases h
    · exact (hf.claimed hclaimed).1
  · cases hregisters with
    | made i r ht hslot hready hcurrent _ hruns =>
      refine ⟨?_, rfl⟩
      obtain ⟨hidle, hnone, hother⟩ := hf.unclaimed hunclaimed
      have hdistinct := hs.owned.distinct.setRecord ht hslot hruns.thread
      have hused : ∀ j, j ≠ i → (sys.machine.fibers.setRecord i r).Used j →
          sys.machine.fibers.Used j := fun j hji hj => (GuestFibers.used_setRecord_other hji).mp hj
      have hold : ∀ j, j ≠ i →
          (sys.machine.fibers.setRecord i r).records j = sys.machine.fibers.records j :=
        fun j hji => GuestFibers.setRecord_other _ r hji
      have hnew : (sys.machine.fibers.setRecord i r).records i = r := GuestFibers.setRecord_self ..
      have hhost : r.host = sys.machine.hosts.current := hruns.host_eq.trans hcurrent.symm
      constructor
      · exact hf.running_ne
      · intro j k hj hk heq
        change ((sys.machine.fibers.setRecord i r).records j).host =
          ((sys.machine.fibers.setRecord i r).records k).host at heq
        by_cases hji : j = i
        · by_cases hki : k = i
          · rw [hji, hki]
          · rw [hji, hnew, hold k hki, hhost] at heq
            exact absurd heq.symm (hother k (hused k hki hk))
        · by_cases hki : k = i
          · rw [hki, hnew, hold j hji, hhost] at heq
            exact absurd heq (hother j (hused j hji hj))
          · rw [hold j hji, hold k hki] at heq
            exact hf.apart j k (hused j hji hj) (hused k hki hk) heq
      · intro _
        refine ⟨rfl, i, ?_, ?_⟩
        · change (sys.machine.fibers.setRecord i r).find co.running = some i
          rw [hdistinct.find_iff, GuestFibers.used_setRecord_self, hnew]
          refine ⟨?_, hruns.thread⟩
          rw [hruns.state]
          exact fun h => FiberState.noConfusion h
        · change ((sys.machine.fibers.setRecord i r).records i).host = _
          rw [hnew]
          exact hhost
      · exact fun h => absurd h hf.running_ne
      · intro j hj hthread
        change ((sys.machine.fibers.setRecord i r).records j).guestThread ≠ co.running at hthread
        change ((sys.machine.fibers.setRecord i r).records j).Keeps j sys.waiting
          (co.parked ((sys.machine.fibers.setRecord i r).records j).guestThread)
        have hji : j ≠ i := by
          rintro rfl
          rw [hnew] at hthread
          exact hthread hruns.thread
        rw [hold j hji] at hthread ⊢
        exact hf.others j (hused j hji hj) hthread

/-- The machine after a switch to the record `i`: its thread owns the registers and the running
stack, and the thread that left has its registers in its record. -/
structure Switched (sys : HostStacks) (t : Word) (c : CpuPtr) (i : Fin 64) (s : Machine Memory) :
    Prop where
  mem : s.mem = sys.machine.mem
  current : s.hosts.current = (sys.machine.fibers.records i).host
  owner : s.fibers.currentGuestThread = t
  used : ∀ j, s.fibers.Used j ↔ sys.machine.fibers.Used j
  thread : ∀ j, (s.fibers.records j).guestThread = (sys.machine.fibers.records j).guestThread
  host : ∀ j, (s.fibers.records j).host = (sys.machine.fibers.records j).host
  saved : ∀ j, (s.fibers.records j).savedCpu = sys.machine.savedAtSwitch c j

theorem switched_loaded {c : CpuPtr} {s : Machine Memory}
    (hi : sys.machine.fibers.Used i) (hmem : s.mem = sys.machine.mem)
    (hfibers : s.fibers = (sys.machine.loaded t c i).fibers)
    (hcurrent : s.hosts.current = (sys.machine.fibers.records i).host) :
    sys.Switched t c i s := by
  have hrecord := loaded_record sys.machine t c i
  constructor
  · exact hmem
  · exact hcurrent
  · rw [hfibers]
    rfl
  · rw [hfibers]
    exact fun _ => loaded_used hi
  · intro j
    rw [hfibers, hrecord]
    split
    · rename_i hji
      rw [hji]
      rfl
    · rfl
  · intro j
    rw [hfibers, hrecord]
    split
    · rename_i hji
      rw [hji]
      rfl
    · rfl
  · intro j
    rw [hfibers, loaded_savedCpu]

/-- The thread that goes on claims its record again. -/
theorem Switched.reclaim {c : CpuPtr} {s : Machine Memory} {frame : SwitchFrame}
    (h : sys.Switched t c i s) (hi : sys.machine.fibers.Used i)
    (hreclaims : frame.reclaims s.mem = some i) (hprevious : frame.previousThread = t) :
    sys.Switched t c i (frame.leave s) := by
  have hleave :
    frame.leave s = (s.onCpu frame.cpu fun _ => (s.fibers.records i).savedCpu).withFibers
      { s.fibers.setRecord i { s.fibers.records i with state := .running } with
        currentGuestThread := frame.previousThread
        activeCpu := frame.cpu } := by
    unfold SwitchFrame.leave
    rw [hreclaims]
  rw [hleave]
  have hrecord : ∀ j,
    (s.fibers.setRecord i { s.fibers.records i with state := .running }).records j =
      if j = i then { s.fibers.records i with state := .running } else s.fibers.records j :=
    fun j => Function.update_apply ..
  constructor
  · exact h.mem
  · exact h.current
  · exact hprevious
  · intro j
    change ((s.fibers.setRecord i _).records j).state ≠ .empty ↔ _
    rw [hrecord]
    split
    · rename_i hji
      rw [hji]
      exact iff_of_true (fun h => FiberState.noConfusion h) hi
    · exact h.used j
  · intro j
    change ((s.fibers.setRecord i _).records j).guestThread = _
    rw [hrecord, ← h.thread j]
    split
    · rename_i hji
      rw [hji]
    · rfl
  · intro j
    change ((s.fibers.setRecord i _).records j).host = _
    rw [hrecord, ← h.host j]
    split
    · rename_i hji
      rw [hji]
    · rfl
  · intro j
    change ((s.fibers.setRecord i _).records j).savedCpu = _
    rw [hrecord, ← h.saved j]
    split
    · rename_i hji
      rw [hji]
    · rfl

/-- The running thread leaves its stack to wait in its call, and the thread of the record `i`
goes on; the other stacks wait as before. -/
theorem Follows.switched (hf : sys.Follows co) (hs : sys.Sound started)
    (howner : sys.machine.fibers.currentGuestThread = co.running) {c : CpuPtr}
    {s : Machine Memory} {waiting : Handle → Option Waiting} (cpu : CpuPtr)
    (hi : sys.machine.fibers.find t = some i) (h : sys.Switched t c i s)
    (hcaller : (sys.machine.fibers.records i).host ≠ sys.machine.hosts.current →
      waiting sys.machine.hosts.current = some (sys.caller c))
    (hwaiting : ∀ j, (sys.machine.fibers.records j).host ≠ sys.machine.hosts.current →
      (sys.machine.fibers.records j).host ≠ (sys.machine.fibers.records i).host →
      waiting (sys.machine.fibers.records j).host =
        sys.waiting (sys.machine.fibers.records j).host) :
    Follows ⟨s, cpu, waiting⟩ (co.handTo t (sys.leaves sys.machine c)) := by
  obtain ⟨ht, hused, hit⟩ := GuestFibers.find_spec hi
  have hclaimed : sys.machine.fibers.currentGuestThread ≠ 0#32 := by
    rw [howner]
    exact hf.running_ne
  obtain ⟨_, k, hk, hkhost⟩ := hf.claimed hclaimed
  obtain ⟨_, hkused, hkthread⟩ := GuestFibers.find_spec hk
  have hprevious : sys.machine.fibers.find sys.machine.fibers.currentGuestThread = some k := by
    rw [howner]
    exact hk
  constructor
  · exact ht
  · intro j l hj hl heq
    change (s.fibers.records j).host = (s.fibers.records l).host at heq
    rw [h.host, h.host] at heq
    exact hf.apart j l ((h.used j).mp hj) ((h.used l).mp hl) heq
  · intro _
    refine ⟨h.owner, i, ?_, ?_⟩
    · exact (GuestFibers.find_congr h.used h.thread).trans hi
    · exact (h.host i).trans h.current.symm
  · intro hzero
    exact absurd (h.owner.symm.trans hzero) ht
  · intro j hj hother
    change (s.fibers.records j).guestThread ≠ t at hother
    change (s.fibers.records j).Keeps j waiting
      ((co.handTo t (sys.leaves sys.machine c)).parked (s.fibers.records j).guestThread)
    have hju := (h.used j).mp hj
    rw [h.thread] at hother ⊢
    have hji : (sys.machine.fibers.records j).host ≠ (sys.machine.fibers.records i).host := by
      intro heq
      rw [hf.apart j i hju hused heq] at hother
      exact hother hit
    by_cases hrunning : (sys.machine.fibers.records j).guestThread = co.running
    · -- The thread that has left.
      have hjk : j = k := hs.owned.distinct.one j k hju hkused (hrunning.trans hkthread.symm)
      subst hjk
      rw [hrunning, Coroutines.handTo_parked_self]
      refine ⟨?_, ?_, sys.caller c, ?_, rfl, ?_⟩
      · rw [h.host]
        exact hkhost.symm
      · rw [h.saved, Machine.savedAtSwitch, if_pos hprevious]
        rfl
      · rw [h.host, hkhost]
        apply hcaller
        rw [← hkhost]
        exact hji.symm
      · rw [h.thread, hrunning, ← howner]
        change sys.machine.switchFrame c = _
        unfold Machine.switchFrame
        rw [hprevious]
        rfl
    · have hnot : j ≠ k := by
        rintro rfl
        exact hrunning hkthread
      rw [Coroutines.handTo_parked_other _ _ _ hrunning]
      apply (hf.others j hju hrunning).congr (h.thread j) (h.host j)
      · rw [h.saved, Machine.savedAtSwitch, if_neg]
        rw [hprevious]
        exact fun heq => hnot (Option.some_inj.mp heq).symm
      · apply hwaiting j _ hji
        rw [← hkhost]
        exact fun heq => hnot (hf.apart j k hju hkused heq)

end HostStacks

/-- A thread goes on with what its coroutine finds: with the registers that it passed to its
last switch, on the stack that it made that call on; or it starts, on its own stack and at
its own entry. -/
def HostStacks.GoesOn (sys' : HostStacks) (t : Word) (e : SwitchEnd) : Option Left → Prop
  | some p => sys'.machine.cpus p.cpu = p.registers ∧ sys'.cpu = p.guestCpu ∧
    sys'.machine.hosts.current = p.host
  | none => ∃ i host, e = .entered host ∧ sys'.machine.hosts.current = host ∧
    sys'.machine.hosts.argument host = t ∧ sys'.machine.fibers.find t = some i ∧
    (sys'.machine.cpus sys'.cpu).pc = (sys'.machine.fibers.records i).entryPoint

namespace HostStacks

variable {sys sys' : HostStacks} {co : Coroutines Word Left} {started : List Handle} {t : Word}
  {i : Fin 64} {c : CpuPtr} {e : SwitchEnd}

/-- A switch hands the turn to the coroutine of its target. -/
theorem Follows.goes (hf : sys.Follows co) (hs : sys.Sound started)
    (howner : sys.machine.fibers.currentGuestThread = co.running)
    (hpublished : sys.machine.mem.Publishes t) (hi : sys.machine.Switches t c i)
    (h : sys.Goes t c i e sys') :
    sys'.Follows (co.handTo t (sys.leaves sys.machine c)) ∧ sys'.machine.mem = sys.machine.mem ∧
      sys.Switched t c i sys'.machine ∧
      sys'.GoesOn t e ((co.handTo t (sys.leaves sys.machine c)).parked t) := by
  obtain ⟨ht, hused, hit⟩ := GuestFibers.find_spec hi.found
  have hclaimed : sys.machine.fibers.currentGuestThread ≠ 0#32 := by
    rw [howner]
    exact hf.running_ne
  obtain ⟨_, k, hk, hkhost⟩ := hf.claimed hclaimed
  obtain ⟨_, hkused, hkthread⟩ := GuestFibers.find_spec hk
  -- The running thread has the record on the running stack.
  have hself : (sys.machine.fibers.records i).host = sys.machine.hosts.current ↔
      t = co.running := by
    rw [← hkhost]
    constructor
    · intro heq
      rw [← hit, hf.apart i k hused hkused heq]
      exact hkthread
    · intro heq
      rw [hs.owned.distinct.one i k hused hkused (hit.trans (heq.trans hkthread.symm))]
  cases h with
  | here hhost =>
    have hrunning := hself.mp hhost
    have hsw : sys.Switched t c i (sys.machine.loaded t c i) :=
      switched_loaded hused rfl rfl hhost.symm
    refine ⟨?_, rfl, hsw, ?_⟩
    · exact hf.switched hs howner sys.cpu hi.found hsw (fun hne => absurd hhost hne)
        fun _ _ _ => rfl
    · rw [hrunning, Coroutines.handTo_parked_self]
      refine ⟨?_, rfl, rfl⟩
      have hprevious : sys.machine.fibers.find sys.machine.fibers.currentGuestThread = some i := by
        rw [howner, ← hrunning]
        exact hi.found
      change (sys.machine.loaded t c i).cpus c = sys.machine.cpus c
      rw [loaded_cpus, Function.update_self, Machine.savedAtSwitch, if_pos hprevious]
  | enter host j r1 r2 r13 lr hhost hne hidle hfind =>
    subst hhost
    have hrunning : t ≠ co.running := fun h => hne (hself.mpr h)
    have hsw : sys.Switched t c i (((sys.machine.loaded t c i).onHost
        (sys.machine.fibers.records i).host).onCpu c
          (((sys.machine.loaded t c i).fibers.records j).enter r1 r2 r13 lr)) :=
      switched_loaded hused rfl rfl rfl
    have hkeeps := hf.others i hused (by rw [hit]; exact hrunning)
    rw [hit] at hkeeps
    refine ⟨?_, rfl, hsw, ?_⟩
    · apply hf.switched hs howner c hi.found hsw
      · exact fun _ => Function.update_self ..
      · exact fun l hl _ => Function.update_of_ne hl ..
    · rw [Coroutines.handTo_parked_other _ _ _ hrunning]
      cases hparked : co.parked t with
      | some p =>
        rw [hparked] at hkeeps
        obtain ⟨_, _, w, hw, _⟩ := hkeeps
        rw [hidle] at hw
        cases hw
      | none =>
        have hargument := hs.owned.argument_of_idle hused hne hidle
        have hloaded := hs.owned.loaded (t := t) (c := c) hused
        rw [hargument, hit] at hfind
        refine ⟨i, _, rfl, rfl, ?_, ?_, ?_⟩
        · exact hargument.trans hit
        · exact (GuestFibers.find_congr hsw.used hsw.thread).trans hi.found
        · have hji : j = i := by
            obtain ⟨hju, hjt⟩ := hloaded.distinct.find_iff.mp hfind
            have hthread : ((sys.machine.loaded t c i).fibers.records j).guestThread =
                (sys.machine.fibers.records j).guestThread := hsw.thread j
            exact hs.owned.distinct.one j i ((hsw.used j).mp hju) hused
              ((hthread.symm.trans hjt).trans hit.symm)
          subst hji
          change ((((sys.machine.loaded t c j).onHost _).onCpu c _).cpus c).pc = _
          rw [onCpu_cpus, Function.update_self]
          rfl
  | resume host w hhost hne hwaits =>
    subst hhost
    have hrunning : t ≠ co.running := fun h => hne (hself.mpr h)
    have hkeeps := hf.others i hused (by rw [hit]; exact hrunning)
    rw [hit] at hkeeps
    cases hparked : co.parked t with
    | none =>
      rw [hparked] at hkeeps
      rw [show sys.waiting _ = none from hkeeps] at hwaits
      cases hwaits
    | some p =>
      rw [hparked] at hkeeps
      obtain ⟨hphost, hregisters, w', hw', hcpu, hframe⟩ := hkeeps
      rw [hwaits] at hw'
      cases hw'
      have hloaded : sys.Switched t c i ((sys.machine.loaded t c i).onHost
          (sys.machine.fibers.records i).host) := switched_loaded hused rfl rfl rfl
      rw [hit] at hframe
      have hreclaims : w.frame.reclaims sys.machine.mem = some i := by
        unfold SwitchFrame.reclaims
        rw [hframe, if_pos]
        exact ⟨ht, hpublished⟩
      have hsw := hloaded.reclaim hused hreclaims (by rw [hframe])
      refine ⟨?_, hsw.mem, hsw, ?_⟩
      · apply hf.switched hs howner w.cpu hi.found hsw
        · exact fun hne => (Function.update_of_ne hne.symm ..).trans (Function.update_self ..)
        · exact fun l hl hli =>
            (Function.update_of_ne hli ..).trans (Function.update_of_ne hl ..)
      · rw [Coroutines.handTo_parked_other _ _ _ hrunning, hparked]
        refine ⟨?_, hcpu, ?_⟩
        · have hcpus := leave_cpus w.frame ((sys.machine.loaded t c i).onHost
            (sys.machine.fibers.records i).host)
          rw [onHost_mem, loaded_mem, hreclaims] at hcpus
          change (w.frame.leave _).cpus p.cpu = _
          rw [hcpus, hframe, Function.update_self]
          change ((sys.machine.loaded t c i).fibers.records i).savedCpu = _
          rw [loaded_savedCpu, Machine.savedAtSwitch, if_neg, hregisters]
          rw [howner, hk]
          intro heq
          rw [← Option.some_inj.mp heq] at hne
          exact hne hkhost
        · rw [hphost]
          exact hsw.current

end HostStacks

/-! ## The laws -/

section

variable {sys sys' : HostStacks} {co : Coroutines Word Left} {started : List Handle} {t : Word}
  {c : CpuPtr} {m m' : Machine Memory} {e : SwitchEnd}

theorem HostStacks.Fresh.follows (h : sys.Fresh) (ht : t ≠ 0#32) :
    sys.Follows ⟨t, fun _ => none⟩ := by
  have hnone := h.unused
  constructor
  · exact ht
  · exact fun i _ hi => absurd hi (hnone i)
  · exact fun hne => absurd h.unclaimed hne
  · intro _
    refine ⟨h.idle, ?_, fun i hi => absurd hi (hnone i)⟩
    cases hfind : sys.machine.fibers.find t with
    | none => rfl
    | some i => exact absurd (GuestFibers.find_spec hfind).2.1 (hnone i)
  · exact fun i hi => absurd hi (hnone i)

/-- A call of `switch_to` for a fiber goes to it. -/
theorem HostStacks.switchTo_goes {i : Fin 64} (hkept : sys.Kept)
    (hi : sys.machine.Switches t c i) (h : sys.switchTo t c = some (e, sys')) :
    sys.Goes t c i e sys' := by
  rcases HostStacks.switchTo_cases hkept h with ⟨rfl, _⟩ | ⟨j, hj, hgoes⟩
  · unfold HostStacks.switchTo at h
    rw [switchTo_apply hi] at h
    by_cases hhost : (sys.machine.fibers.records i).host = sys.machine.hosts.current
    · rw [if_pos hhost] at h
      cases h
    · rw [if_neg hhost] at h
      simp only [HostStacks.handOver] at h
      split at h
      · split at h <;> cases h
      · split at h <;> cases h
  · cases hj.found.symm.trans hi.found
    exact hgoes

theorem hasFiber_ret (h : hasFiber t m = .ret true m) :
    m.fibersAvailable = true ∧ ∃ i, m.fibers.find t = some i ∧
    (m.fibers.records i).host ≠ 0 := by
  unfold hasFiber at h
  rw [bind_of (gets_apply ..), Routine.ite_apply] at h
  by_cases havailable : m.fibersAvailable = true
  · rw [if_pos havailable, bind_of (getFibers_apply _), GuestFibers.has] at h
    refine ⟨havailable, ?_⟩
    cases hfind : m.fibers.find t with
    | none =>
      rw [hfind] at h
      cases h
    | some i =>
      simp only [hfind, Routine.pure_apply, Coop.ret.injEq, decide_eq_true_eq, and_true] at h
      exact ⟨i, rfl, h⟩
  · rw [if_neg havailable] at h
    cases h

/-- The fiber that SelectThread has found is there when it calls `switch_to`. -/
theorem HostStacks.Selects.switches {running : Word} (h : sys.Selects running t c m m' e sys')
    (hs : sys.Sound started) : ∃ i, m'.Switches t c i := by
  obtain ⟨havailable, i, hfind, hhost⟩ := hasFiber_ret h.fiber
  rcases registerMain_cases h.registered with ⟨rfl, _⟩ | ⟨_, hhas, hregisters⟩
  · exact ⟨i, hfind, havailable, hhost, h.cpu_ne⟩
  · cases hregisters with
    | made j r ht hslot hready hcurrent _ hruns =>
      rw [h.fibers] at hfind hhost hhas hslot
      have hnone := hs.owned.find_of_has hhas
      have hother : t ≠ running := by
        rintro rfl
        rw [hnone] at hfind
        cases hfind
      have hji : i ≠ j := by
        rintro rfl
        rcases hslot with h | ⟨_, hempty⟩
        · rw [hnone] at h
          cases h
        · exact (GuestFibers.find_spec hfind).2.1 hempty
      have hd := hs.owned.distinct
      refine ⟨i, ?_, havailable, ?_, h.cpu_ne⟩
      · have hset := hd.find_setRecord_other (hd.setRecord ht hslot hruns.thread) hslot
          (fun _ => hruns.thread) hother
        rw [← h.fibers] at hset
        exact hset.trans (h.fibers ▸ hfind)
      · change ((m.fibers.setRecord j r).records i).host ≠ 0
        rw [GuestFibers.setRecord_other _ r hji, h.fibers]
        exact hhost

/-- The machine that `switch_to` gets from SelectThread. -/
theorem HostStacks.Follows.selected (hf : sys.Follows co) (hs : StackRun started sys)
    (h : sys.Selects co.running t c m m' e sys') :
    HostStacks.Follows { sys with machine := m' } co ∧
      HostStacks.Sound started { sys with machine := m' } ∧
      m'.fibers.currentGuestThread = co.running ∧ m'.mem.Publishes t := by
  have hm := hf.guest sys.cpu h.fibers h.hosts
  have hms := hs.set h.fibers h.hosts
  obtain ⟨hfollows, howner⟩ := hm.registerMain hms.sound h.registered
  refine ⟨hfollows, (hms.registerMain h.registered).sound, howner, ?_⟩
  rw [(registerMain_mem h.registered).1]
  exact h.published

/-- What SelectThread does to the coroutines. -/
theorem HostStacks.Follows.select (hf : sys.Follows co) (hs : StackRun started sys)
    (h : sys.Selects co.running t c m m' e sys') :
    sys'.Follows (co.handTo t (sys.leaves m' c)) ∧ sys'.machine.mem.Publishes t ∧
      (∃ i, HostStacks.Switched { sys with machine := m' } t c i sys'.machine) ∧
      sys'.GoesOn t e ((co.handTo t (sys.leaves m' c)).parked t) := by
  obtain ⟨hfollows, hsound, howner, hpublished⟩ := hf.selected hs h
  obtain ⟨i, hi⟩ := h.switches hs.sound
  have hgoes := HostStacks.switchTo_goes hsound.kept hi h.switched
  obtain ⟨hf', hmem, hsw, hon⟩ := hfollows.goes hsound howner hpublished hi hgoes
  refine ⟨hf', ?_, ⟨i, hsw⟩, hon⟩
  rw [hmem]
  exact hpublished

/-- What holds after each step of a run of threads. -/
theorem FiberRun.follows (h : FiberRun co sys) :
    sys.Follows co ∧ sys.machine.mem.Publishes co.running := by
  induction h with
  | start hfresh ht hpublished => exact ⟨hfresh.follows ht, hpublished⟩
  | guest cpu _ hfibers hhosts hpublished ih =>
    exact ⟨ih.1.guest cpu hfibers hhosts, hpublished⟩
  | create hrun hrunning hcreate ih =>
    obtain ⟨started, hstack⟩ := hrun.stackRun
    have hcreates := createFiber_cases hstack.sound.owned.next_ne hcreate
    refine ⟨ih.1.creates hstack.sound hrunning hcreates, ?_⟩
    rw [hcreates.mem]
    split
    · exact ih.2
    · exact ih.2
  | suspend t _ hcall ih =>
    cases hcall
    exact ⟨ih.1.setState fun h => FiberState.noConfusion h, ih.2⟩
  | resume t _ hcall ih =>
    cases hcall
    exact ⟨ih.1.setState fun h => FiberState.noConfusion h, ih.2⟩
  | fallback cpu hrun hunclaimed hfibers hhosts ht hpublished hnone ih =>
    obtain ⟨started, hstack⟩ := hrun.stackRun
    exact ⟨ih.1.fallback hstack.sound cpu hunclaimed hfibers hhosts ht hnone, hpublished⟩
  | select hrun hselect ih =>
    obtain ⟨started, hstack⟩ := hrun.stackRun
    obtain ⟨hfollows, hpublished, _⟩ := ih.1.select hstack hselect
    exact ⟨hfollows, hpublished⟩

/-- Each time that SelectThread goes to a fiber, its thread goes on as a coroutine does: with
the registers that it passed to its last switch, or at its entry when it has not run. -/
theorem threads_are_coroutines (hrun : FiberRun co sys)
    (h : sys.Selects co.running t c m m' e sys') :
    sys'.machine.fibers.currentGuestThread = t ∧ sys'.machine.mem.Publishes t ∧
      sys'.GoesOn t e ((co.handTo t (sys.leaves m' c)).parked t) := by
  obtain ⟨started, hstack⟩ := hrun.stackRun
  obtain ⟨_, hpublished, ⟨i, hsw⟩, hon⟩ := hrun.follows.1.select hstack h
  exact ⟨hsw.owner, hpublished, hon⟩

/-- In every run the registers are owned by no fiber or by the published thread. A switch makes
its target the owner and gives it back the register file that it left; it stores the registers
in the record of the thread that leaves and in no other. A thread without a fiber can be
published in the same way exactly while no fiber owns the registers. -/
theorem the_published_thread_owns_the_registers (hrun : FiberRun co sys) :
    (sys.machine.fibers.currentGuestThread = 0#32 ∨
      sys.machine.mem.Publishes sys.machine.fibers.currentGuestThread) ∧
    (∀ (t : Word) (c : CpuPtr) (m m' : Machine Memory) (e : SwitchEnd) (sys' : HostStacks),
      sys.Selects co.running t c m m' e sys' →
      sys'.machine.fibers.currentGuestThread = t ∧ sys'.machine.mem.Publishes t ∧
      (∀ p, (co.handTo t (sys.leaves m' c)).parked t = some p →
        sys'.machine.cpus p.cpu = p.registers) ∧
      ∀ j, m'.fibers.Used j → (sys'.machine.fibers.records j).savedCpu =
        if (m'.fibers.records j).guestThread = co.running then m'.cpus c
        else (m'.fibers.records j).savedCpu) ∧
    (∀ (t : Word) (m : Machine Memory), t ≠ co.running → m.fibers = sys.machine.fibers →
      m.mem.Publishes t →
      ((m.fibers.currentGuestThread = 0#32 ∨ m.mem.Publishes m.fibers.currentGuestThread) ↔
        sys.machine.fibers.currentGuestThread = 0#32)) := by
  obtain ⟨started, hstack⟩ := hrun.stackRun
  obtain ⟨hf, hpublished⟩ := hrun.follows
  refine ⟨?_, ?_, ?_⟩
  · by_cases hzero : sys.machine.fibers.currentGuestThread = 0#32
    · exact Or.inl hzero
    · rw [(hf.claimed hzero).1]
      exact Or.inr hpublished
  · intro t c m m' e sys' h
    obtain ⟨_, hsound, howner, _⟩ := hf.selected hstack h
    obtain ⟨_, hpublished', ⟨i, hsw⟩, hon⟩ := hf.select hstack h
    refine ⟨hsw.owner, hpublished', fun p hp => ?_, fun j hj => ?_⟩
    · rw [hp] at hon
      exact hon.1
    · rw [hsw.saved, Machine.savedAtSwitch, howner]
      have hfind : m'.fibers.find co.running = some j ↔
          (m'.fibers.records j).guestThread = co.running := by
        rw [hsound.owned.distinct.find_iff]
        exact ⟨fun h => h.2, fun h => ⟨hj, h⟩⟩
      simp only [hfind]
  · intro t m hother hfibers hm
    rw [hfibers]
    constructor
    · rintro (hzero | howner)
      · exact hzero
      · by_contra hne
        have howns := (hf.claimed hne).1
        rw [howns] at howner
        exact hother (Option.some_inj.mp (hm.1.symm.trans howner.1))
    · exact Or.inl

end

/-! ## Two switches on a booted Wii -/

/-- A booted Wii whose main thread is published. -/
def publishedBoot (t : Word) : Option Memory :=
  wiiBoot.bind fun m => (m.write32 kOSRunningContextAddr t).bind fun m =>
    (m.write32 kOSCurrentContextAddr t).bind fun m =>
      if m.read32 kOSRunningContextAddr = some t ∧ m.read32 kOSCurrentContextAddr = some t then
        some m
      else none

/-- SelectThread goes from the thread `running` to the fiber of `t`, on the register file `c`. -/
def HostStacks.select (sys : HostStacks) (running t : Word) (c : CpuPtr) :
    Option (Machine Memory × Machine Memory × SwitchEnd × HostStacks) :=
  (publishedBoot t).bind fun mem =>
    let m := sys.machine.withMem mem
    if c ≠ 0 ∧ m.fibersAvailable = true ∧ m.fibers.has t = true then
      match (registerMain c running m).ended with
      | some (true, m') =>
        (HostStacks.switchTo { sys with machine := m' } t c).map fun r => (m, m', r)
      | _ => none
    else none

theorem publishedBoot_publishes {t : Word} {m : Memory} (h : publishedBoot t = some m) :
    m.Publishes t := by
  obtain ⟨_, _, h⟩ := Option.bind_eq_some_iff.mp h
  obtain ⟨_, _, h⟩ := Option.bind_eq_some_iff.mp h
  obtain ⟨_, _, h⟩ := Option.bind_eq_some_iff.mp h
  split at h
  · rename_i hwords
    cases h
    exact hwords
  · cases h

theorem HostStacks.selects {sys sys' : HostStacks} {running t : Word} {c : CpuPtr}
    {m m' : Machine Memory} {e : SwitchEnd}
    (h : sys.select running t c = some (m, m', e, sys')) : sys.Selects running t c m m' e sys' := by
  obtain ⟨mem, hmem, h⟩ := Option.bind_eq_some_iff.mp h
  simp only at h
  split at h
  · rename_i hready
    split at h
    · rename_i m₁ hended
      obtain ⟨r, hswitch, heq⟩ := Option.map_eq_some_iff.mp h
      cases heq
      refine ⟨rfl, rfl, publishedBoot_publishes hmem, hready.1, ?_, Coop.ret_of_ended hended,
        hswitch⟩
      unfold hasFiber
      rw [bind_of (gets_apply ..), Routine.ite_apply, if_pos hready.2.1,
        bind_of (getFibers_apply _), hready.2.2]
      rfl
    · cases h
  · cases h

/-- The main thread, a thread that it creates, and the way back to the main thread. -/
def twoSwitches : Option (HostStacks × HostStacks × HostStacks × HostStacks) :=
  (publishedBoot 0x80300000#32).bind fun mem =>
    let sys₀ := firstStack mem
    (createFiber 0x80400000#32 0x80001000#32 0#32 0x80500000#32 1 sys₀.machine).ended.bind
      fun made =>
        let sys₁ : HostStacks := { sys₀ with machine := made.2 }
        (sys₁.select 0x80300000#32 0x80400000#32 1).bind fun there =>
          (there.2.2.2.select 0x80400000#32 0x80300000#32 1).bind fun back =>
            if made.1 = true then some (sys₀, sys₁, there.2.2.2, back.2.2.2) else none

/-- The run up to the switch back. -/
theorem twoSwitches_run : ∃ co sys sys' m m' e p, FiberRun co sys ∧
    sys.Selects co.running 0x80300000#32 1 m m' e sys' ∧
    (co.handTo 0x80300000#32 (sys.leaves m' 1)).parked 0x80300000#32 = some p := by
  have hrun : twoSwitches.isSome = true := by decide +kernel
  obtain ⟨_, hrun⟩ := Option.isSome_iff_exists.mp hrun
  obtain ⟨mem, hmem, hrun⟩ := Option.bind_eq_some_iff.mp hrun
  obtain ⟨⟨b, s⟩, hmade, hrun⟩ := Option.bind_eq_some_iff.mp hrun
  obtain ⟨⟨m₁, m₁', e₁, sys₁⟩, hthere, hrun⟩ := Option.bind_eq_some_iff.mp hrun
  obtain ⟨⟨m₂, m₂', e₂, sys₂⟩, hback, hrun⟩ := Option.bind_eq_some_iff.mp hrun
  split at hrun
  · rename_i hb
    simp only at hb
    subst hb
    have hstart : FiberRun ⟨0x80300000#32, fun _ => none⟩ (firstStack mem) :=
      .start (firstStack_fresh mem) (by decide) (publishedBoot_publishes hmem)
    have hcreated := hstart.create (by decide) (Coop.ret_of_ended hmade)
    exact ⟨_, sys₁, sys₂, m₂, m₂', e₂, _, hcreated.select (HostStacks.selects hthere),
      HostStacks.selects hback, rfl⟩
  · cases hrun

/-- The main thread gets its registers back from the thread that it has created. -/
theorem the_main_thread_gets_its_registers_back : ∃ co sys sys' m m' e p,
    FiberRun co sys ∧ sys.Selects co.running 0x80300000#32 1 m m' e sys' ∧
      (co.handTo 0x80300000#32 (sys.leaves m' 1)).parked 0x80300000#32 = some p ∧
      sys'.machine.cpus p.cpu = p.registers := by
  obtain ⟨co, sys, sys', m, m', e, p, hrun, hselects, hp⟩ := twoSwitches_run
  have hon := (threads_are_coroutines hrun hselects).2.2
  rw [hp] at hon
  exact ⟨co, sys, sys', m, m', e, p, hrun, hselects, hp, hon.1⟩

/-- The thread that it has created owns the registers in between. -/
theorem the_new_thread_owns_the_registers : ∃ co sys, FiberRun co sys ∧
    (sys.machine.fibers.currentGuestThread = 0#32 ∨
      sys.machine.mem.Publishes sys.machine.fibers.currentGuestThread) := by
  obtain ⟨co, sys, _, _, _, _, _, hrun, _⟩ := twoSwitches_run
  exact ⟨co, sys, hrun, (the_published_thread_owns_the_registers hrun).1⟩

end wii_switch
