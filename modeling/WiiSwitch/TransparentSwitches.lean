-- The switches are transparent to the threads. A thread leaves its stack in a call of switch_to
-- with its registers in the register file of the call. However many threads run before the call
-- returns, it returns on the same stack, in the thread that made it, with these registers.
import WiiSwitch.MixedThreads

namespace wii_switch

open OS Routine SelectThread

/-! ## Calls that have not returned -/

/-- A call of `switch_to` that has left its stack: the thread that made it, its register file,
and the registers that it passed. -/
structure Call where
  thread : Word
  cpu : CpuPtr
  registers : CpuContext

/-- The calls that have not returned, by their stacks, once `call` on the stack `current` has
ended so. -/
def SwitchEnd.calls (calls : Handle → Option Call) (current : Handle) (call : Call) :
    SwitchEnd → Handle → Option Call
  | .returned _ => calls
  | .entered host | .resumed host _ =>
    Function.update (Function.update calls current (some call)) host none

/-- The threads whose entries have started, once a call for the thread `t` has ended so. -/
def SwitchEnd.enters (t : Word) (entered : List Word) : SwitchEnd → List Word
  | .entered _ => t :: entered
  | _ => entered

/-- OSCreateThread makes the thread. -/
def FiberCall.Creates : FiberCall → Word → Prop
  | .create t .., u => t = u
  | _, _ => False

/-- The runs of threads that all have fibers, with the calls that have not returned, the threads
whose entries have started, and the thread that runs. A thread is not made again while it runs or
waits in a call; only SelectThread writes OSRunningContext. -/
inductive CooperativeRun : (Handle → Option Call) → List Word → Word → HostStacks → Prop
  | start {sys : HostStacks} {r : Word} : sys.Fresh → sys.machine.mem.Names r →
    CooperativeRun (fun _ => none) [] r sys
  | guest {calls : Handle → Option Call} {entered : List Word} {r : Word} {sys : HostStacks}
    {m : Machine Memory} (cpu : CpuPtr) : CooperativeRun calls entered r sys →
    m.fibers = sys.machine.fibers → m.hosts = sys.machine.hosts → m.mem.Names r →
    CooperativeRun calls entered r { sys with machine := m, cpu := cpu }
  | call {calls : Handle → Option Call} {entered : List Word} {r : Word} {sys : HostStacks}
    {m : Machine Memory} (c : FiberCall) : CooperativeRun calls entered r sys →
    ¬ c.Registers → ¬ c.Creates r →
    (∀ h call, calls h = some call → ¬ c.Creates call.thread) →
    c.code sys.machine = .ret () m → CooperativeRun calls entered r { sys with machine := m }
  | select {calls : Handle → Option Call} {entered : List Word} {r t : Word}
    {sys sys' : HostStacks} {c : CpuPtr} {m m' : Machine Memory} {e : SwitchEnd} :
    CooperativeRun calls entered r sys → sys.Selects r t c m m' e sys' →
    CooperativeRun (e.calls calls sys.machine.hosts.current ⟨r, c, m'.cpus c⟩)
      (e.enters t entered) t sys'

/-- They are runs of threads with and without fibers. -/
theorem CooperativeRun.mixed {calls : Handle → Option Call} {entered : List Word} {r : Word}
    {sys : HostStacks} (h : CooperativeRun calls entered r sys) :
    MixedRun HostStacks.UnclaimedFallback r sys := by
  induction h with
  | start hfresh hnamed => exact .start hfresh hnamed
  | guest cpu _ hfibers hhosts hnamed ih => exact ih.guest cpu hfibers hhosts hnamed
  | call c _ hnot _ _ hcall ih => exact ih.call c hnot hcall
  | select _ hselect ih => exact ih.select hselect

/-! ## The invariant -/

/-- The stacks and the records keep the calls: the stacks that wait are those of the calls, the
record of a caller is on the stack of its call with the registers of the call, and the record of
the running thread is on the running stack. -/
structure HostStacks.KeepsCalls (sys : HostStacks) (calls : Handle → Option Call)
    (entered : List Word) (r : Word) : Prop where
  waiting : ∀ h, (sys.waiting h).map (fun w => w.frame.cpu) = (calls h).map fun call => call.cpu
  saved : ∀ h call i, calls h = some call → sys.machine.fibers.Used i →
    (sys.machine.fibers.records i).host = h →
    (sys.machine.fibers.records i).savedCpu = call.registers
  own : ∀ h call i, calls h = some call → sys.machine.fibers.Used i →
    ((sys.machine.fibers.records i).guestThread = call.thread ↔
      (sys.machine.fibers.records i).host = h)
  running : ∀ i, sys.machine.fibers.Used i →
    ((sys.machine.fibers.records i).guestThread = r ↔
      (sys.machine.fibers.records i).host = sys.machine.hosts.current)
  away : ∀ h call, calls h = some call → call.thread ≠ r
  nodup : entered.Nodup
  started : ∀ u ∈ entered, u = r ∨ ∃ h call, calls h = some call ∧ call.thread = u

namespace HostStacks

variable {sys sys' : HostStacks} {calls : Handle → Option Call} {entered : List Word}
  {started : List Handle} {r t : Word} {i : Fin 64} {c : CpuPtr} {m m' : Machine Memory}
  {e : SwitchEnd}

/-- A call that has not returned waits on its stack. -/
theorem KeepsCalls.pending (hk : sys.KeepsCalls calls entered r) {h : Handle} {call : Call}
    (hcall : calls h = some call) : ∃ w, sys.waiting h = some w := by
  have hmap := hk.waiting h
  rw [hcall] at hmap
  obtain ⟨w, hw, _⟩ := Option.map_eq_some_iff.mp hmap
  exact ⟨w, hw⟩

/-- A stack that waits does so in a call. -/
theorem KeepsCalls.call_of_waits (hk : sys.KeepsCalls calls entered r) {h : Handle} {w : Waiting}
    (hw : sys.waiting h = some w) : ∃ call, calls h = some call ∧ call.cpu = w.frame.cpu := by
  have hmap := hk.waiting h
  rw [hw] at hmap
  exact Option.map_eq_some_iff.mp hmap.symm

/-- No call waits on a stack that does not. -/
theorem KeepsCalls.calls_idle (hk : sys.KeepsCalls calls entered r) {h : Handle}
    (hidle : sys.waiting h = none) : calls h = none := by
  cases hcall : calls h with
  | none => rfl
  | some call =>
    obtain ⟨w, hw⟩ := hk.pending hcall
    rw [hidle] at hw
    cases hw

/-- The invariant looks at the records and the running stack. -/
theorem KeepsCalls.restate (hk : sys.KeepsCalls calls entered r) (cpu : CpuPtr)
    (hcurrent : m.hosts.current = sys.machine.hosts.current)
    (hused : ∀ i, m.fibers.Used i ↔ sys.machine.fibers.Used i)
    (hsame : ∀ i, (m.fibers.records i).guestThread =
      (sys.machine.fibers.records i).guestThread ∧
        (m.fibers.records i).host = (sys.machine.fibers.records i).host)
    (hsaved : ∀ h call i, calls h = some call → sys.machine.fibers.Used i →
      (sys.machine.fibers.records i).host = h →
      (m.fibers.records i).savedCpu = (sys.machine.fibers.records i).savedCpu) :
    KeepsCalls { sys with machine := m, cpu := cpu } calls entered r := by
  have hthreads : ∀ i, (m.fibers.records i).guestThread =
      (sys.machine.fibers.records i).guestThread := fun i => (hsame i).1
  have hhosts : ∀ i, (m.fibers.records i).host = (sys.machine.fibers.records i).host :=
    fun i => (hsame i).2
  constructor
  · exact hk.waiting
  · intro h call i hcall hi hhost
    change (m.fibers.records i).host = h at hhost
    rw [hhosts] at hhost
    change (m.fibers.records i).savedCpu = _
    rw [hsaved h call i hcall ((hused i).mp hi) hhost]
    exact hk.saved h call i hcall ((hused i).mp hi) hhost
  · simpa only [hused, hthreads, hhosts] using hk.own
  · simpa only [hused, hthreads, hhosts, hcurrent] using hk.running
  · exact hk.away
  · exact hk.nodup
  · exact hk.started

/-- Guest code that leaves the table alone. -/
theorem KeepsCalls.guest (hk : sys.KeepsCalls calls entered r) (cpu : CpuPtr)
    (hfibers : m.fibers = sys.machine.fibers) (hhosts : m.hosts = sys.machine.hosts) :
    KeepsCalls { sys with machine := m, cpu := cpu } calls entered r := by
  apply hk.restate cpu
  · rw [hhosts]
  · rw [hfibers]
    exact fun _ => Iff.rfl
  · rw [hfibers]
    exact fun _ => ⟨rfl, rfl⟩
  · rw [hfibers]
    exact fun _ _ _ _ _ _ => rfl

/-- A record is cleared, or it is of a thread in no call and on a stack of no call. -/
theorem KeepsCalls.setRecord (hk : sys.KeepsCalls calls entered r) (record : GuestFiberRecord)
    (hcurrent : m.hosts.current = sys.machine.hosts.current)
    (hrecords : m.fibers.records = (sys.machine.fibers.setRecord i record).records)
    (hrecord : record.state ≠ .empty →
      (record.guestThread = r ↔ record.host = sys.machine.hosts.current) ∧
      ∀ h call, calls h = some call →
        record.guestThread ≠ call.thread ∧ record.host ≠ h) :
    KeepsCalls { sys with machine := m } calls entered r := by
  have hcase := GuestFibers.setRecord_used hrecords
  constructor
  · exact hk.waiting
  · intro h call j hcall hj hhost
    rcases hcase j hj with ⟨_, hju, hold⟩ | ⟨_, hstate, hnew⟩
    · rw [hold] at hhost ⊢
      exact hk.saved h call j hcall hju hhost
    · rw [hnew] at hhost
      exact absurd hhost ((hrecord hstate).2 h call hcall).2
  · intro h call j hcall hj
    rcases hcase j hj with ⟨_, hju, hold⟩ | ⟨_, hstate, hnew⟩
    · rw [hold]
      exact hk.own h call j hcall hju
    · rw [hnew]
      obtain ⟨hthread, hhost⟩ := (hrecord hstate).2 h call hcall
      exact iff_of_false hthread hhost
  · intro j hj
    rw [hcurrent]
    rcases hcase j hj with ⟨_, hju, hold⟩ | ⟨_, hstate, hnew⟩
    · rw [hold]
      exact hk.running j hju
    · rw [hnew]
      exact (hrecord hstate).1
  · exact hk.away
  · exact hk.nodup
  · exact hk.started

/-- `suspend` and `resume`. -/
theorem KeepsCalls.setState (hk : sys.KeepsCalls calls entered r) {state : FiberState}
    (hstate : state ≠ .empty) :
    KeepsCalls { sys with
      machine := sys.machine.withFibers (sys.machine.fibers.setState t state) }
      calls entered r := by
  obtain ⟨_, _, hsame⟩ := setState_same sys.machine.fibers t hstate
  refine hk.restate sys.cpu rfl (fun j => (hsame j).1) (fun j => ?_) fun _ _ j _ _ _ => ?_
  · obtain ⟨state', hrecord⟩ := (hsame j).2
    rw [Machine.withFibers_fibers, hrecord]
    exact ⟨rfl, rfl⟩
  · obtain ⟨state', hrecord⟩ := (hsame j).2
    rw [Machine.withFibers_fibers, hrecord]

/-- `create` for a thread that does not run and is in no call. -/
theorem KeepsCalls.creates (hk : sys.KeepsCalls calls entered r) (hs : sys.Sound started)
    {entry arg top : Word} {seed : CpuPtr} {b : Bool} (hrunning : t ≠ r)
    (hwaits : ∀ h call, calls h = some call → t ≠ call.thread)
    (hc : sys.machine.Creates t entry arg top seed b m) :
    KeepsCalls { sys with machine := m } calls entered r := by
  cases hc with
  | refused =>
    exact hk.restate sys.cpu rfl (fun _ => Iff.rfl) (fun _ => ⟨rfl, rfl⟩) fun _ _ _ _ _ _ => rfl
  | cleared i _ _ _ =>
    apply hk.setRecord (i := i) .none
    · exact HostContexts.destroy_current ..
    · rfl
    · exact fun h => absurd rfl h
  | made i hid2 _ _ _ _ =>
    apply hk.setRecord (i := i) ⟨t, sys.machine.hosts.next, entry, arg,
      seededCpu entry arg top hid2, .waiting, false⟩
    · exact HostContexts.destroy_current ..
    · rfl
    · intro _
      refine ⟨iff_of_false hrunning (Nat.ne_of_gt hs.owned.current_below.2), ?_⟩
      intro h call hcall
      obtain ⟨w, hw⟩ := hk.pending hcall
      exact ⟨hwaits h call hcall, Nat.ne_of_gt (hs.owned.waits_below hw)⟩

/-- The calls of the fiber layer keep the calls. -/
theorem KeepsCalls.call (hk : sys.KeepsCalls calls entered r) (hs : sys.Sound started)
    {code : FiberCall} (hnot : ¬ code.Registers) (hrunning : ¬ code.Creates r)
    (hwaits : ∀ h call, calls h = some call → ¬ code.Creates call.thread)
    (h : code.code sys.machine = .ret () m) :
    KeepsCalls { sys with machine := m } calls entered r := by
  cases code.gives hs.owned.next_ne h with
  | initialized =>
    exact hk.restate sys.cpu rfl (fun _ => Iff.rfl) (fun _ => ⟨rfl, rfl⟩) fun _ _ _ _ _ _ => rfl
  | created hc => exact hk.creates hs hrunning hwaits hc
  | registered _ => exact absurd trivial hnot
  | suspended t => exact hk.setState fun h => FiberState.noConfusion h
  | resumed t => exact hk.setState fun h => FiberState.noConfusion h

/-- SelectThread registers the running thread on the running stack. -/
theorem KeepsCalls.registerMain (hk : sys.KeepsCalls calls entered r) (hs : sys.Sound started)
    (h : SelectThread.registerMain c r sys.machine = .ret true m) :
    KeepsCalls { sys with machine := m } calls entered r := by
  rcases registerMain_cases h with ⟨rfl, _⟩ | ⟨_, _, hregisters⟩
  · exact hk
  cases hregisters with
  | made i record ht hslot hready hcurrent _ hruns =>
    have hhost : record.host = sys.machine.hosts.current := hruns.host_eq.trans hcurrent.symm
    apply hk.setRecord (i := i) record
    · rfl
    · rfl
    · intro _
      refine ⟨iff_of_true hruns.thread hhost, fun h call hcall => ⟨?_, ?_⟩⟩
      · rw [hruns.thread]
        exact (hk.away h call hcall).symm
      · rintro rfl
        obtain ⟨w, hw⟩ := hk.pending hcall
        rw [hhost, hs.owned.idle] at hw
        cases hw

/-- At a switch the registers of a call stay in the record of its thread, and those of the new
call go into the record of the running thread. -/
theorem KeepsCalls.stored (hk : sys.KeepsCalls calls entered r) (hu : sys.Unmixed)
    (hs : sys.Sound started) (howner : sys.OwnedBy r) (c : CpuPtr) {j : Fin 64}
    (hj : sys.machine.fibers.Used j) :
    (∀ call, calls (sys.machine.fibers.records j).host = some call →
      sys.machine.savedAtSwitch c j = call.registers) ∧
    ((sys.machine.fibers.records j).host = sys.machine.hosts.current →
      sys.machine.savedAtSwitch c j = sys.machine.cpus c) := by
  constructor
  · intro call hcall
    rw [Machine.savedAtSwitch, if_neg]
    · exact hk.saved _ call j hcall hj rfl
    · -- The record of the running thread is on the running stack, which does not wait.
      intro hfind
      obtain ⟨hne, _, hthread⟩ := GuestFibers.find_spec hfind
      have hrunning := (hk.running j hj).mp (hthread.trans (howner.resolve_left hne))
      rw [hrunning, hk.calls_idle hs.owned.idle] at hcall
      cases hcall
  · intro hhost
    have hfind : sys.machine.fibers.find sys.machine.fibers.currentGuestThread = some j :=
      hs.owned.distinct.find_iff.mpr ⟨hj, hu.running j hj hhost⟩
    rw [Machine.savedAtSwitch, if_pos hfind]

/-- The calls once the running stack waits in `call`, and the stack `host` goes on. -/
theorem calls_handOver {current host : Handle} {call : Call} {k : Handle} {call' : Call}
    (h : Function.update (Function.update calls current (some call)) host none k = some call') :
    k ≠ host ∧ ((k = current ∧ call' = call) ∨ calls k = some call') := by
  by_cases hk : k = host
  · rw [hk, Function.update_self] at h
    cases h
  rw [Function.update_of_ne hk] at h
  refine ⟨hk, ?_⟩
  by_cases hkc : k = current
  · rw [hkc, Function.update_self] at h
    cases h
    exact Or.inl ⟨hkc, rfl⟩
  · rw [Function.update_of_ne hkc] at h
    exact Or.inr h

/-- The running thread leaves its stack in a call, and the thread of the record `i` goes on. -/
theorem KeepsCalls.handOver (hk : sys.KeepsCalls calls entered r) (hu : sys.Unmixed)
    (hs : sys.Sound started) (howner : sys.OwnedBy r) {s : Machine Memory}
    {waiting : Handle → Option Waiting} {entered' : List Word} (cpu : CpuPtr)
    (hi : sys.machine.fibers.find t = some i)
    (hne : (sys.machine.fibers.records i).host ≠ sys.machine.hosts.current)
    (h : sys.Switched t c i s)
    (hwaiting : waiting = Function.update (sys.withCaller c)
      (sys.machine.fibers.records i).host none)
    (hnodup : entered'.Nodup) (hentered : ∀ u ∈ entered', u = t ∨ u ∈ entered) :
    KeepsCalls ⟨s, cpu, waiting⟩
      (Function.update (Function.update calls sys.machine.hosts.current
        (some ⟨r, c, sys.machine.cpus c⟩)) (sys.machine.fibers.records i).host none)
      entered' t := by
  obtain ⟨_, hused, hit⟩ := GuestFibers.find_spec hi
  have hrt : r ≠ t := by
    rintro rfl
    exact hne ((hk.running i hused).mp hit)
  constructor
  · intro k
    change (waiting k).map _ = _
    rw [hwaiting]
    by_cases hkh : k = (sys.machine.fibers.records i).host
    · rw [hkh, Function.update_self, Function.update_self]
      rfl
    rw [Function.update_of_ne hkh, Function.update_of_ne hkh, withCaller]
    by_cases hkc : k = sys.machine.hosts.current
    · rw [hkc, Function.update_self, Function.update_self]
      rfl
    · rw [Function.update_of_ne hkc, Function.update_of_ne hkc]
      exact hk.waiting k
  · intro k call j hcall hj hhost
    have hju := (h.used j).mp hj
    change (s.fibers.records j).host = k at hhost
    change (s.fibers.records j).savedCpu = call.registers
    rw [h.host] at hhost
    rw [h.saved]
    rcases (calls_handOver hcall).2 with ⟨hkc, rfl⟩ | hold
    · exact (hk.stored hu hs howner c hju).2 (hhost.trans hkc)
    · rw [← hhost] at hold
      exact (hk.stored hu hs howner c hju).1 call hold
  · intro k call j hcall hj
    have hju := (h.used j).mp hj
    change (s.fibers.records j).guestThread = _ ↔ (s.fibers.records j).host = k
    rw [h.thread, h.host]
    rcases (calls_handOver hcall).2 with ⟨hkc, rfl⟩ | hold
    · rw [hkc]
      exact hk.running j hju
    · exact hk.own k call j hold hju
  · intro j hj
    have hju := (h.used j).mp hj
    change (s.fibers.records j).guestThread = t ↔ (s.fibers.records j).host = s.hosts.current
    rw [h.thread, h.host, h.current]
    constructor
    · intro hthread
      rw [hs.owned.distinct.one j i hju hused (hthread.trans hit.symm)]
    · intro hhost
      rw [hu.apart j i hju hused hhost]
      exact hit
  · intro k call hcall
    obtain ⟨hkh, ⟨_, rfl⟩ | hold⟩ := calls_handOver hcall
    · exact hrt
    · intro hthread
      exact hkh ((hk.own k call i hold hused).mp (hit.trans hthread.symm)).symm
  · exact hnodup
  · -- A thread that has started runs, has just left, or waits in its call.
    intro u hmem
    rcases hentered u hmem with rfl | hold
    · exact Or.inl rfl
    rcases hk.started u hold with rfl | ⟨k, call, hcall, hthread⟩
    · refine Or.inr ⟨sys.machine.hosts.current, ⟨u, c, sys.machine.cpus c⟩, ?_, rfl⟩
      rw [Function.update_of_ne hne.symm, Function.update_self]
    · by_cases hkh : (sys.machine.fibers.records i).host = k
      · left
        rw [← hthread, ← hit]
        exact ((hk.own k call i hcall hused).mpr hkh).symm
      · refine Or.inr ⟨k, call, ?_, hthread⟩
        rw [Function.update_of_ne (Ne.symm hkh), Function.update_of_ne, hcall]
        rintro rfl
        rw [hk.calls_idle hs.owned.idle] at hcall
        cases hcall

/-- The call on the stack `host` has returned in its thread: the thread is selected and owns the
registers, and it has those that it passed, on its own stack. -/
structure Returns (sys : HostStacks) (host : Handle) (call : Call) : Prop where
  selected : sys.machine.mem.Publishes call.thread
  owner : sys.machine.fibers.currentGuestThread = call.thread
  registers : sys.machine.cpus call.cpu = call.registers
  current : sys.machine.hosts.current = host
  record : ∃ i, sys.machine.fibers.find call.thread = some i ∧
    (sys.machine.fibers.records i).host = host

/-- How a call for the thread `t` on the stack `current` ends: it returns at once, the entry of
the thread starts for the first time, or the call of another stack returns. -/
def Ends (sys : HostStacks) (calls : Handle → Option Call) (entered : List Word)
    (current : Handle) (call : Call) (t : Word) : SwitchEnd → Prop
  | .returned result => result = true ∧ t = call.thread ∧ sys.Returns current call
  | .entered host => sys.machine.hosts.argument host = t ∧ t ∉ entered
  | .resumed host w => ∃ call', calls host = some call' ∧ call'.cpu = w.frame.cpu ∧
    t = call'.thread ∧ sys.Returns host call'

/-- A switch keeps the calls, and it ends as it should. -/
theorem KeepsCalls.goes (hk : sys.KeepsCalls calls entered r) (hu : sys.Unmixed)
    (hs : sys.Sound started) (howner : sys.OwnedBy r) (hpublished : sys.machine.mem.Publishes t)
    (hi : sys.machine.Switches t c i) (h : sys.Goes t c i e sys') :
    sys'.KeepsCalls (e.calls calls sys.machine.hosts.current ⟨r, c, sys.machine.cpus c⟩)
        (e.enters t entered) t ∧
      sys'.Ends calls entered sys.machine.hosts.current ⟨r, c, sys.machine.cpus c⟩ t e := by
  obtain ⟨ht, hused, hit⟩ := GuestFibers.find_spec hi.found
  obtain ⟨_, hsw, j, hfound, hcurrent, hon⟩ := hu.goes hs hpublished hi h
  have hji : j = i := by
    rw [GuestFibers.find_congr hsw.used hsw.thread, hi.found] at hfound
    exact (Option.some_inj.mp hfound).symm
  subst hji
  have hpublished' : sys'.machine.mem.Publishes t := by
    rw [hsw.mem]
    exact hpublished
  cases h with
  | here hhost =>
    have hrt : t = r := hit.symm.trans ((hk.running j hused).mpr hhost)
    subst hrt
    refine ⟨?_, rfl, rfl, hpublished', hsw.owner, ?_, rfl, j, hfound, ?_⟩
    · refine hk.restate sys.cpu rfl hsw.used (fun l => ⟨hsw.thread l, hsw.host l⟩) ?_
      intro h call l hcall hl hlhost
      subst hlhost
      rw [hsw.saved, (hk.stored hu hs howner c hl).1 call hcall]
      exact (hk.saved _ call l hcall hl rfl).symm
    · change (sys.machine.loaded t c j).cpus c = sys.machine.cpus c
      rw [hon, hsw.saved]
      exact (hk.stored hu hs howner c hused).2 hhost
    · exact hcurrent.symm
  | enter host l r1 r2 r13 lr hhost hne hidle hfind =>
    subst hhost
    have hnew : t ∉ entered := by
      intro hmem
      rcases hk.started t hmem with rfl | ⟨k, call, hcall, hthread⟩
      · exact hne ((hk.running j hused).mp hit)
      · have hhost := (hk.own k call j hcall hused).mp (hit.trans hthread.symm)
        rw [← hhost, hk.calls_idle hidle] at hcall
        cases hcall
    have hwaiting : sys.withCaller c = Function.update (sys.withCaller c)
        (sys.machine.fibers.records j).host none := by
      rw [eq_comm, Function.update_eq_self_iff, withCaller, Function.update_of_ne hne, hidle]
    refine ⟨?_, hon.1, hnew⟩
    apply hk.handOver hu hs howner c hi.found hne hsw hwaiting
    · exact List.nodup_cons.mpr ⟨hnew, hk.nodup⟩
    · exact fun u hmem => List.mem_cons.mp hmem
  | resume host w hhost hne hwaits =>
    subst hhost
    obtain ⟨call, hcall, hcpu⟩ := hk.call_of_waits hwaits
    have hthread : t = call.thread := by
      rw [← hit]
      exact (hk.own _ call j hcall hused).mpr rfl
    refine ⟨?_, call, hcall, hcpu, hthread, ?_⟩
    · exact hk.handOver hu hs howner w.cpu hi.found hne hsw rfl hk.nodup fun u hmem => Or.inr hmem
    · subst hthread
      refine ⟨hpublished', hsw.owner, ?_, hsw.current, j, hfound, hsw.host j⟩
      rw [hcpu, hon.2, hsw.saved]
      exact (hk.stored hu hs howner c hused).1 call hcall

/-- What SelectThread does when all threads have fibers. -/
theorem KeepsCalls.select (hk : sys.KeepsCalls calls entered r) (hu : sys.Unmixed)
    (hrun : StackRun started sys) (howner : sys.OwnedBy r)
    (h : sys.Selects r t c m m' e sys') :
    sys'.KeepsCalls (e.calls calls sys.machine.hosts.current ⟨r, c, m'.cpus c⟩)
        (e.enters t entered) t ∧
      sys'.Ends calls entered sys.machine.hosts.current ⟨r, c, m'.cpus c⟩ t e := by
  have hset := hrun.set h.fibers h.hosts
  obtain ⟨i, hi, hgoes, hu', howner', hpublished⟩ := hu.registered hrun howner h
  have hk' := (hk.guest sys.cpu h.fibers h.hosts).registerMain hset.sound h.registered
  have hhosts : m'.hosts = sys.machine.hosts :=
    (registerMain_mem h.registered).2.2.trans h.hosts
  have hends := hk'.goes hu' (hset.registerMain h.registered).sound howner' hpublished hi hgoes
  rw [← hhosts]
  exact hends

end HostStacks

/-! ## The law -/

section

variable {calls : Handle → Option Call} {entered : List Word} {r : Word} {sys : HostStacks}

/-- What holds after each step of a run of threads that all have fibers. -/
theorem CooperativeRun.keepsCalls (h : CooperativeRun calls entered r sys) :
    sys.KeepsCalls calls entered r := by
  induction h with
  | @start sys r hfresh _ =>
    have hnone := hfresh.unused
    constructor
    · intro h
      rw [hfresh.idle]
      rfl
    · exact fun h call i hcall => nomatch hcall
    · exact fun h call i hcall => nomatch hcall
    · exact fun i hi => absurd hi (hnone i)
    · exact fun h call hcall => nomatch hcall
    · exact List.nodup_nil
    · exact fun u hmem => absurd hmem List.not_mem_nil
  | guest cpu _ hfibers hhosts _ ih => exact ih.guest cpu hfibers hhosts
  | call c hrun hnot hrunning hwaits hcall ih =>
    obtain ⟨started, hstack⟩ := hrun.mixed.stackRun
    exact ih.call hstack.sound hnot hrunning hwaits hcall
  | select hrun hselect ih =>
    obtain ⟨started, hstack⟩ := hrun.mixed.stackRun
    obtain ⟨hu, howner, _⟩ := hrun.mixed.unmixed
    exact (ih.select hu hstack howner hselect).1

/-- In every run of threads that all have fibers, a call of `switch_to` returns only in the
thread that made it, when that thread is selected: it owns the registers, it has those that it
passed to the call, and it runs on its own stack. No entry starts twice. -/
theorem switches_are_transparent (hrun : CooperativeRun calls entered r sys) :
    entered.Nodup ∧
    ∀ (t : Word) (c : CpuPtr) (m m' : Machine Memory) (e : SwitchEnd) (sys' : HostStacks),
      sys.Selects r t c m m' e sys' →
      sys'.Ends calls entered sys.machine.hosts.current ⟨r, c, m'.cpus c⟩ t e := by
  have hk := hrun.keepsCalls
  obtain ⟨started, hstack⟩ := hrun.mixed.stackRun
  obtain ⟨hu, howner, _⟩ := hrun.mixed.unmixed
  exact ⟨hk.nodup, fun t c m m' e sys' h => (hk.select hu hstack howner h).2⟩

end

/-- The switch went to a stack that waited. -/
def SwitchEnd.resumes : SwitchEnd → Bool
  | .resumed .. => true
  | _ => false

/-- The main thread goes to a thread that it has created, and this one goes back. -/
def thereAndBack : Option (HostStacks × SwitchEnd × HostStacks) :=
  (publishedBoot 0x80300000#32).bind fun mem =>
    ((firstStack mem).fiberCall
      (.create 0x80400000#32 0x80001000#32 0#32 0x80500000#32 1)).bind fun sys₁ =>
        (sys₁.select 0x80300000#32 0x80400000#32 1).bind fun there =>
          (there.2.2.2.select 0x80400000#32 0x80300000#32 1).map fun back =>
            (there.2.2.2, back.2.2)

/-- The call of the main thread returns to it. -/
theorem the_call_of_the_main_thread_returns : ∃ calls entered r sys t c m m' e sys' host call,
    CooperativeRun calls entered r sys ∧ sys.Selects r t c m m' e sys' ∧
      calls host = some call ∧ sys'.Returns host call := by
  have hresumes : (thereAndBack.map fun x => x.2.1.resumes) = some true := by decide +kernel
  obtain ⟨⟨sys, e, sys'⟩, hrun, hresumes⟩ := Option.map_eq_some_iff.mp hresumes
  obtain ⟨mem, hmem, hrun⟩ := Option.bind_eq_some_iff.mp hrun
  obtain ⟨sys₁, hmade, hrun⟩ := Option.bind_eq_some_iff.mp hrun
  obtain ⟨⟨m₁, m₁', e₁, sys₂⟩, hthere, hrun⟩ := Option.bind_eq_some_iff.mp hrun
  obtain ⟨⟨m, m', back⟩, hback, heq⟩ := Option.map_eq_some_iff.mp hrun
  cases heq
  obtain ⟨⟨_, made⟩, hended, rfl⟩ := Option.map_eq_some_iff.mp hmade
  have hstart : CooperativeRun (fun _ => none) [] 0x80300000#32 (firstStack mem) :=
    .start (firstStack_fresh mem) (publishedBoot_publishes hmem).1
  have hother : ¬ 0x80400000#32 = 0x80300000#32 := by decide
  have hcreated := hstart.call (.create 0x80400000#32 0x80001000#32 0#32 0x80500000#32 1)
    (fun h => h) hother (fun _ _ hcall => nomatch hcall) (Coop.ret_of_ended hended)
  have hselects := HostStacks.selects hback
  have hcalls := hcreated.select (HostStacks.selects hthere)
  have hends := (switches_are_transparent hcalls).2 _ _ _ _ _ _ hselects
  cases e with
  | returned => cases hresumes
  | entered => cases hresumes
  | resumed host w =>
    obtain ⟨call, hcall, _, _, hreturns⟩ := hends
    exact ⟨_, _, _, _, _, _, _, _, _, _, host, call, hcalls, hselects, hcall, hreturns⟩

end wii_switch
