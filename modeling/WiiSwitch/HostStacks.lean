-- The host stacks of the guest threads. A call of switch_to leaves its stack to wait,
-- with the rest of the call on it; the stack of the target goes on with its own call, or
-- enters its thread for the first time. Here are the equations of the switch, and the
-- system of all stacks.
import WiiSwitch.GuestFiber

namespace wii_switch

open OS Routine

/-! ## Equations of the switch -/

/-- What a call of `switch_to` with the register file `c` keeps. -/
def Machine.switchFrame (s : Machine Memory) (c : CpuPtr) : SwitchFrame :=
  ⟨s.fibers.currentGuestThread, s.fibers.find s.fibers.currentGuestThread, s.cpus c, c⟩

/-- `saved_cpu` of the record `i` once the caller has saved its registers. -/
def Machine.savedAtSwitch (s : Machine Memory) (c : CpuPtr) (i : Fin 64) : CpuContext :=
  if s.fibers.find s.fibers.currentGuestThread = some i then s.cpus c
  else (s.fibers.records i).savedCpu

/-- The record `j` once the caller has saved its registers. -/
def Machine.recordAtSwitch (s : Machine Memory) (c : CpuPtr) (j : Fin 64) : GuestFiberRecord :=
  { s.fibers.records j with savedCpu := s.savedAtSwitch c j }

/-- The machine as `switch_to` hands it to the thread with the record `i`. -/
def Machine.loaded (s : Machine Memory) (guestThread : Word) (c : CpuPtr) (i : Fin 64) :
    Machine Memory :=
  (s.onCpu c fun _ => s.savedAtSwitch c i).withFibers
    { s.fibers with
      records := Function.update (s.recordAtSwitch c) i
        { s.recordAtSwitch c i with state := .running }
      currentGuestThread := guestThread
      activeCpu := c }

/-- The scheduler's words say that the thread of the frame is selected. -/
def OS.SwitchFrame.Selected (frame : SwitchFrame) (m : Memory) : Prop :=
  frame.previousThread ≠ 0#32 ∧ m.read32 kOSRunningContextAddr = some frame.previousThread ∧
    m.read32 kOSCurrentContextAddr = some frame.previousThread

instance (frame : SwitchFrame) (m : Memory) : Decidable (frame.Selected m) :=
  inferInstanceAs (Decidable (_ ∧ _))

/-- The record whose registers the call gives back, if it does not give its snapshot. -/
def OS.SwitchFrame.reclaims (frame : SwitchFrame) (m : Memory) : Option (Fin 64) :=
  if frame.Selected m then frame.previous else none

/-- The machine that the call goes on with after the switch back. -/
def OS.SwitchFrame.leave (frame : SwitchFrame) (s : Machine Memory) : Machine Memory :=
  match frame.reclaims s.mem with
  | none =>
    (s.onCpu frame.cpu fun _ => frame.callerContext).withFibers
      { s.fibers with currentGuestThread := 0#32, activeCpu := frame.cpu }
  | some i =>
    (s.onCpu frame.cpu fun _ => (s.fibers.records i).savedCpu).withFibers
      { s.fibers.setRecord i { s.fibers.records i with state := .running } with
        currentGuestThread := frame.previousThread
        activeCpu := frame.cpu }

/-- The rest of a call of `switch_to` on the stack `source`. -/
def OS.SwitchFrame.rest (frame : SwitchFrame) (source : Handle) : OS Bool := do
  Routine.modify fun s => s.onHost source
  switchToLeave frame
  return true

@[simp] theorem onCpu_cpus (s : Machine Memory) (c : CpuPtr) (f : CpuContext → CpuContext) :
    (s.onCpu c f).cpus = Function.update s.cpus c (f (s.cpus c)) := rfl

@[simp] theorem onHost_cpus (s : Machine Memory) (h : Handle) : (s.onHost h).cpus = s.cpus := rfl

@[simp] theorem onHost_fibers (s : Machine Memory) (h : Handle) :
    (s.onHost h).fibers = s.fibers := rfl

@[simp] theorem onHost_mem (s : Machine Memory) (h : Handle) : (s.onHost h).mem = s.mem := rfl

@[simp] theorem loaded_cpus (s : Machine Memory) (t : Word) (c : CpuPtr) (i : Fin 64) :
    (s.loaded t c i).cpus = Function.update s.cpus c (s.savedAtSwitch c i) := rfl

@[simp] theorem loaded_mem (s : Machine Memory) (t : Word) (c : CpuPtr) (i : Fin 64) :
    (s.loaded t c i).mem = s.mem := rfl

/-- The registers in the table after a switch; only the state of the target changes else. -/
@[simp] theorem loaded_savedCpu (s : Machine Memory) (t : Word) (c : CpuPtr) (i j : Fin 64) :
    ((s.loaded t c i).fibers.records j).savedCpu = s.savedAtSwitch c j := by
  simp only [Machine.loaded, Machine.withFibers, Function.update_apply]
  split
  · rename_i h
    rw [h]
    rfl
  · rfl

/-- The register files after the end of a call that was switched away. -/
theorem leave_cpus (frame : SwitchFrame) (s : Machine Memory) :
    (frame.leave s).cpus = Function.update s.cpus frame.cpu
      (match frame.reclaims s.mem with
        | none => frame.callerContext
        | some i => (s.fibers.records i).savedCpu) := by
  unfold SwitchFrame.leave
  split <;> rfl

theorem saveCaller_apply (s : Machine Memory) (c : CpuPtr) :
    saveCaller (s.switchFrame c) s =
      .ret () (s.withFibers { s.fibers with records := s.recordAtSwitch c }) := by
  unfold saveCaller Machine.switchFrame
  cases h : s.fibers.find s.fibers.currentGuestThread with
  | none =>
    have hsame : s.recordAtSwitch c = s.fibers.records := by
      funext j
      simp [Machine.recordAtSwitch, Machine.savedAtSwitch, h]
    rw [hsame]
    rfl
  | some i =>
    have hsame : s.recordAtSwitch c =
        Function.update s.fibers.records i { s.fibers.records i with savedCpu := s.cpus c } := by
      funext j
      by_cases hj : j = i
      · subst hj
        simp [Machine.recordAtSwitch, Machine.savedAtSwitch, h]
      · simp [Machine.recordAtSwitch, Machine.savedAtSwitch, h, hj, Ne.symm hj]
    rw [hsame]
    rfl

theorem read32_stop {s : Machine Memory} {a : Word} (h : s.mem.read32 a = none) :
    read32 a s = .stop (.memoryFault a) s := by
  unfold read32
  rw [h]

theorem getFibers_apply (s : Machine Memory) : getFibers s = .ret s.fibers s := rfl

/-- A call of `switch_to` that goes to a fiber. -/
structure Machine.Switches (s : Machine Memory) (guestThread : Word) (c : CpuPtr) (i : Fin 64) :
    Prop where
  found : s.fibers.find guestThread = some i
  available : s.fibersAvailable = true
  host_ne : (s.fibers.records i).host ≠ 0
  cpu_ne : c ≠ 0

theorem Machine.Switches.current_ne {s : Machine Memory} {t : Word} {c : CpuPtr} {i : Fin 64}
    (h : s.Switches t c i) : s.hosts.current ≠ 0 := by
  have := h.available
  simp only [Machine.fibersAvailable, decide_eq_true_eq] at this
  exact this.2

/-- Whether a call of `switch_to` goes to a fiber. -/
theorem switches_or_not (s : Machine Memory) (t : Word) (c : CpuPtr) :
    (∃ i, s.Switches t c i) ∨ switchTo t c s = .ret false s := by
  unfold switchTo
  rw [bind_of (getFibers_apply s)]
  cases hfind : s.fibers.find t with
  | none => exact Or.inr rfl
  | some i =>
    simp only [bind_apply, gets_apply, Coop.bind_ret, Routine.ite_apply]
    by_cases havailable : s.fibersAvailable = true
    · rw [if_pos havailable]
      by_cases hnull : (s.fibers.records i).host = 0 ∨ c = 0
      · rw [if_pos hnull]
        exact Or.inr rfl
      · rw [not_or] at hnull
        exact Or.inl ⟨i, hfind, havailable, hnull.1, hnull.2⟩
    · rw [if_neg havailable]
      exact Or.inr rfl

/-- The two ways of a call that goes to a fiber. -/
theorem switchTo_apply {s : Machine Memory} {t : Word} {c : CpuPtr} {i : Fin 64}
    (h : s.Switches t c i) : switchTo t c s =
      if (s.fibers.records i).host = s.hosts.current then .ret true (s.loaded t c i)
      else .call (.host (s.fibers.records i).host)
        ((s.loaded t c i).onHost (s.fibers.records i).host)
        ((s.switchFrame c).rest s.hosts.current) := by
  have hload : loadTarget t i c (s.withFibers { s.fibers with records := s.recordAtSwitch c }) =
      .ret () (s.loaded t c i) := rfl
  unfold switchTo
  rw [bind_of (getFibers_apply s)]
  simp only [h.found]
  rw [bind_of (gets_apply ..), Routine.ite_apply, if_pos h.available, Routine.ite_apply,
    if_neg (not_or.mpr ⟨h.host_ne, h.cpu_ne⟩), bind_of (gets_apply ..)]
  have hcurrent : (s.loaded t c i).hosts.current = s.hosts.current := rfl
  change (do
    saveCaller (s.switchFrame c)
    loadTarget t i c
    if (s.fibers.records i).host = (← Routine.gets fun s => s.hosts.current) then return true
    hostSwitch (s.fibers.records i).host
    switchToLeave (s.switchFrame c)
    return true : OS Bool) s = _
  rw [bind_of (saveCaller_apply s c), bind_of hload, bind_of (gets_apply ..), Routine.ite_apply,
    hcurrent]
  by_cases hhost : (s.fibers.records i).host = s.hosts.current
  · rw [if_pos hhost, if_pos hhost]
    rfl
  · rw [if_neg hhost, if_neg hhost]
    have hmoves : ¬((s.fibers.records i).host = 0 ∨ s.hosts.current = 0 ∨
        (s.fibers.records i).host = s.hosts.current) :=
      not_or.mpr ⟨h.host_ne, not_or.mpr ⟨h.current_ne, hhost⟩⟩
    rw [bind_apply]
    unfold hostSwitch
    rw [bind_of (gets_apply ..), Routine.ite_apply, hcurrent, if_neg hmoves]
    rfl

/-- The end of a call that was switched away, where the scheduler's words are mapped. -/
theorem rest_apply {frame : SwitchFrame} {source : Handle} {s : Machine Memory} {r u : Word}
    (hr : s.mem.read32 kOSRunningContextAddr = some r)
    (hu : s.mem.read32 kOSCurrentContextAddr = some u) :
    frame.rest source s = .ret true (frame.leave (s.onHost source)) := by
  unfold SwitchFrame.rest SwitchFrame.leave SwitchFrame.reclaims switchToLeave
  rw [bind_of (modify_apply ..), bind_apply, bind_of (read32_ret (s := s.onHost source) hr),
    bind_of (read32_ret (s := s.onHost source) hu)]
  have hsel : frame.Selected (s.onHost source).mem ↔
      frame.previousThread ≠ 0#32 ∧ r = frame.previousThread ∧ u = frame.previousThread := by
    change _ ∧ s.mem.read32 _ = _ ∧ s.mem.read32 _ = _ ↔ _
    rw [hr, hu, Option.some_inj, Option.some_inj]
  cases hp : frame.previous with
  | none =>
    have hnone : (if frame.Selected (s.onHost source).mem then (none : Option (Fin 64)) else none) =
      none := ite_self _
    rw [hnone]
    rfl
  | some i =>
    simp only
    by_cases hs : frame.Selected (s.onHost source).mem
    · rw [if_pos (hsel.mp hs), if_pos hs]
      rfl
    · rw [if_neg (fun h => hs (hsel.mpr h)), if_neg hs]
      rfl

/-- A call that was switched away returns only with the scheduler's words mapped. -/
theorem rest_ret {frame : SwitchFrame} {source : Handle} {s s' : Machine Memory} {b : Bool}
    (h : frame.rest source s = .ret b s') :
    b = true ∧ s' = frame.leave (s.onHost source) := by
  rcases hr : s.mem.read32 kOSRunningContextAddr with _ | r
  · unfold SwitchFrame.rest switchToLeave at h
    rw [bind_of (modify_apply ..), bind_apply, bind_apply,
      read32_stop (s := s.onHost source) hr] at h
    cases h
  rcases hu : s.mem.read32 kOSCurrentContextAddr with _ | u
  · unfold SwitchFrame.rest switchToLeave at h
    rw [bind_of (modify_apply ..), bind_apply, bind_of (read32_ret (s := s.onHost source) hr),
      bind_apply, read32_stop (s := s.onHost source) hu] at h
    cases h
  rw [rest_apply hr hu] at h
  cases h
  exact ⟨rfl, rfl⟩

/-! ## The first entry of a fiber -/

/-- The registers that GuestFiberEntry takes from the OSContext, and those it gets from the
record. -/
def GuestFiberRecord.enter (record : GuestFiberRecord) (r1 r2 r13 lr : Word) (c : CpuContext) :
    CpuContext :=
  { (((c.setGpr 1 r1).setGpr 2 r2).setGpr 13 r13).setGpr 3 record.entryArg with
    lr := lr
    pc := record.entryPoint
    srr0 := record.entryPoint }

theorem onCpu_onCpu (s : Machine Memory) (c : CpuPtr) (f g : CpuContext → CpuContext) :
    (s.onCpu c f).onCpu c g = s.onCpu c fun x => g (f x) := by
  unfold Machine.onCpu
  simp only [Function.update_self, Function.update_idem]

/-- A routine that reads first, and then gives the machine away, could read. -/
theorem read32_bind_call {α : Type} {s m : Machine Memory} {a : Word}
    {f : Word → Machine Memory → Coop (Machine Memory) Stop Away α} {away : Away}
    {k : Machine Memory → Coop (Machine Memory) Stop Away α}
    (h : (read32 a s).bind f = .call away m k) :
    ∃ x, s.mem.read32 a = some x ∧ f x s = .call away m k := by
  cases hread : s.mem.read32 a with
  | none =>
    rw [read32_stop hread] at h
    cases h
  | some x =>
    rw [read32_ret hread] at h
    exact ⟨x, rfl, h⟩

/-- Guest code that is dispatched gets the machine as it stands. -/
theorem invokeIndirectCpu_call {α : Type} {s m : Machine Memory} {target : Word} {cpu : CpuPtr}
    {f : Unit → Machine Memory → Coop (Machine Memory) Stop Away α} {away : Away}
    {k : Machine Memory → Coop (Machine Memory) Stop Away α}
    (h : (invokeIndirectCpu target cpu s).bind f = .call away m k) :
    away = .guest target cpu ∧ m = s := by
  unfold invokeIndirectCpu tryDispatchIndirect at h
  simp only [bind_apply, Routine.ite_apply] at h
  by_cases hcpu : cpu = 0
  · rw [if_pos hcpu] at h
    cases h
  rw [if_neg hcpu, gets_apply, Coop.bind_ret] at h
  cases hd : s.dispatch target with
  | none =>
    rw [hd] at h
    cases h
  | some record =>
    rw [hd] at h
    cases h
    exact ⟨rfl, rfl⟩

/-- What GuestFiberEntry does before it runs guest code. -/
theorem guestFiberEntry_call {s m : Machine Memory} {t : Word} {away : Away}
    {k : Machine Memory → Coop (Machine Memory) Stop Away Unit}
    (h : guestFiberEntry t s = .call away m k) :
    ∃ i r1 r2 r13 lr, s.fibers.find t = some i ∧
      s.mem.read32 (t + kContextR1Offset) = some r1 ∧
      s.mem.read32 (t + kContextR2Offset) = some r2 ∧
      s.mem.read32 (t + kContextR13Offset) = some r13 ∧
      s.mem.read32 (t + kContextLrOffset) = some lr ∧
      away = .guest (s.fibers.records i).entryPoint (cpuOf s.fibers.activeCpu) ∧
      m = s.onCpu (cpuOf s.fibers.activeCpu) ((s.fibers.records i).enter r1 r2 r13 lr) := by
  unfold guestFiberEntry at h
  rw [bind_of (getFibers_apply s)] at h
  cases hfind : s.fibers.find t with
  | none =>
    rw [hfind] at h
    cases h
  | some i =>
    rw [hfind] at h
    simp only [bind_apply, setGpr_apply, onCpu_apply, Coop.bind_ret] at h
    obtain ⟨r1, hr1, h⟩ := read32_bind_call h
    obtain ⟨r2, hr2, h⟩ := read32_bind_call h
    obtain ⟨r13, hr13, h⟩ := read32_bind_call h
    obtain ⟨lr, hlr, h⟩ := read32_bind_call h
    refine ⟨i, r1, r2, r13, lr, rfl, hr1, hr2, hr13, hlr, ?_⟩
    unfold Machine.setGpr at h
    simp only [onCpu_onCpu] at h
    exact invokeIndirectCpu_call h

/-! ## The system of host stacks -/

/-- A host stack that waits in a call of `switch_to`: the register file of its guest code,
what the call keeps, and the rest of the call. -/
structure Waiting where
  cpu : CpuPtr
  frame : SwitchFrame
  rest : Machine Memory → Coop (Machine Memory) Stop Away Bool

/-- Guest code that runs with a register file, and the stacks that wait. -/
structure HostStacks where
  machine : Machine Memory
  cpu : CpuPtr
  waiting : Handle → Option Waiting

/-- Where guest code runs after a call of `switch_to`: behind the call itself, in a thread
that starts, or behind the call of a stack that waited. -/
inductive SwitchEnd where
  | returned (result : Bool)
  | entered (host : Handle)
  | resumed (host : Handle) (w : Waiting)

namespace HostStacks

/-- The stack `host` gets the machine; the calling stack waits as `w`. -/
def handOver (sys : HostStacks) (host : Handle) (m : Machine Memory) (w : Waiting) :
    Option (SwitchEnd × HostStacks) :=
  let waiting := Function.update sys.waiting sys.machine.hosts.current (some w)
  match sys.waiting host with
  | some w' =>
    match w'.rest m with
    | .ret _ m' => some (.resumed host w', ⟨m', w'.cpu, Function.update waiting host none⟩)
    | _ => none
  | none =>
    match guestFiberEntry (m.hosts.argument host) m with
    | .call (.guest _ cpu) m' _ => some (.entered host, ⟨m', cpu, waiting⟩)
    | _ => none

/-- The running guest code calls `switch_to`; `none` when the process stops. -/
def switchTo (sys : HostStacks) (guestThread : Word) (c : CpuPtr) :
    Option (SwitchEnd × HostStacks) :=
  match OS.switchTo guestThread c sys.machine with
  | .ret result m => some (.returned result, { sys with machine := m })
  | .call (.host host) m k =>
    sys.handOver host m ⟨sys.cpu, sys.machine.switchFrame c, k⟩
  | _ => none

/-- Each stack that waits is in the rest of the call that its frame describes. -/
def Kept (sys : HostStacks) : Prop :=
  ∀ h w, sys.waiting h = some w → w.rest = w.frame.rest h

/-- The caller of `switch_to`, as it waits. -/
def caller (sys : HostStacks) (c : CpuPtr) : Waiting :=
  ⟨sys.cpu, sys.machine.switchFrame c,
    (sys.machine.switchFrame c).rest sys.machine.hosts.current⟩

/-- The stacks that wait once the running one waits too. -/
def withCaller (sys : HostStacks) (c : CpuPtr) : Handle → Option Waiting :=
  Function.update sys.waiting sys.machine.hosts.current (some (sys.caller c))

/-- The three ways of a call that goes to a fiber: the fiber of this stack, a thread that
starts, and a stack that waits. -/
inductive Goes (sys : HostStacks) (t : Word) (c : CpuPtr) (i : Fin 64) :
    SwitchEnd → HostStacks → Prop
  | here : (sys.machine.fibers.records i).host = sys.machine.hosts.current →
    Goes sys t c i (.returned true) { sys with machine := sys.machine.loaded t c i }
  | enter (host : Handle) (j : Fin 64) (r1 r2 r13 lr : Word) :
    (sys.machine.fibers.records i).host = host → host ≠ sys.machine.hosts.current →
    sys.waiting host = none →
    (sys.machine.loaded t c i).fibers.find (sys.machine.hosts.argument host) = some j →
    sys.machine.mem.read32 (sys.machine.hosts.argument host + kContextR1Offset) = some r1 →
    sys.machine.mem.read32 (sys.machine.hosts.argument host + kContextR2Offset) = some r2 →
    sys.machine.mem.read32 (sys.machine.hosts.argument host + kContextR13Offset) = some r13 →
    sys.machine.mem.read32 (sys.machine.hosts.argument host + kContextLrOffset) = some lr →
    Goes sys t c i (.entered host)
      ⟨((sys.machine.loaded t c i).onHost host).onCpu c
        (((sys.machine.loaded t c i).fibers.records j).enter r1 r2 r13 lr), c, sys.withCaller c⟩
  | resume (host : Handle) (w : Waiting) :
    (sys.machine.fibers.records i).host = host → host ≠ sys.machine.hosts.current →
    sys.waiting host = some w →
    Goes sys t c i (.resumed host w)
      ⟨w.frame.leave ((sys.machine.loaded t c i).onHost host), w.cpu,
        Function.update (sys.withCaller c) host none⟩

/-- Where guest code runs after a call of `switch_to`. -/
theorem switchTo_cases {sys sys' : HostStacks} {t : Word} {c : CpuPtr} {e : SwitchEnd}
    (hkept : sys.Kept) (h : sys.switchTo t c = some (e, sys')) :
    (e = .returned false ∧ sys' = sys) ∨
      ∃ i, sys.machine.Switches t c i ∧ sys.Goes t c i e sys' := by
  unfold switchTo at h
  rcases switches_or_not sys.machine t c with ⟨i, hi⟩ | hnot
  · refine Or.inr ⟨i, hi, ?_⟩
    rw [switchTo_apply hi] at h
    by_cases hhost : (sys.machine.fibers.records i).host = sys.machine.hosts.current
    · rw [if_pos hhost] at h
      cases h
      exact .here hhost
    rw [if_neg hhost] at h
    simp only [handOver] at h
    cases hw : sys.waiting (sys.machine.fibers.records i).host with
    | some w =>
      simp only [hw, hkept _ w hw] at h
      split at h
      · rename_i b m' hret
        cases h
        obtain ⟨_, rfl⟩ := rest_ret hret
        exact .resume _ w rfl hhost hw
      · cases h
    | none =>
      simp only [hw] at h
      split at h
      · rename_i target cpu m' k hcall
        cases h
        obtain ⟨j, r1, r2, r13, lr, hfind, hr1, hr2, hr13, hlr, haway, rfl⟩ :=
          guestFiberEntry_call hcall
        have hcpu : cpuOf c = c := if_pos hi.cpu_ne
        have hactive : ((sys.machine.loaded t c i).onHost
            (sys.machine.fibers.records i).host).fibers.activeCpu = c := rfl
        rw [hactive, hcpu] at haway ⊢
        cases haway
        exact .enter _ j r1 r2 r13 lr rfl hhost hw hfind hr1 hr2 hr13 hlr
      · cases h
  · rw [hnot] at h
    cases h
    exact Or.inl ⟨rfl, rfl⟩

theorem Goes.kept {sys sys' : HostStacks} {t : Word} {c : CpuPtr} {i : Fin 64} {e : SwitchEnd}
    (h : sys.Goes t c i e sys') (hkept : sys.Kept) : sys'.Kept := by
  have hcaller : ∀ h' w, sys.withCaller c h' = some w → w.rest = w.frame.rest h' := by
    intro h' w hw
    by_cases hh : h' = sys.machine.hosts.current
    · subst hh
      rw [withCaller, Function.update_self] at hw
      cases hw
      rfl
    · rw [withCaller, Function.update_of_ne hh] at hw
      exact hkept h' w hw
  cases h with
  | here => exact hkept
  | enter => exact hcaller
  | resume host w =>
    intro h' w' hw'
    change Function.update (sys.withCaller c) host none h' = some w' at hw'
    by_cases hh : h' = host
    · subst hh
      rw [Function.update_self] at hw'
      cases hw'
    · rw [Function.update_of_ne hh] at hw'
      exact hcaller h' w' hw'

end HostStacks

end wii_switch
