-- The floating-point mode of the host (source/ppc_indirect_link_helpers_bridge.cpp,
-- ppc_fpu_helpers_bridge.cpp). Mtfsf and mtfsb1 set it from FPSCR[NI] of the register file that
-- TryGetCpuContext gives; switch_to and the first entry of a fiber change the live FPSCR and
-- leave the mode as it is.
import WiiSwitch.Fpscr
import WiiSwitch.HostStacks
import WiiSwitch.InterruptReturn

namespace wii_switch

open OS Routine

/-! ## Runs -/

/-- The native calls that the running guest code makes on FPSCR or on the fiber table. -/
inductive ModeCall where
  | fpscr (c : FpscrCall)
  | create (guestThread entryPoint entryArg guestStackTop : Word) (seedCpu : CpuPtr)
  | registerCurrent (guestThread : Word) (cpu : CpuPtr)

/-- `tlsCpu` is the answer of `TryGetCpuContext`. -/
def ModeCall.code (runtime : PinnedRuntime) (tlsCpu : CpuPtr) : ModeCall → OS Unit
  | .fpscr c => c.code runtime tlsCpu
  | .create guestThread entryPoint entryArg guestStackTop seedCpu => do
    let _ ← createFiber guestThread entryPoint entryArg guestStackTop seedCpu
  | .registerCurrent guestThread cpu => do
    let _ ← OS.registerCurrent guestThread cpu

/-- The host stacks, and the answer of `TryGetCpuContext`. -/
structure ModeSystem where
  threads : HostStacks
  tlsCpu : CpuPtr

/-- The host flush mode is the NI bit of the running register file. -/
def HostStacks.ModeFollows (sys : HostStacks) : Prop :=
  sys.machine.flushMode = niBit (sys.machine.cpus sys.cpu).fpscr

/-- The system after a native call. -/
def ModeSystem.withMachine (sys : ModeSystem) (m : Machine Memory) : ModeSystem :=
  ⟨{ sys.threads with machine := m }, sys.tlsCpu⟩

/-- The system behind a call of `switch_to`. GuestFiberEntry opens a scope for the register file
of its fiber; a switch between host stacks leaves the scope as it is. -/
def ModeSystem.behind (runtime : PinnedRuntime) (sys : ModeSystem) (e : SwitchEnd)
    (after : HostStacks) : ModeSystem :=
  match e with
  | .entered _ => ⟨after, runtime.scopedCpu after.cpu sys.tlsCpu⟩
  | .returned _ => ⟨after, sys.tlsCpu⟩
  | .resumed _ _ => ⟨after, sys.tlsCpu⟩

/-- The runs of guest threads: native calls that meet `P`, guest code that leaves FPSCR alone,
with scopes that open and close, and calls of `switch_to` that meet `Q`. -/
inductive ModeRun (runtime : PinnedRuntime) (P : ModeSystem → ModeCall → Prop)
    (Q : HostStacks → Word → CpuPtr → Prop) : ModeSystem → Prop
  | start {sys : ModeSystem} : (∀ h, sys.threads.waiting h = none) → sys.threads.ModeFollows →
    ModeRun runtime P Q sys
  | call {sys : ModeSystem} (c : ModeCall) {m : Machine Memory} : ModeRun runtime P Q sys →
    P sys c → c.code runtime sys.tlsCpu sys.threads.machine = .ret () m →
    ModeRun runtime P Q (sys.withMachine m)
  | guest {sys : ModeSystem} {m : Machine Memory} (tlsCpu : CpuPtr) : ModeRun runtime P Q sys →
    m.flushMode = sys.threads.machine.flushMode →
    (m.cpus sys.threads.cpu).fpscr = (sys.threads.machine.cpus sys.threads.cpu).fpscr →
    ModeRun runtime P Q ⟨{ sys.threads with machine := m }, tlsCpu⟩
  | switchTo {sys : ModeSystem} {after : HostStacks} {t : Word} {c : CpuPtr} {e : SwitchEnd} :
    ModeRun runtime P Q sys → Q sys.threads t c → sys.threads.switchTo t c = some (e, after) →
    ModeRun runtime P Q (sys.behind runtime e after)

/-! ## What a native call does to the mode -/

/-- A call on FPSCR is made on the running register file, or gives the NI bit of the other one the
value that the running one has. -/
def ModeSystem.CallsInMode (sys : ModeSystem) : ModeCall → Prop
  | .fpscr c => sys.tlsCpu ≠ 0 → c.Writes → sys.tlsCpu ≠ sys.threads.cpu →
    (c.fill 2).getD (niBit (sys.threads.machine.cpus sys.tlsCpu).fpscr) =
      niBit (sys.threads.machine.cpus sys.threads.cpu).fpscr
  | _ => True

/-! ## What a switch does to the live register file -/

/-- The register file that a waiting call gives back, after a switch of `sys` to it. -/
def Waiting.givesBack (w : Waiting) (sys : HostStacks) (c : CpuPtr) : CpuContext :=
  match w.frame.reclaims sys.machine.mem with
  | none => w.frame.callerContext
  | some j => sys.machine.savedAtSwitch c j

/-- The register file that guest code goes on with behind a switch to the record `i`: the
saved registers of the record, and on a stack that waits those that its call gives back. -/
def HostStacks.goesOnWith (sys : HostStacks) (c : CpuPtr) (i : Fin 64) : CpuContext :=
  let host := (sys.machine.fibers.records i).host
  let files := Function.update sys.machine.cpus c (sys.machine.savedAtSwitch c i)
  if host = sys.machine.hosts.current then files sys.cpu
  else
    match sys.waiting host with
    | none => files c
    | some w => Function.update files w.frame.cpu (w.givesBack sys c) w.cpu

/-- A switch goes between register files with the same NI bit. -/
def HostStacks.SameNi (sys : HostStacks) (t : Word) (c : CpuPtr) : Prop :=
  ∀ i, sys.machine.Switches t c i →
    niBit (sys.goesOnWith c i).fpscr = niBit (sys.machine.cpus sys.cpu).fpscr

theorem leave_flushMode (frame : SwitchFrame) (s : Machine Memory) :
    (frame.leave s).flushMode = s.flushMode := by
  unfold SwitchFrame.leave
  split <;> rfl

/-- A switch leaves the mode as it is. -/
theorem HostStacks.Goes.flushMode {sys sys' : HostStacks} {t : Word} {c : CpuPtr} {i : Fin 64}
    {e : SwitchEnd} (h : sys.Goes t c i e sys') :
    sys'.machine.flushMode = sys.machine.flushMode := by
  cases h with
  | here => rfl
  | enter => rfl
  | resume host w =>
    exact leave_flushMode w.frame ((sys.machine.loaded t c i).onHost host)

/-- The FPSCR that guest code goes on with. -/
theorem HostStacks.Goes.fpscr {sys sys' : HostStacks} {t : Word} {c : CpuPtr} {i : Fin 64}
    {e : SwitchEnd} (h : sys.Goes t c i e sys') :
    (sys'.machine.cpus sys'.cpu).fpscr = (sys.goesOnWith c i).fpscr := by
  unfold HostStacks.goesOnWith
  cases h with
  | here hhost =>
    rw [if_pos hhost]
    rfl
  | enter host j r1 r2 r13 lr hhost hne hwaiting =>
    subst hhost
    rw [if_neg hne]
    simp only [hwaiting, onCpu_cpus, onHost_cpus, loaded_cpus, Function.update_self]
    rfl
  | resume host w hhost hne hwaiting =>
    subst hhost
    rw [if_neg hne]
    cases hrec : w.frame.reclaims sys.machine.mem <;>
      simp only [hwaiting, hrec, leave_cpus, Waiting.givesBack, onHost_cpus, onHost_fibers,
        onHost_mem, loaded_cpus, loaded_mem, loaded_savedCpu]

/-! ## The law -/

/-- Work on the fiber table keeps the mode and the register files. -/
theorem modeFollows_of_keepsGuest {x : OS Unit} (hx : KeepsGuest x) {cpu : CpuPtr}
    {s m : Machine Memory} (hs : s.flushMode = niBit (s.cpus cpu).fpscr) (h : x s = .ret () m) :
    m.flushMode = niBit (m.cpus cpu).fpscr := by
  have hkept := hx s
  rw [h] at hkept
  have hmode : m.guestPart.flushMode = s.guestPart.flushMode := congrArg Machine.flushMode hkept
  have hcpus : m.guestPart.cpus = s.guestPart.cpus := congrArg Machine.cpus hkept
  change m.flushMode = s.flushMode at hmode
  change m.cpus = s.cpus at hcpus
  rw [hmode, hcpus]
  exact hs

/-- Behind a call on FPSCR the law holds exactly when the call is made in the mode that runs. -/
theorem FpscrCall.step_follows_iff {sys : ModeSystem} (hs : sys.threads.ModeFollows)
    (c : FpscrCall) :
    (sys.withMachine (FpscrCall.step (sys.tlsCpu, c) sys.threads.machine)).threads.ModeFollows ↔
      sys.CallsInMode (.fpscr c) := by
  unfold HostStacks.ModeFollows at hs ⊢
  simp only [ModeSystem.withMachine, ModeSystem.CallsInMode]
  by_cases hwrites : sys.tlsCpu ≠ 0 ∧ c.Writes
  · have hmode : (FpscrCall.step (sys.tlsCpu, c) sys.threads.machine).flushMode =
        niBit (c.value (sys.threads.machine.cpus sys.tlsCpu).fpscr) := by
      unfold FpscrCall.step
      rw [if_neg (by simp [hwrites.1, hwrites.2])]
      rfl
    have hbit : niBit (c.value (sys.threads.machine.cpus sys.tlsCpu).fpscr) =
        (c.fill 2).getD (niBit (sys.threads.machine.cpus sys.tlsCpu).fpscr) :=
      c.value_bit hwrites.2 _ 2
    rw [hmode, FpscrCall.step_cpus hwrites.1 hwrites.2]
    by_cases hown : sys.threads.cpu = sys.tlsCpu
    · rw [hown, Function.update_self]
      exact iff_of_true rfl fun _ _ hne => absurd rfl hne
    · rw [Function.update_of_ne hown, hbit]
      exact ⟨fun h _ _ _ => h, fun h => h hwrites.1 hwrites.2 (Ne.symm hown)⟩
  · rw [FpscrCall.step_skipped hwrites]
    exact iff_of_true hs fun hnull hw => absurd ⟨hnull, hw⟩ hwrites

/-- A native call that is made in the mode that runs keeps the law. -/
theorem ModeCall.follows {runtime : PinnedRuntime} (hr : runtime.AsNamed) {sys : ModeSystem}
    {c : ModeCall} {m : Machine Memory} (hs : sys.threads.ModeFollows) (hc : sys.CallsInMode c)
    (h : c.code runtime sys.tlsCpu sys.threads.machine = .ret () m) :
    (sys.withMachine m).threads.ModeFollows := by
  cases c with
  | fpscr c =>
    cases h.symm.trans (c.code_apply hr sys.tlsCpu sys.threads.machine)
    exact (c.step_follows_iff hs).mpr hc
  | create t entry arg top seed =>
    exact modeFollows_of_keepsGuest (keeps_bind (keepsGuest_createFiber t entry arg top seed)
      fun _ => keeps_pure ()) hs h
  | registerCurrent t cpu =>
    exact modeFollows_of_keepsGuest
      (keeps_bind (keepsGuest_registerCurrent t cpu) fun _ => keeps_pure ()) hs h

/-- Behind a switch the law holds exactly when the switch goes between register files with
the same NI bit. -/
theorem HostStacks.Goes.follows_iff {sys sys' : HostStacks} {t : Word} {c : CpuPtr} {i : Fin 64}
    {e : SwitchEnd} (hs : sys.ModeFollows) (h : sys.Goes t c i e sys') :
    sys'.ModeFollows ↔
      niBit (sys.goesOnWith c i).fpscr = niBit (sys.machine.cpus sys.cpu).fpscr := by
  unfold HostStacks.ModeFollows at hs ⊢
  rw [h.flushMode, h.fpscr, hs]
  exact eq_comm

theorem ModeSystem.behind_threads (runtime : PinnedRuntime) (sys : ModeSystem) (e : SwitchEnd)
    (after : HostStacks) : (sys.behind runtime e after).threads = after := by
  cases e <;> rfl

theorem ModeRun.kept {runtime : PinnedRuntime} {P : ModeSystem → ModeCall → Prop}
    {Q : HostStacks → Word → CpuPtr → Prop} {sys : ModeSystem} (h : ModeRun runtime P Q sys) :
    sys.threads.Kept := by
  induction h with
  | start hwaiting _ =>
    intro h' w hw
    rw [hwaiting h'] at hw
    cases hw
  | call _ _ _ _ ih => exact ih
  | guest _ _ _ _ ih => exact ih
  | switchTo _ _ hswitch ih =>
    rw [ModeSystem.behind_threads]
    rcases HostStacks.switchTo_cases ih hswitch with ⟨_, rfl⟩ | ⟨i, _, hgoes⟩
    · exact ih
    · exact hgoes.kept ih

/-- The host mode follows the running thread in every run whose calls on FPSCR are made in the mode
that runs, and whose switches go between register files with the same NI bit. -/
theorem the_flush_mode_follows_the_running_thread {runtime : PinnedRuntime}
    (hr : runtime.AsNamed) {sys : ModeSystem}
    (h : ModeRun runtime ModeSystem.CallsInMode HostStacks.SameNi sys) :
    sys.threads.machine.flushMode = niBit (sys.threads.machine.cpus sys.threads.cpu).fpscr := by
  induction h with
  | start _ hfollows => exact hfollows
  | call c _ hmode hcall ih => exact c.follows hr ih hmode hcall
  | guest _ _ hmode hfpscr ih =>
    exact hmode.trans (ih.trans (congrArg niBit hfpscr.symm))
  | switchTo hrun hsame hswitch ih =>
    rw [ModeSystem.behind_threads]
    rcases HostStacks.switchTo_cases hrun.kept hswitch with ⟨_, rfl⟩ | ⟨i, hi, hgoes⟩
    · exact ih
    · exact (hgoes.follows_iff ih).mpr (hsame i hi)

/-! ## Runs of a booted Wii -/

/-- A booted Wii on its first host stack, in the scope of its register file. -/
def bootSystem (mem : Memory) : ModeSystem where
  threads :=
    { machine :=
        { bootMachine mem with
          hosts := ⟨1, 2, fun _ => 0#32, fun _ => false, fun _ => true⟩
          dispatch := fun _ => some ⟨false, 0#32⟩ }
      cpu := 1
      waiting := fun _ => none }
  tlsCpu := 1

theorem bootSystem_run (P : ModeSystem → ModeCall → Prop)
    (Q : HostStacks → Word → CpuPtr → Prop) (mem : Memory) :
    ModeRun plainRuntime P Q (bootSystem mem) :=
  .start (fun _ => rfl) (show false = niBit 0#32 by decide)

/-- A native call of the running guest code. -/
def ModeSystem.native (sys : ModeSystem) (c : ModeCall) : Option ModeSystem :=
  (c.code plainRuntime sys.tlsCpu sys.threads.machine).ended.map fun r => sys.withMachine r.2

/-- A call of `switch_to` by the running guest code. -/
def ModeSystem.switched (sys : ModeSystem) (t : Word) (c : CpuPtr) : Option ModeSystem :=
  (sys.threads.switchTo t c).map fun r => sys.behind plainRuntime r.1 r.2

theorem ModeRun.native {P : ModeSystem → ModeCall → Prop}
    {Q : HostStacks → Word → CpuPtr → Prop} {sys sys' : ModeSystem} {c : ModeCall}
    (hrun : ModeRun plainRuntime P Q sys) (hc : P sys c) (h : sys.native c = some sys') :
    ModeRun plainRuntime P Q sys' := by
  obtain ⟨⟨_, m⟩, hended, rfl⟩ := Option.map_eq_some_iff.mp h
  exact hrun.call c hc (Coop.ret_of_ended hended)

theorem ModeRun.switched {P : ModeSystem → ModeCall → Prop}
    {Q : HostStacks → Word → CpuPtr → Prop} {sys sys' : ModeSystem} {t : Word} {c : CpuPtr}
    (hrun : ModeRun plainRuntime P Q sys) (hq : Q sys.threads t c)
    (h : sys.switched t c = some sys') : ModeRun plainRuntime P Q sys' := by
  obtain ⟨⟨e, after⟩, hswitch, rfl⟩ := Option.map_eq_some_iff.mp h
  exact hrun.switchTo hq hswitch

def createThread : ModeCall := .create 0x80400000#32 0x80001000#32 0#32 0x80500000#32 1
def setNi : ModeCall := .fpscr (.mtfsb1 29#32)

/-- The new thread runs with NI clear in its FPSCR, in the mode that the main thread set. All
guest code runs with one register file, in a scope of it. -/
theorem a_new_thread_runs_in_the_mode_of_its_caller : ∃ sys,
    ModeRun plainRuntime (fun sys _ => sys.tlsCpu = 1 ∧ sys.threads.cpu = 1)
      (fun _ _ c => c = 1) sys ∧
      sys.tlsCpu = 1 ∧ sys.threads.cpu = 1 ∧
      sys.threads.machine.flushMode ≠ niBit (sys.threads.machine.cpus sys.threads.cpu).fpscr := by
  have hrun : (wiiBoot.bind fun m => ((bootSystem m).native createThread).bind fun sys₁ =>
      (sys₁.native setNi).bind fun sys₂ => (sys₂.switched 0x80400000#32 1).map fun sys₃ =>
        ((sys₁.tlsCpu, sys₁.threads.cpu), (sys₃.tlsCpu, sys₃.threads.cpu),
          sys₃.threads.machine.flushMode,
          niBit (sys₃.threads.machine.cpus sys₃.threads.cpu).fpscr)) =
      some ((1, 1), (1, 1), true, false) := by
    decide +kernel
  obtain ⟨m, _, hrun⟩ := Option.bind_eq_some_iff.mp hrun
  obtain ⟨sys₁, hcreate, hrun⟩ := Option.bind_eq_some_iff.mp hrun
  obtain ⟨sys₂, hset, hrun⟩ := Option.bind_eq_some_iff.mp hrun
  obtain ⟨sys₃, hswitch, hmode⟩ := Option.map_eq_some_iff.mp hrun
  simp only [Prod.mk.injEq] at hmode
  obtain ⟨hown₁, hown₃, hflush, hni⟩ := hmode
  have hstart := bootSystem_run (fun sys _ => sys.tlsCpu = 1 ∧ sys.threads.cpu = 1)
    (fun _ _ c => c = 1) m
  refine ⟨sys₃,
    ((hstart.native ⟨rfl, rfl⟩ hcreate).native hown₁ hset).switched rfl hswitch,
    hown₃.1, hown₃.2, ?_⟩
  rw [hflush, hni]
  decide

/-- The new thread runs in its mode when the main thread has NI clear too, and so does it once it
has set NI. -/
theorem a_new_thread_runs_in_its_mode : ∃ sys,
    ModeRun plainRuntime ModeSystem.CallsInMode HostStacks.SameNi sys ∧
      sys.threads.machine.fibers.currentGuestThread = 0x80400000#32 ∧
      sys.threads.machine.flushMode = true ∧
      sys.threads.machine.flushMode = niBit (sys.threads.machine.cpus sys.threads.cpu).fpscr := by
  have hrun : (wiiBoot.bind fun m => ((bootSystem m).native createThread).bind fun sys₁ =>
      (sys₁.switched 0x80400000#32 1).bind fun sys₂ => (sys₂.native setNi).map fun sys₃ =>
        ((sys₁.threads.machine.fibers.find 0x80400000#32,
          niBit (sys₁.threads.goesOnWith 1 0).fpscr,
          niBit (sys₁.threads.machine.cpus sys₁.threads.cpu).fpscr),
          (sys₂.tlsCpu, sys₂.threads.cpu),
          sys₃.threads.machine.fibers.currentGuestThread, sys₃.threads.machine.flushMode)) =
      some ((some 0, false, false), (1, 1), 0x80400000#32, true) := by
    decide +kernel
  obtain ⟨m, _, hrun⟩ := Option.bind_eq_some_iff.mp hrun
  obtain ⟨sys₁, hcreate, hrun⟩ := Option.bind_eq_some_iff.mp hrun
  obtain ⟨sys₂, hswitch, hrun⟩ := Option.bind_eq_some_iff.mp hrun
  obtain ⟨sys₃, hset, hmode⟩ := Option.map_eq_some_iff.mp hrun
  simp only [Prod.mk.injEq] at hmode
  obtain ⟨⟨hfind, hinto, hout⟩, ⟨hscoped, hcpu⟩, hcurrent, hflush⟩ := hmode
  have hstart := bootSystem_run ModeSystem.CallsInMode HostStacks.SameNi m
  have hsame : sys₁.threads.SameNi 0x80400000#32 1 := by
    intro i hi
    cases hi.found.symm.trans hfind
    rw [hinto, hout]
  have hown : sys₂.CallsInMode setNi := fun _ _ hne => absurd (hscoped.trans hcpu.symm) hne
  have hset := ((hstart.native (c := createThread) trivial hcreate).switched hsame
    hswitch).native hown hset
  exact ⟨sys₃, hset, hcurrent, hflush,
    the_flush_mode_follows_the_running_thread plainRuntime_asNamed hset⟩

end wii_switch
