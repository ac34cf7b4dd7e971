-- The completions of the asynchronous NAND calls
-- (source/switch_nand_callback_runtime.cpp). A completion waits in a queue until the
-- outermost pump starts its callback. The laws below hold for every order of calls and
-- for every behaviour of the callbacks on their own registers.
import WiiSwitch.Dispatch
import WiiSwitch.NandFiles

namespace wii_switch

open Bytes OS Routine

namespace Nand

/-- `QueueCallback`. The completion is lost when the queue cannot grow. -/
def queueCallback (callbackPtr result commandBlockPtr : Word) : OS Unit := do
  if callbackPtr = 0 then return ()
  let answer ← ask
  if answer.fails then return ()
  modify fun n => { n with
    pendingCallbacks := n.pendingCallbacks ++ [⟨callbackPtr, result, commandBlockPtr⟩] }

/-- The registers of a callback: those of the caller, with the completion in r3 and r4. -/
def setCallbackCpu (cpu frame : CpuPtr) (callback : PendingCallback) : OS Unit := do
  Routine.modify fun s => s.onCpu frame fun _ => s.cpus cpu
  setGpr frame 3 callback.result
  setGpr frame 4 callback.commandBlockPtr

/-- The loop of `PumpCallbacks` with `n` rounds left. `frame` is the address of the
local `callbackCpu`. -/
def drain (cpu frame : CpuPtr) : Nat → OS Unit
  | 0 => return ()
  | n + 1 => do
    match ← gets (·.pendingCallbacks) with
    | [] => return ()
    | callback :: rest =>
      modify fun n => { n with pendingCallbacks := rest }
      setCallbackCpu cpu frame callback
      invokeIndirectCpu callback.callbackPtr frame
      drain cpu frame n

def enterDrain : OS Unit :=
  modify fun n => { n with callbackDrainDepth := n.callbackDrainDepth + 1 }

def leaveDrain : OS Unit :=
  modify fun n => { n with callbackDrainDepth := n.callbackDrainDepth - 1 }

/-- `PumpCallbacks`. -/
def pumpCallbacks (cpu frame : CpuPtr) : OS Unit := do
  let depth ← gets (·.callbackDrainDepth)
  if cpu = 0 ∨ depth ≠ 0 then return ()
  enterDrain
  drain cpu frame 64
  leaveDrain

/-! ## The loop -/

/-- The state in which a callback starts. -/
def starts (cpu frame : CpuPtr) (callback : PendingCallback) (rest : List PendingCallback)
    (s : Machine Memory) : Machine Memory :=
  { (((s.onCpu frame fun _ => s.cpus cpu).setGpr frame 3 callback.result).setGpr frame 4
      callback.commandBlockPtr) with nand := { s.nand with pendingCallbacks := rest } }

/-- The rest of the pump behind a callback, with `n` rounds left. -/
def afterCallback (cpu frame : CpuPtr) (record : RawDispatchRecord) (old : CpuContext) (n : Nat) :
    OS Unit := do
  onCpu frame (restoreNonvolatile record old)
  drain cpu frame n
  leaveDrain

section

variable {cpu frame : CpuPtr} {s : Machine Memory}

theorem starts_gpr {callback : PendingCallback} {rest : List PendingCallback} :
    (⟨callback.callbackPtr, (starts cpu frame callback rest s).gpr frame 3,
      (starts cpu frame callback rest s).gpr frame 4⟩ : PendingCallback) = callback := by
  simp [starts, Machine.gpr, Machine.setGpr, Machine.onCpu]

/-- A pump that has nothing to do. -/
theorem pumpCallbacks_idle (h : cpu = 0 ∨ s.nand.callbackDrainDepth ≠ 0) :
    pumpCallbacks cpu frame s = .ret () s := by
  simp only [pumpCallbacks, bind_apply, gets_apply, Coop.bind_ret, Routine.ite_apply, if_pos h,
    pure_apply]

theorem pumpCallbacks_enter (hcpu : cpu ≠ 0) (hdepth : s.nand.callbackDrainDepth = 0) :
    pumpCallbacks cpu frame s = (do drain cpu frame 64; leaveDrain : OS Unit)
      { s with nand := { s.nand with callbackDrainDepth := s.nand.callbackDrainDepth + 1 } } := by
  have h : ¬(cpu = 0 ∨ s.nand.callbackDrainDepth ≠ 0) := by
    rintro (h | h)
    · exact hcpu h
    · exact h hdepth
  simp only [pumpCallbacks, enterDrain, bind_apply, gets_apply, Coop.bind_ret, Routine.ite_apply,
    if_neg h, modify_apply]

/-- The loop ends. -/
theorem drain_end {n : Nat} (h : n = 0 ∨ s.nand.pendingCallbacks = []) :
    drain cpu frame n s = .ret () s := by
  cases n with
  | zero => rfl
  | succ n =>
    have hnil := h.resolve_left (Nat.succ_ne_zero n)
    simp only [drain, bind_apply, gets_apply, Coop.bind_ret, hnil, pure_apply]

/-- One round of the loop: the callback is started, or its target is missing. -/
theorem drain_round {n : Nat} {callback : PendingCallback} {rest : List PendingCallback}
    (hframe : frame ≠ 0) (h : s.nand.pendingCallbacks = callback :: rest) :
    (do drain cpu frame (n + 1); leaveDrain : OS Unit) s =
      match s.dispatch callback.callbackPtr with
      | none => .stop (.boundary "INDIRECT_CALL_MISS" callback.callbackPtr)
          (starts cpu frame callback rest s)
      | some record => .call (.guest callback.callbackPtr frame) (starts cpu frame callback rest s)
          (afterCallback cpu frame record ((starts cpu frame callback rest s).cpus frame) n) := by
  have hdrain : drain cpu frame (n + 1) s = (do
      invokeIndirectCpu callback.callbackPtr frame
      drain cpu frame n) (starts cpu frame callback rest s) := by
    simp only [drain, bind_apply, gets_apply, Coop.bind_ret, h]
    rfl
  have hdispatch : (starts cpu frame callback rest s).dispatch = s.dispatch := rfl
  rw [bind_apply, hdrain]
  simp only [invokeIndirectCpu, tryDispatchIndirect, bind_apply, Routine.ite_apply, if_neg hframe,
    Routine.gets_apply, Coop.bind_ret, hdispatch]
  cases s.dispatch callback.callbackPtr with
  | none => rfl
  | some record => rfl

end

/-! ## Runs -/

/-- A pump that waits for its callback: its register file, what was in it at the call,
the register file of the callback, and the rest of the pump. -/
structure WaitingPump where
  cpu : CpuPtr
  atCall : CpuContext
  frame : CpuPtr
  rest : OS Unit

/-- A run so far: the machine, the pumps that wait, the innermost first, the completions
that were queued and those whose callback was started, each in its order, and for each
pump that returned the registers of its caller at the call and at the return. -/
structure PumpState where
  machine : Machine Memory
  waiting : List WaitingPump
  queued : List PendingCallback
  started : List PendingCallback
  returned : List (CpuContext × CpuContext)

/-- A pump goes on: it returns, or it starts a callback, which sees its completion in r3
and r4. -/
def PumpState.advance (σ : PumpState) (cpu : CpuPtr) (atCall : CpuContext) :
    Coop (Machine Memory) Stop Away Unit → Option PumpState
  | .ret _ s => some { σ with machine := s, returned := (atCall, s.cpus cpu) :: σ.returned }
  | .call (.guest target frame) s rest => some { σ with
      machine := s
      waiting := ⟨cpu, atCall, frame, rest⟩ :: σ.waiting
      started := σ.started ++ [⟨target, s.gpr frame 3, s.gpr frame 4⟩] }
  | _ => none

/-- What the running code may do on its own: a callback has its own register file, and
the queue is behind the calls. -/
def PumpState.Owns (σ : PumpState) (s : Machine Memory) : Prop :=
  s.nand.pendingCallbacks = σ.machine.nand.pendingCallbacks ∧
    s.nand.callbackDrainDepth = σ.machine.nand.callbackDrainDepth ∧
    ∀ p ∈ σ.waiting.head?, ∀ cpu ≠ p.frame, s.cpus cpu = σ.machine.cpus cpu

/-- The completion that a call of `QueueCallback` puts into the queue. -/
def queuedBy (callback : PendingCallback) (n : NandRuntime) : List PendingCallback :=
  if callback.callbackPtr ≠ 0 ∧ (n.answers n.asked).fails = false then [callback] else []

/-- The runs from an empty queue. The running code is the innermost callback, or the
code outside of all pumps. -/
inductive PumpRun : PumpState → Prop
  | start {s : Machine Memory} : s.nand.pendingCallbacks = [] → s.nand.callbackDrainDepth = 0 →
    PumpRun ⟨s, [], [], [], []⟩
  | code {σ : PumpState} {s : Machine Memory} : PumpRun σ → σ.Owns s →
    PumpRun { σ with machine := s }
  | queue {σ : PumpState} {s : Machine Memory} (callback : PendingCallback) : PumpRun σ →
    queueCallback callback.callbackPtr callback.result callback.commandBlockPtr σ.machine =
      .ret () s →
    PumpRun { σ with machine := s, queued := σ.queued ++ queuedBy callback σ.machine.nand }
  | pump {σ σ' : PumpState} (cpu frame : CpuPtr) : PumpRun σ →
    frame ≠ 0 → frame ≠ cpu →
    σ.advance cpu (σ.machine.cpus cpu) (pumpCallbacks cpu frame σ.machine) =
      some σ' → PumpRun σ'
  | finish {σ σ' : PumpState} {p : WaitingPump} {waiting : List WaitingPump} : PumpRun σ →
    σ.waiting = p :: waiting →
    PumpState.advance { σ with waiting := waiting } p.cpu p.atCall (p.rest σ.machine) =
      some σ' →
    PumpRun σ'

/-! ## The invariant -/

/-- A pump whose callback runs: the caller's registers are as they were at the call. -/
structure WaitingPump.Sound (p : WaitingPump) (s : Machine Memory) : Prop where
  frame_ne : p.frame ≠ 0
  apart : p.frame ≠ p.cpu
  kept : s.cpus p.cpu = p.atCall
  rest : ∃ record old n, p.rest = afterCallback p.cpu p.frame record old n

/-- The completions start in their order, one at a time, and each pump that returned
left the registers of its caller alone. -/
structure PumpState.Orderly (σ : PumpState) : Prop where
  order : σ.queued = σ.started ++ σ.machine.nand.pendingCallbacks
  nonnull : ∀ c ∈ σ.queued, c.callbackPtr ≠ 0
  returned : ∀ r ∈ σ.returned, r.2 = r.1
  waiting : (σ.waiting = [] ∧ σ.machine.nand.callbackDrainDepth = 0) ∨
    ∃ p, σ.waiting = [p] ∧ σ.machine.nand.callbackDrainDepth = 1 ∧ p.Sound σ.machine

section

variable {σ σ' : PumpState} {s : Machine Memory} {cpu frame : CpuPtr}

/-- The loop of the only pump starts the next callback, or the pump returns. -/
theorem orderly_drain {atCall : CpuContext} (n : Nat)
    (horder : σ.queued = σ.started ++ s.nand.pendingCallbacks)
    (hnonnull : ∀ c ∈ σ.queued, c.callbackPtr ≠ 0)
    (hreturned : ∀ r ∈ σ.returned, r.2 = r.1) (hwaiting : σ.waiting = [])
    (hdepth : s.nand.callbackDrainDepth = 1) (hframe : frame ≠ 0) (hapart : frame ≠ cpu)
    (hkept : s.cpus cpu = atCall)
    (h : σ.advance cpu atCall ((do drain cpu frame n; leaveDrain : OS Unit) s) = some σ') :
    σ'.Orderly := by
  by_cases hend : n = 0 ∨ s.nand.pendingCallbacks = []
  · rw [bind_apply, drain_end hend, Coop.bind_ret] at h
    cases h
    refine ⟨horder, hnonnull, fun r hr => ?_, Or.inl ⟨hwaiting, ?_⟩⟩
    · rcases List.mem_cons.mp hr with rfl | hr
      · exact hkept
      · exact hreturned r hr
    · simp [hdepth]
  obtain ⟨hn, hne⟩ := not_or.mp hend
  obtain ⟨n, rfl⟩ := Nat.exists_eq_succ_of_ne_zero hn
  obtain ⟨callback, rest, hpending⟩ := List.exists_cons_of_ne_nil hne
  rw [drain_round hframe hpending] at h
  cases hrecord : s.dispatch callback.callbackPtr with
  | none =>
    rw [hrecord] at h
    cases h
  | some record =>
    rw [hrecord] at h
    cases h
    refine ⟨?_, hnonnull, hreturned, Or.inr ⟨_, congrArg (_ :: ·) hwaiting, hdepth, ?_⟩⟩
    · simp only [starts_gpr, List.append_assoc]
      rw [horder, hpending]
      rfl
    · refine ⟨hframe, hapart, ?_, record, _, n, rfl⟩
      simp [starts, Machine.setGpr, Machine.onCpu, hkept, hapart.symm]

theorem PumpState.Orderly.code (h : σ.Orderly) (howns : σ.Owns s) :
    PumpState.Orderly { σ with machine := s } := by
  obtain ⟨hpending, hdepth, hcpus⟩ := howns
  refine ⟨hpending ▸ h.order, h.nonnull, h.returned, ?_⟩
  rcases h.waiting with ⟨hnil, hzero⟩ | ⟨p, hp, hone, hsound⟩
  · exact Or.inl ⟨hnil, hdepth.trans hzero⟩
  · refine Or.inr ⟨p, hp, hdepth.trans hone, hsound.frame_ne, hsound.apart, ?_, hsound.rest⟩
    exact (hcpus p (by rw [hp]; rfl) p.cpu hsound.apart.symm).trans hsound.kept

theorem PumpState.Orderly.queue (h : σ.Orderly) (callback : PendingCallback)
    (hret : queueCallback callback.callbackPtr callback.result callback.commandBlockPtr σ.machine =
      .ret () s) :
    PumpState.Orderly { σ with
      machine := s, queued := σ.queued ++ queuedBy callback σ.machine.nand } := by
  have hwaiting : s.cpus = σ.machine.cpus ∧
      s.nand.callbackDrainDepth = σ.machine.nand.callbackDrainDepth ∧
      s.nand.pendingCallbacks =
        σ.machine.nand.pendingCallbacks ++ queuedBy callback σ.machine.nand := by
    by_cases hnull : callback.callbackPtr = 0
    · simp only [queueCallback, Routine.ite_apply, if_pos hnull, pure_apply] at hret
      cases hret
      simp [queuedBy, hnull]
    cases hfails : (σ.machine.nand.answers σ.machine.nand.asked).fails with
    | true =>
      simp only [queueCallback, ask, Routine.ite_apply, if_neg hnull, bind_apply, gets_apply,
        modify_apply, Coop.bind_ret, pure_apply, hfails, if_true] at hret
      cases hret
      simp [queuedBy, hfails]
    | false =>
      simp only [queueCallback, ask, Routine.ite_apply, if_neg hnull, bind_apply, gets_apply,
        modify_apply, Coop.bind_ret, pure_apply, hfails, Bool.false_eq_true, if_false] at hret
      cases hret
      simp only [queuedBy, hfails, and_true, true_and, ne_eq]
      exact congrArg _ (if_pos hnull).symm
  obtain ⟨hcpus, hdepth, hpending⟩ := hwaiting
  refine ⟨?_, fun c hc => ?_, h.returned, ?_⟩
  · simp only [hpending, h.order, List.append_assoc]
  · rcases List.mem_append.mp hc with hc | hc
    · exact h.nonnull c hc
    · unfold queuedBy at hc
      split at hc
      · rename_i hadd
        exact List.mem_singleton.mp hc ▸ hadd.1
      · cases hc
  · rcases h.waiting with ⟨hnil, hzero⟩ | ⟨p, hp, hone, hsound⟩
    · exact Or.inl ⟨hnil, hdepth.trans hzero⟩
    · exact Or.inr ⟨p, hp, hdepth.trans hone, hsound.frame_ne, hsound.apart,
        (congrFun hcpus p.cpu).trans hsound.kept, hsound.rest⟩

theorem PumpState.Orderly.pump (h : σ.Orderly) (hframe : frame ≠ 0) (hapart : frame ≠ cpu)
    (hret : σ.advance cpu (σ.machine.cpus cpu) (pumpCallbacks cpu frame σ.machine) = some σ') :
    σ'.Orderly := by
  by_cases hidle : cpu = 0 ∨ σ.machine.nand.callbackDrainDepth ≠ 0
  · rw [pumpCallbacks_idle hidle] at hret
    cases hret
    refine ⟨h.order, h.nonnull, fun r hr => ?_, h.waiting⟩
    rcases List.mem_cons.mp hr with rfl | hr
    · rfl
    · exact h.returned r hr
  obtain ⟨hcpu, hdepth⟩ := not_or.mp hidle
  rw [not_not] at hdepth
  rw [pumpCallbacks_enter hcpu hdepth] at hret
  have hnil : σ.waiting = [] := by
    rcases h.waiting with ⟨hnil, _⟩ | ⟨p, _, hone, _⟩
    · exact hnil
    · omega
  refine orderly_drain 64 ?_ h.nonnull h.returned hnil ?_ hframe hapart rfl hret
  · exact h.order
  · simp [hdepth]

theorem PumpState.Orderly.finish {p : WaitingPump} {waiting : List WaitingPump} (h : σ.Orderly)
    (hp : σ.waiting = p :: waiting)
    (hret : PumpState.advance { σ with waiting := waiting } p.cpu p.atCall (p.rest σ.machine) =
      some σ') : σ'.Orderly := by
  rcases h.waiting with ⟨hnil, _⟩ | ⟨q, hq, hone, hsound⟩
  · rw [hnil] at hp
    cases hp
  rw [hq] at hp
  cases hp
  obtain ⟨record, old, n, hrest⟩ := hsound.rest
  rw [hrest] at hret
  have hkept : (σ.machine.onCpu p.frame (restoreNonvolatile record old)).cpus p.cpu = p.atCall :=
    (Function.update_of_ne hsound.apart.symm _ _).trans hsound.kept
  exact orderly_drain (σ := { σ with waiting := [] })
    (s := σ.machine.onCpu p.frame (restoreNonvolatile record old)) n h.order h.nonnull h.returned
    rfl hone hsound.frame_ne hsound.apart hkept hret

end

/-- Completions are delivered in order, at most once and never nested, in every run:
those that were started, with the result in r3 and the command block in r4, are the first
of those that were queued, at most one callback runs at a time, and each pump that
returned left the registers of its caller as they were at the call. -/
theorem completions_are_delivered_in_order {σ : PumpState} (hrun : PumpRun σ) :
    σ.queued = σ.started ++ σ.machine.nand.pendingCallbacks ∧
      (∀ c ∈ σ.queued, c.callbackPtr ≠ 0) ∧ σ.waiting.length ≤ 1 ∧
      ∀ r ∈ σ.returned, r.2 = r.1 := by
  have h : σ.Orderly := by
    induction hrun with
    | start hpending hdepth => exact ⟨hpending.symm, by simp, by simp, Or.inl ⟨rfl, hdepth⟩⟩
    | code _ howns ih => exact ih.code howns
    | queue callback _ hret ih => exact ih.queue callback hret
    | pump _ _ _ hframe hapart hret ih => exact ih.pump hframe hapart hret
    | finish _ hp hret ih => exact ih.finish hp hret
  refine ⟨h.order, h.nonnull, ?_, h.returned⟩
  rcases h.waiting with ⟨hnil, _⟩ | ⟨p, hp, _⟩
  · simp [hnil]
  · simp [hp]

/-- The machine of a run: every target has a record. -/
def callbackMachine : Machine Memory :=
    { bareMachine with dispatch := fun _ => some ⟨false, 0#32⟩ }

def firstRead : PendingCallback := ⟨0x80001000#32, 7#32, 0x80002000#32⟩
def secondRead : PendingCallback := ⟨0x80001004#32, 9#32, 0x80002000#32⟩

/-- A callback queues another completion and pumps; its own pump returns at once, and the
outer one starts the other callback. -/
theorem a_chained_completion_is_delivered_in_order : ∃ σ, PumpRun σ ∧
    σ.started = [firstRead, secondRead] ∧ σ.returned.length = 2 ∧
    σ.queued = σ.started ++ σ.machine.nand.pendingCallbacks ∧
      (∀ c ∈ σ.queued, c.callbackPtr ≠ 0) ∧ σ.waiting.length ≤ 1 ∧
      ∀ r ∈ σ.returned, r.2 = r.1 := by
  have hqueued := (PumpRun.start (s := callbackMachine) rfl rfl).queue firstRead rfl
  have hfirst := hqueued.pump 1 2 (by decide) (by decide) rfl
  have hchained := hfirst.queue secondRead rfl
  have hnested := hchained.pump 2 3 (by decide) (by decide) rfl
  have hsecond := hnested.finish rfl rfl
  have hreturned := hsecond.finish rfl rfl
  exact ⟨_, hreturned, by decide, rfl, completions_are_delivered_in_order hreturned⟩

end Nand

end wii_switch
