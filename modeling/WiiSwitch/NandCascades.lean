-- Cascades of completions (include/switch_nand_hle_traits.hpp and its siblings). A
-- callback may issue further asynchronous calls, whose completions join the queue of the
-- outermost pump. That pump makes 64 rounds, so it delivers a cascade of 64 callbacks
-- and no longer one.
import WiiSwitch.NandCallbacks

namespace wii_switch

open Bytes OS Routine

namespace Nand

/-! ## The asynchronous calls -/

/-- The part of an asynchronous call before its pump: the synchronous call with r3, r4 and
r5, the completion for the callback and the command block in two registers, and r3. -/
def issueAsync (sync : Word → Word → Word → OS Word) (callback commandBlock : Fin 32)
    (status : Word → Word) (cpu : CpuPtr) : OS Unit := do
  let first ← getGpr cpu 3
  let second ← getGpr cpu 4
  let third ← getGpr cpu 5
  let callbackPtr ← getGpr cpu callback
  let commandBlockPtr ← getGpr cpu commandBlock
  let result ← sync first second third
  queueCallback callbackPtr result commandBlockPtr
  setGpr cpu 3 (status result)

def issueOpen : CpuPtr → OS Unit := issueAsync openSync 6 7 id

/-- The count of bytes travels through the callback. -/
def issueRead : CpuPtr → OS Unit :=
  issueAsync readSync 6 7 fun result => if result.slt 0#32 then result else 0#32

def issueClose : CpuPtr → OS Unit :=
  issueAsync (fun fileInfoPtr _ _ => closeSync fileInfoPtr) 4 5 id

def asyncEntry (issue : CpuPtr → OS Unit) (cpu frame : CpuPtr) : OS Unit := do
  if cpu = 0 then return ()
  issue cpu
  pumpCallbacks cpu frame

/-- `NANDOpenAsync`. -/
def nandOpenAsync : CpuPtr → CpuPtr → OS Unit := asyncEntry issueOpen

/-- `NANDPrivateOpenAsync`. -/
def nandPrivateOpenAsync : CpuPtr → CpuPtr → OS Unit := asyncEntry issueOpen

/-- `NANDReadAsync`. -/
def nandReadAsync : CpuPtr → CpuPtr → OS Unit := asyncEntry issueRead

/-- `NANDCloseAsync`. -/
def nandCloseAsync : CpuPtr → CpuPtr → OS Unit := asyncEntry issueClose

inductive AsyncEntry where
  | nandOpenAsync
  | nandPrivateOpenAsync
  | nandReadAsync
  | nandCloseAsync

def AsyncEntry.issue : AsyncEntry → CpuPtr → OS Unit
  | .nandOpenAsync => issueOpen
  | .nandPrivateOpenAsync => issueOpen
  | .nandReadAsync => issueRead
  | .nandCloseAsync => issueClose

def AsyncEntry.run : AsyncEntry → CpuPtr → CpuPtr → OS Unit
  | .nandOpenAsync => Nand.nandOpenAsync
  | .nandPrivateOpenAsync => Nand.nandPrivateOpenAsync
  | .nandReadAsync => Nand.nandReadAsync
  | .nandCloseAsync => Nand.nandCloseAsync

theorem AsyncEntry.run_eq (entry : AsyncEntry) (cpu frame : CpuPtr) :
    entry.run cpu frame = asyncEntry entry.issue cpu frame := by
  cases entry <;> rfl

/-! ## Callbacks that issue calls -/

/-- An asynchronous call: its entry, its register file, and the address of the local
register file of its pump. -/
structure AsyncCall where
  entry : AsyncEntry
  cpu : CpuPtr
  frame : CpuPtr

def AsyncCall.run (c : AsyncCall) : OS Unit := c.entry.run c.cpu c.frame

/-- Guest code from one state: it ends, or it stops the process, or it goes on behind an
asynchronous call. -/
abbrev GuestCode := Coop (Machine Memory) Stop AsyncCall Unit

/-- What there is to run: the rest of a native call, or guest code beside a NAND runtime,
which it reaches only through its calls. -/
inductive Task where
  | native (rest : Coop (Machine Memory) Stop Away Unit)
  | guest (nand : NandRuntime) (code : GuestCode)

/-- A task ends in a state, with the callbacks that were started on the way. `code` is
what runs at a guest address. -/
inductive Ends (code : Word → CpuPtr → Machine Memory → GuestCode) :
    Task → List PendingCallback → Machine Memory → Prop
  | native {s : Machine Memory} : Ends code (.native (.ret () s)) [] s
  | callback {target : Word} {frame : CpuPtr} {s s' s'' : Machine Memory}
    {l l' : List PendingCallback}
    {rest : Machine Memory → Coop (Machine Memory) Stop Away Unit} :
    Ends code (.guest s.nand (code target frame s)) l s' →
    Ends code (.native (rest s')) l' s'' →
    Ends code (.native (.call (.guest target frame) s rest))
      (⟨target, s.gpr frame 3, s.gpr frame 4⟩ :: (l ++ l')) s''
  | guest {nand : NandRuntime} {s : Machine Memory} :
    Ends code (.guest nand (.ret () s)) [] { s with nand := nand }
  | async {nand : NandRuntime} {c : AsyncCall} {s s' s'' : Machine Memory}
    {l l' : List PendingCallback} {rest : Machine Memory → GuestCode} :
    Ends code (.native (c.run { s with nand := nand })) l s' →
    Ends code (.guest s'.nand (rest s')) l' s'' →
    Ends code (.guest nand (.call c s rest)) (l ++ l') s''

/-- The cascade from a state: every callback that has to run until the queue is empty, in
its order, however many there are. Each one starts on the registers of the pump. -/
inductive Cascade (code : Word → CpuPtr → Machine Memory → GuestCode) (cpu frame : CpuPtr) :
    Machine Memory → List PendingCallback → Prop
  | done {s : Machine Memory} : s.nand.pendingCallbacks = [] → Cascade code cpu frame s []
  | next {s s' : Machine Memory} {callback : PendingCallback} {rest l cs : List PendingCallback}
    {record : RawDispatchRecord} : s.nand.pendingCallbacks = callback :: rest →
    s.dispatch callback.callbackPtr = some record →
    Ends code (.guest (starts cpu frame callback rest s).nand
      (code callback.callbackPtr frame (starts cpu frame callback rest s))) l s' →
    Cascade code cpu frame (s'.onCpu frame (restoreNonvolatile record
      ((starts cpu frame callback rest s).cpus frame))) cs →
    Cascade code cpu frame s (callback :: (l ++ cs))

section

variable {code : Word → CpuPtr → Machine Memory → GuestCode}

/-- A task ends in one way. -/
theorem Ends.unique {t : Task} {l l' : List PendingCallback} {s s' : Machine Memory}
    (h : Ends code t l s) (h' : Ends code t l' s') : l = l' ∧ s = s' := by
  induction h generalizing l' s' with
  | native =>
    cases h'
    exact ⟨rfl, rfl⟩
  | callback _ _ ih₁ ih₂ =>
    cases h' with
    | callback h₁ h₂ =>
      obtain ⟨rfl, rfl⟩ := ih₁ h₁
      obtain ⟨rfl, rfl⟩ := ih₂ h₂
      exact ⟨rfl, rfl⟩
  | guest =>
    cases h'
    exact ⟨rfl, rfl⟩
  | async _ _ ih₁ ih₂ =>
    cases h' with
    | async h₁ h₂ =>
      obtain ⟨rfl, rfl⟩ := ih₁ h₁
      obtain ⟨rfl, rfl⟩ := ih₂ h₂
      exact ⟨rfl, rfl⟩

end

/-! ## Calls inside a drain -/

/-- The part of the runtime that the calls themselves leave alone. -/
def drainDepth (s : Machine Memory) : Nat := s.nand.callbackDrainDepth

theorem alone_modify {f : NandRuntime → NandRuntime}
    (h : ∀ n, (f n).callbackDrainDepth = n.callbackDrainDepth) : Alone drainDepth (modify f) :=
  Routine.alone_modify fun s => h s.nand

theorem alone_ask : Alone drainDepth ask :=
  alone_bind (alone_gets _) fun _ => alone_bind (alone_modify fun _ => rfl) fun _ => alone_pure _

theorem alone_record (event : FileEvent) : Alone drainDepth (record event) :=
  alone_modify fun _ => rfl

theorem alone_fopen (path : HostPath) (mode : OpenMode) : Alone drainDepth (fopen path mode) := by
  refine alone_bind alone_ask fun answer => ?_
  refine alone_ite (alone_bind (alone_pure _) fun file => ?_)
    (alone_bind (alone_gets _) fun file => ?_)
  all_goals
    refine alone_bind (alone_modify fun _ => rfl) fun _ => ?_
    exact alone_bind (alone_record _) fun _ => alone_pure _

theorem alone_openHost (path : HostPath) (mode : Word) : Alone drainDepth (openHost path mode) := by
  refine alone_ite (alone_fopen path .rb) (alone_bind (alone_fopen path .rplusb) fun file => ?_)
  exact alone_ite (alone_pure _) (alone_fopen path .wplusb)

theorem alone_emplace (fd : Word) (handle : FileHandle) : Alone drainDepth (emplace fd handle) := by
  refine alone_bind alone_ask fun answer => alone_ite (alone_pure _) ?_
  refine alone_bind (alone_modify fun _ => rfl) fun _ => ?_
  exact alone_bind (alone_record _) fun _ => alone_pure _

theorem alone_openSync (pathPtr fileInfoPtr mode : Word) :
    Alone drainDepth (openSync pathPtr fileInfoPtr mode) := by
  refine alone_bind (alone_gets _) fun mapped => alone_ite (alone_pure _) ?_
  refine alone_bind ((alone_readGuestCString pathPtr).of (·.callbackDrainDepth)) fun guestPath =>
    ?_
  cases guestPath with
  | none => exact alone_pure _
  | some guestPath =>
    refine alone_bind ((alone_hostPathOf guestPath).of (·.callbackDrainDepth)) fun path => ?_
    refine alone_bind (alone_openHost path mode) fun file => alone_ite (alone_pure _) ?_
    refine alone_bind (alone_gets _) fun fd => alone_bind (alone_modify fun _ => rfl) fun _ => ?_
    refine alone_bind (alone_emplace fd _) fun done => alone_ite ?_ (alone_pure _)
    refine alone_bind ((alone_write32 fileInfoPtr fd).of (·.callbackDrainDepth)) fun _ => ?_
    exact alone_bind ((alone_write8 _ 1#8).of (·.callbackDrainDepth)) fun _ => alone_pure _

theorem alone_fread (buffer : HostPtr) (length : Word) (file : Stream) :
    Alone drainDepth (fread buffer length file) := by
  refine alone_bind alone_ask fun answer => alone_bind (alone_record _) fun _ => ?_
  refine alone_bind (fun s => ?_) fun _ => alone_pure _
  dsimp only
  split
  · trivial
  · rfl

theorem alone_readSync (fileInfoPtr bufferPtr length : Word) :
    Alone drainDepth (readSync fileInfoPtr bufferPtr length) := by
  refine alone_bind (alone_gets _) fun mapped => alone_bind (alone_gets _) fun room => ?_
  refine alone_ite (alone_pure _) (alone_bind (alone_gets _) fun buffer => ?_)
  cases buffer with
  | none => exact alone_pure _
  | some buffer =>
    refine alone_bind ((alone_read32 fileInfoPtr).of (·.callbackDrainDepth)) fun fd => ?_
    refine alone_bind (alone_gets _) fun handle => ?_
    cases handle with
    | none => exact alone_pure _
    | some handle => exact alone_ite (alone_pure _) (alone_fread buffer length handle.file)

theorem alone_closeFd (fd : Word) : Alone drainDepth (closeFd fd) := by
  refine alone_bind (alone_gets _) fun handle => ?_
  cases handle with
  | none => exact alone_pure _
  | some handle =>
    have hclose : Alone drainDepth (fclose handle.file) :=
      alone_bind alone_ask fun _ => alone_bind (alone_record _) fun _ => alone_pure _
    refine alone_ite (alone_bind (alone_pure _) fun fails => ?_) (alone_bind hclose fun fails => ?_)
    all_goals
      refine alone_ite (alone_pure _) ?_
      exact alone_bind (alone_modify fun _ => rfl) fun _ => alone_pure _

theorem alone_closeSync (fileInfoPtr : Word) : Alone drainDepth (closeSync fileInfoPtr) := by
  refine alone_bind (alone_gets _) fun mapped => alone_ite (alone_pure _) ?_
  refine alone_bind ((alone_read8 _).of (·.callbackDrainDepth)) fun flag => ?_
  refine alone_ite (alone_pure _) ?_
  refine alone_bind ((alone_read32 fileInfoPtr).of (·.callbackDrainDepth)) fun fd => ?_
  refine alone_bind (alone_closeFd fd) fun done => alone_ite ?_ (alone_pure _)
  exact alone_bind ((alone_write8 _ 0#8).of (·.callbackDrainDepth)) fun _ => alone_pure _

theorem alone_queueCallback (callbackPtr result commandBlockPtr : Word) :
    Alone drainDepth (queueCallback callbackPtr result commandBlockPtr) := by
  refine alone_ite (alone_pure _) (alone_bind alone_ask fun answer => ?_)
  exact alone_ite (alone_pure _) (alone_modify fun _ => rfl)

theorem alone_issueAsync {sync : Word → Word → Word → OS Word}
    (callback commandBlock : Fin 32) (status : Word → Word) (cpu : CpuPtr)
    (hsync : ∀ a b c, Alone drainDepth (sync a b c)) :
    Alone drainDepth (issueAsync sync callback commandBlock status cpu) := by
  refine alone_bind (alone_gets _) fun first => alone_bind (alone_gets _) fun second => ?_
  refine alone_bind (alone_gets _) fun third => alone_bind (alone_gets _) fun callbackPtr => ?_
  refine alone_bind (alone_gets _) fun block => alone_bind (hsync _ _ _) fun result => ?_
  refine alone_bind (alone_queueCallback _ _ _) fun _ => ?_
  exact Routine.alone_modify fun _ => rfl

theorem AsyncEntry.alone_issue (entry : AsyncEntry) (cpu : CpuPtr) :
    Alone drainDepth (entry.issue cpu) := by
  cases entry with
  | nandOpenAsync => exact alone_issueAsync 6 7 id cpu alone_openSync
  | nandPrivateOpenAsync => exact alone_issueAsync 6 7 id cpu alone_openSync
  | nandReadAsync => exact alone_issueAsync 6 7 _ cpu alone_readSync
  | nandCloseAsync => exact alone_issueAsync 4 5 id cpu fun a _ _ => alone_closeSync a

/-- A call inside a drain starts no callback. -/
theorem AsyncCall.meets_run (c : AsyncCall) {s : Machine Memory} (h : drainDepth s ≠ 0) :
    (c.run s).Meets .alone fun _ t => drainDepth t = drainDepth s := by
  unfold AsyncCall.run
  rw [AsyncEntry.run_eq, asyncEntry, Routine.ite_apply]
  split
  · exact rfl
  refine Coop.meets_bind.mpr ((c.entry.alone_issue c.cpu s).mono fun _ t ht => ?_)
  have hdepth : t.nand.callbackDrainDepth ≠ 0 := fun h0 => h (ht.symm.trans h0)
  change (pumpCallbacks c.cpu c.frame t).Meets _ _
  rw [pumpCallbacks_idle (Or.inr hdepth)]
  exact ht

/-- What a task inside a drain does: it starts no callback, and the depth stays. -/
def Task.Quiet (l : List PendingCallback) (s : Machine Memory) : Task → Prop
  | .native rest =>
    ∀ d, rest.Meets .alone (fun _ t => drainDepth t = d) → l = [] ∧ drainDepth s = d
  | .guest nand _ => nand.callbackDrainDepth ≠ 0 →
    l = [] ∧ drainDepth s = nand.callbackDrainDepth

section

variable {code : Word → CpuPtr → Machine Memory → GuestCode} {cpu frame : CpuPtr}
variable {s s' : Machine Memory} {l : List PendingCallback}

theorem Ends.quiet {t : Task} (h : Ends code t l s) : t.Quiet l s := by
  induction h with
  | native => exact fun d hd => ⟨rfl, hd⟩
  | callback _ _ _ _ => exact fun d hd => hd.1.elim
  | guest => exact fun _ => ⟨rfl, rfl⟩
  | async _ _ ih₁ ih₂ =>
    intro hdepth
    obtain ⟨rfl, hs'⟩ := ih₁ _ (AsyncCall.meets_run _ hdepth)
    obtain ⟨rfl, hs''⟩ := ih₂ (fun h0 => hdepth (hs'.symm.trans h0))
    exact ⟨rfl, hs''.trans hs'⟩

/-! ## The drain of a cascade -/

/-- A loop that ends delivers nothing. -/
theorem ends_drain_end {n : Nat} (h : n = 0 ∨ s.nand.pendingCallbacks = []) :
    ∃ s', Ends code (.native ((do drain cpu frame n; leaveDrain : OS Unit) s)) [] s' ∧
      s'.nand.pendingCallbacks = s.nand.pendingCallbacks := by
  have hend : (do drain cpu frame n; leaveDrain : OS Unit) s = leaveDrain s := by
    rw [bind_apply, drain_end h, Coop.bind_ret]
  rw [hend]
  exact ⟨_, .native, rfl⟩

/-- The loop delivers the whole cascade exactly when it has rounds for it. -/
theorem drain_cascade (n : Nat) {cs : List PendingCallback} (hframe : frame ≠ 0)
    (hdepth : drainDepth s ≠ 0) (h : Cascade code cpu frame s cs) :
    ∃ l s', Ends code (.native ((do drain cpu frame n; leaveDrain : OS Unit) s)) l s' ∧
      ((l = cs ∧ s'.nand.pendingCallbacks = []) ↔ cs.length ≤ n) := by
  induction n generalizing s cs with
  | zero =>
    have hzero : ∃ s', Ends code (.native ((do drain cpu frame 0; leaveDrain : OS Unit) s))
      [] s' ∧
        s'.nand.pendingCallbacks = s.nand.pendingCallbacks := ends_drain_end (Or.inl rfl)
    obtain ⟨s', hends, hsame⟩ := hzero
    refine ⟨[], s', hends, ?_⟩
    cases h with
    | done hnil => exact ⟨fun _ => Nat.le_refl 0, fun _ => ⟨rfl, hsame.trans hnil⟩⟩
    | next _ _ _ _ => simp
  | succ n ih =>
    cases h with
    | done hnil =>
      obtain ⟨s', hends, hsame⟩ := ends_drain_end (Or.inr hnil)
      exact ⟨[], s', hends, fun _ => Nat.zero_le _, fun _ => ⟨rfl, hsame.trans hnil⟩⟩
    | @next _ s₁ callback rest l cs record hpending hrecord hguest hrest =>
      obtain ⟨rfl, hdepth₁⟩ := hguest.quiet hdepth
      have hdepth₂ : drainDepth (s₁.onCpu frame (restoreNonvolatile record
          ((starts cpu frame callback rest s).cpus frame))) ≠ 0 :=
        fun h0 => hdepth (hdepth₁.symm.trans h0)
      obtain ⟨l, s₂, hends, hiff⟩ := ih hdepth₂ hrest
      refine ⟨callback :: l, s₂, ?_, ?_⟩
      · have hcall : Ends code (.native (.call (.guest callback.callbackPtr frame)
            (starts cpu frame callback rest s) (afterCallback cpu frame record
              ((starts cpu frame callback rest s).cpus frame) n))) _ s₂ := .callback hguest hends
        rw [starts_gpr] at hcall
        rw [drain_round hframe hpending, hrecord]
        exact hcall
      · simp only [List.nil_append, List.cons.injEq, true_and, List.length_cons,
          Nat.add_le_add_iff_right]
        exact hiff

/-- The state in which the loop of an outermost pump starts. -/
def entersDrain (s : Machine Memory) : Machine Memory :=
  { s with nand := { s.nand with callbackDrainDepth := s.nand.callbackDrainDepth + 1 } }

/-- A call from outside a callback runs the loop. -/
theorem AsyncCall.run_outside {c : AsyncCall} {s₁ : Machine Memory} (hcpu : c.cpu ≠ 0)
    (houtside : drainDepth s = 0) (hissue : c.entry.issue c.cpu s = .ret () s₁) :
    c.run s = (do drain c.cpu c.frame 64; leaveDrain : OS Unit) (entersDrain s₁) := by
  have hkept := c.entry.alone_issue c.cpu s
  rw [hissue] at hkept
  have hdepth : s₁.nand.callbackDrainDepth = 0 := Eq.trans hkept houtside
  unfold AsyncCall.run
  rw [AsyncEntry.run_eq, asyncEntry, Routine.ite_apply, if_neg hcpu, bind_of hissue]
  exact pumpCallbacks_enter hcpu hdepth

/-- An asynchronous call from outside a callback, whose cascade ends, returns. It has
then delivered the cascade and left the queue empty exactly when the cascade has at most
64 callbacks. -/
theorem a_call_delivers_a_cascade_of_at_most_64 {c : AsyncCall} {s₁ : Machine Memory}
    {cs : List PendingCallback} (hcpu : c.cpu ≠ 0) (hframe : c.frame ≠ 0)
    (houtside : drainDepth s = 0) (hissue : c.entry.issue c.cpu s = .ret () s₁)
    (hcascade : Cascade code c.cpu c.frame (entersDrain s₁) cs) :
    (∃ l t, Ends code (.native (c.run s)) l t) ∧
      ∀ l t, Ends code (.native (c.run s)) l t →
        ((l = cs ∧ t.nand.pendingCallbacks = []) ↔ cs.length ≤ 64) := by
  rw [AsyncCall.run_outside hcpu houtside hissue]
  have hdepth : drainDepth (entersDrain s₁) ≠ 0 := Nat.succ_ne_zero _
  obtain ⟨l, t, hends, hiff⟩ := drain_cascade 64 hframe hdepth hcascade
  refine ⟨⟨l, t, hends⟩, fun l' t' hends' => ?_⟩
  obtain ⟨rfl, rfl⟩ := hends.unique hends'
  exact hiff

end

/-! ## A chain of reads -/

/-- The registers of a read with no file, and one less as its command block. -/
def nextRead (target : Word) (frame : CpuPtr) (s : Machine Memory) : Machine Memory :=
  ((s.setGpr frame 3 0).setGpr frame 6 target).setGpr frame 7 (s.gpr frame 4 - 1#32)

/-- A callback that issues such a read for itself, down to the command block 0. -/
def chainCode (target : Word) (frame : CpuPtr) (s : Machine Memory) : GuestCode :=
  if s.gpr frame 4 = 0 then .ret () s
  else .call ⟨.nandReadAsync, frame, frame + 1⟩ (nextRead target frame s) fun s' => .ret () s'

/-- The state behind a completion in the queue. -/
def withCompletion (c : PendingCallback) (s : Machine Memory) : Machine Memory :=
  { s with nand := { s.nand with
      asked := s.nand.asked + 1, pendingCallbacks := s.nand.pendingCallbacks ++ [c] } }

/-- The part of a read before its pump, with no file. -/
theorem issueRead_queues (s : Machine Memory) (cpu : CpuPtr) (hfile : s.gpr cpu 3 = 0)
    (hcallback : s.gpr cpu 6 ≠ 0) (hanswers : ∀ i, (s.nand.answers i).fails = false) :
    issueRead cpu s = .ret () ((withCompletion ⟨s.gpr cpu 6, kResultInvalid, s.gpr cpu 7⟩
      s).setGpr cpu 3 kResultInvalid) := by
  have hread : ∀ a b, readSync 0 a b s = .ret kResultInvalid s := fun a b => by
    simp only [readSync, bind_apply, contains_apply, Coop.bind_ret, true_or, if_true,
      pure_apply]
  have hqueue : ∀ r block, queueCallback (s.gpr cpu 6) r block s = .ret ()
      (withCompletion ⟨s.gpr cpu 6, r, block⟩ s) := fun r block => by
    simp only [queueCallback, ask, Routine.ite_apply, if_neg hcallback, bind_apply, gets_apply,
      modify_apply, Coop.bind_ret, pure_apply, hanswers, Bool.false_eq_true, if_false,
      withCompletion]
  have hstatus : kResultInvalid.slt 0#32 = true := by decide
  simp only [issueRead, issueAsync, bind_apply, getGpr_apply, Coop.bind_ret, hfile, hread, hqueue,
    setGpr_apply, hstatus, if_true]

/-- Each callback of the chain but the last queues the next one. -/
theorem chainCode_ends {target : Word} {frame : CpuPtr} {s : Machine Memory} (hframe : frame ≠ 0)
    (htarget : target ≠ 0) (hdepth : drainDepth s ≠ 0)
    (hanswers : ∀ i, (s.nand.answers i).fails = false) (hblock : s.gpr frame 4 ≠ 0) :
    ∃ s', Ends chainCode (.guest s.nand (chainCode target frame s)) [] s' ∧
      s'.nand.pendingCallbacks = s.nand.pendingCallbacks ++
        [⟨target, kResultInvalid, s.gpr frame 4 - 1#32⟩] ∧
      s'.nand.answers = s.nand.answers ∧ s'.dispatch = s.dispatch ∧
      drainDepth s' = drainDepth s := by
  have hfile : (nextRead target frame s).gpr frame 3 = 0 := by simp [nextRead]
  have hcallback : (nextRead target frame s).gpr frame 6 = target := by simp [nextRead]
  have hnext : (nextRead target frame s).gpr frame 7 = s.gpr frame 4 - 1#32 := by simp [nextRead]
  have hissue :=
    issueRead_queues (nextRead target frame s) frame hfile (hcallback.symm ▸ htarget) hanswers
  rw [hcallback, hnext] at hissue
  have hrun : (AsyncCall.mk .nandReadAsync frame (frame + 1)).run (nextRead target frame s) =
      .ret () ((withCompletion ⟨target, kResultInvalid, s.gpr frame 4 - 1#32⟩
        (nextRead target frame s)).setGpr frame 3 kResultInvalid) := by
    change asyncEntry issueRead frame (frame + 1) (nextRead target frame s) = _
    rw [asyncEntry, Routine.ite_apply, if_neg hframe, bind_of hissue]
    exact pumpCallbacks_idle (Or.inr hdepth)
  have hends : Ends chainCode
      (.native ((AsyncCall.mk .nandReadAsync frame (frame + 1)).run (nextRead target frame s))) []
      ((withCompletion ⟨target, kResultInvalid, s.gpr frame 4 - 1#32⟩
        (nextRead target frame s)).setGpr frame 3 kResultInvalid) := by
    rw [hrun]
    exact .native
  rw [chainCode, if_neg hblock]
  exact ⟨_, .async (l := []) hends .guest, rfl, rfl, rfl, rfl⟩

theorem starts_r4 (cpu frame : CpuPtr) (s : Machine Memory) (c : PendingCallback)
    (rest : List PendingCallback) : (starts cpu frame c rest s).gpr frame 4 =
      c.commandBlockPtr := by
  simp [starts, Machine.gpr, Machine.setGpr, Machine.onCpu]

/-- A chain from the command block `k` makes `k + 1` callbacks. -/
theorem chain_cascade {target r : Word} (cpu : CpuPtr) {frame : CpuPtr} (hframe : frame ≠ 0)
    (htarget : target ≠ 0) {record : RawDispatchRecord} (k : Nat) (hk : k < 2 ^ 32)
    {s : Machine Memory} (hpending : s.nand.pendingCallbacks = [⟨target, r, BitVec.ofNat 32 k⟩])
    (hdispatch : s.dispatch target = some record) (hdepth : drainDepth s ≠ 0)
    (hanswers : ∀ i, (s.nand.answers i).fails = false) :
    ∃ cs, cs.length = k + 1 ∧ Cascade chainCode cpu frame s cs := by
  induction k generalizing s r with
  | zero =>
    have hlast := starts_r4 cpu frame s ⟨target, r, 0⟩ []
    have hguest : Ends chainCode
        (.guest (starts cpu frame ⟨target, r, 0⟩ [] s).nand
          (chainCode target frame (starts cpu frame ⟨target, r, 0⟩ [] s))) []
        (starts cpu frame ⟨target, r, 0⟩ [] s) := by
      rw [chainCode, if_pos hlast]
      exact .guest
    exact ⟨_, rfl, .next hpending hdispatch hguest (.done rfl)⟩
  | succ k ih =>
    let t := starts cpu frame ⟨target, r, BitVec.ofNat 32 (k + 1)⟩ [] s
    have hblock : t.gpr frame 4 = BitVec.ofNat 32 (k + 1) := starts_r4 _ _ _ _ _
    have hne : t.gpr frame 4 ≠ 0 := by
      rw [hblock]
      intro h0
      have := congrArg BitVec.toNat (show BitVec.ofNat 32 (k + 1) = 0#32 from h0)
      simp only [BitVec.toNat_ofNat] at this
      omega
    have hnext : t.gpr frame 4 - 1#32 = BitVec.ofNat 32 k := by
      rw [hblock, BitVec.ofNat_add, BitVec.add_sub_cancel]
    obtain ⟨s', hguest, hpending', hanswers', hdispatch', hdepth'⟩ :=
      chainCode_ends (s := t) hframe htarget hdepth hanswers hne
    rw [hnext] at hpending'
    obtain ⟨cs, hlen, hcs⟩ :=
      ih (s := s'.onCpu frame (restoreNonvolatile record (t.cpus frame)))
      (by omega) hpending' ((congrFun hdispatch' target).trans hdispatch)
      (fun h0 => hdepth (hdepth'.symm.trans h0)) (fun i => hanswers'.symm ▸ hanswers i)
    exact ⟨_, congrArg (· + 1) hlen, .next hpending hdispatch hguest hcs⟩

/-- The registers of the first read of a chain. -/
def chainMachine (k : Nat) : Machine Memory :=
  (callbackMachine.setGpr 1 6 0x80001000#32).setGpr 1 7 (BitVec.ofNat 32 k)

def chainCall : AsyncCall := ⟨.nandReadAsync, 1, 2⟩

/-- The first read of a chain of `k + 1` callbacks. -/
theorem chainMachine_cascade (k : Nat) (hk : k < 2 ^ 32) : ∃ s₁ cs,
    chainCall.entry.issue chainCall.cpu (chainMachine k) = .ret () s₁ ∧ cs.length = k + 1 ∧
      Cascade chainCode chainCall.cpu chainCall.frame (entersDrain s₁) cs := by
  have hcallback : (chainMachine k).gpr 1 6 = 0x80001000#32 := rfl
  have hblock : (chainMachine k).gpr 1 7 = BitVec.ofNat 32 k := rfl
  have hissue := issueRead_queues (chainMachine k) 1 rfl
    (hcallback ▸ by decide) fun _ => rfl
  rw [hcallback, hblock] at hissue
  obtain ⟨cs, hlen, hcs⟩ := chain_cascade 1 (show (2 : CpuPtr) ≠ 0 by decide) (by decide) k hk
    (s := entersDrain ((withCompletion ⟨0x80001000#32, kResultInvalid, BitVec.ofNat 32 k⟩
      (chainMachine k)).setGpr 1 3 kResultInvalid)) rfl rfl (Nat.succ_ne_zero 0) fun _ => rfl
  exact ⟨_, cs, hissue, hlen, hcs⟩

/-- A chain of 65 callbacks ends with a completion left in the queue. -/
theorem a_chain_of_65_is_not_delivered : ∃ s₁ cs,
    chainCall.entry.issue chainCall.cpu (chainMachine 64) = .ret () s₁ ∧
      Cascade chainCode chainCall.cpu chainCall.frame (entersDrain s₁) cs ∧
      ∃ l t, Ends chainCode (.native (chainCall.run (chainMachine 64))) l t ∧
        ¬(l = cs ∧ t.nand.pendingCallbacks = []) := by
  obtain ⟨s₁, cs, hissue, hlen, hcs⟩ := chainMachine_cascade 64 (by decide)
  have hdepth : drainDepth (entersDrain s₁) ≠ 0 := Nat.succ_ne_zero _
  obtain ⟨l, t, hends, hiff⟩ := drain_cascade 64 (by decide) hdepth hcs
  refine ⟨s₁, cs, hissue, hcs, l, t, ?_, fun h => absurd (hiff.mp h) (by omega)⟩
  rw [AsyncCall.run_outside (by decide) rfl hissue]
  exact hends

/-- A chain of three callbacks is delivered. -/
theorem a_chain_of_three_is_delivered : ∃ l t,
    Ends chainCode (.native (chainCall.run (chainMachine 2))) l t ∧ l.length = 3 ∧
      t.nand.pendingCallbacks = [] := by
  obtain ⟨s₁, cs, hissue, hlen, hcs⟩ := chainMachine_cascade 2 (by decide)
  obtain ⟨⟨l, t, hends⟩, hall⟩ :=
    a_call_delivers_a_cascade_of_at_most_64 (by decide) (by decide) rfl hissue hcs
  obtain ⟨rfl, hnil⟩ := (hall l t hends).mpr (by omega)
  exact ⟨l, t, hends, hlen, hnil⟩

end Nand

end wii_switch
