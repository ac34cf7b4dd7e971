-- The start and the stop of the runtime (source/runtime_bootstrap.cpp), with the host services
-- (source/horizon_runtime_services.cpp) and the products that a build may link
-- (source/translated_product.cpp, translated_product_handoff.cpp,
-- translated_execution_handoff.cpp). A start brings up the memory and a scheduler context,
-- tries a worker context, and then goes as far as the linked products allow. The reports and
-- the stage notes are not modelled.
import WiiSwitch.BootMemory
import WiiSwitch.GuestFiber
import WiiSwitch.Lib.Procedures

namespace wii_switch

open Bytes OS

/-! ## The host services -/

inductive BackendState where
  | ready
  | stubbed
deriving DecidableEq

/-- `horizon_runtime_services::Status`. -/
structure ServiceStatus where
  lifecycleReady : Bool
  filesystemReady : Bool
  timingReady : Bool
  inputReady : Bool
  audio : BackendState
  graphics : BackendState

/-- `Status{}`. -/
def ServiceStatus.none : ServiceStatus := ⟨false, false, false, false, .stubbed, .stubbed⟩

/-- The globals of the services. -/
structure ServiceGlobals where
  initialized : Bool
  status : ServiceStatus

/-- What the host answers to the services: the change of the directory, the four directories,
and the frequency of its ticks. -/
structure HostServices where
  cwdOk : Bool
  logsOk : Bool
  cacheOk : Bool
  configOk : Bool
  nandOk : Bool
  tickFrequency : Word64

/-- `horizon_runtime_services::initialize`. The first status stays. -/
def initializeServices (host : HostServices) (g : ServiceGlobals) :
    ServiceStatus × ServiceGlobals :=
  if g.initialized then (g.status, g)
  else
    let runtimeDirsReady := host.logsOk && host.cacheOk && host.configOk && host.nandOk
    let status : ServiceStatus :=
      { lifecycleReady := true
        filesystemReady := host.cwdOk && runtimeDirsReady
        timingReady := decide (host.tickFrequency ≠ 0#64)
        inputReady := true
        audio := .stubbed
        graphics := .stubbed }
    (status, ⟨true, status⟩)

/-! ## The linked products -/

def kAbiVersion : Word := 1#32

/-- `MkwSwitchTranslatedProductApi`. -/
structure ProductApi where
  abiVersion : Word
  productId : Option String
  buildDescription : Option String

/-- `MkwSwitchTranslatedProductHandoffApi` and `MkwSwitchTranslatedExecutionHandoffApi`: a
version and the entry, which may be null. -/
structure HandoffApi (β : Type) where
  abiVersion : Word
  entry : Option β

/-- `MkwSwitchTranslatedExecutionProbeResult`. -/
structure ProbeResult where
  guestAddress : Word
  r1 : Word
  r2 : Word
  r13 : Word
  r3Before : Word
  r3After : Word

/-- `initialize_data_sections`, which works on the machine. -/
abbrev DataInitializer := Machine Memory → Bool × Machine Memory

/-- `run_first_translated_function`. -/
abbrev FirstFunction := Machine Memory → (Bool × ProbeResult) × Machine Memory

/-- What a build links, and how it is configured. -/
structure Linked where
  product : Option ProductApi
  dataInit : Option (HandoffApi DataInitializer)
  execution : Option (HandoffApi FirstFunction)
  dataInitHandoffEnabled : Bool
  executionHandoffEnabled : Bool
  sequenceMode : Bool
  bootstrapPreludeMode : Bool

/-- `translated_product::Status`. -/
structure ProductStatus where
  linked : Bool
  abiCompatible : Bool
  reportedAbi : Word
  productId : String
  buildDescription : String

def safeString (value : Option String) (fallback : String) : String :=
  match value with
  | none => fallback
  | some text => if text = "" then fallback else text

/-- `translated_product::inspect`. -/
def inspectProduct : Option ProductApi → ProductStatus
  | none => ⟨false, false, 0#32, "<none>", "Nintendo-data-free stub"⟩
  | some api =>
    ⟨true, decide (api.abiVersion = kAbiVersion), api.abiVersion,
      safeString api.productId "<unspecified>", safeString api.buildDescription "<unspecified>"⟩

/-- The `Status` of a handoff. -/
structure HandoffStatus where
  linked : Bool
  abiCompatible : Bool
  available : Bool
  reportedAbi : Word

/-- The `inspect` that both handoffs have. -/
def inspectHandoff {β : Type} : Option (HandoffApi β) → HandoffStatus
  | none => ⟨false, false, false, 0#32⟩
  | some api =>
    ⟨true, decide (api.abiVersion = kAbiVersion),
      decide (api.abiVersion = kAbiVersion) && api.entry.isSome, api.abiVersion⟩

/-! ## The result -/

inductive StopPoint where
  | failed
  | waitingForTranslatedProduct
  | translatedProductLinked
  | waitingForDataInitializer
  | dataSectionsInitialized
  | dataSectionInitializationFailed
  | waitingForTranslatedExecution
  | translatedFunctionExecuted
  | translatedFunctionExecutionFailed
  | translatedSequenceExecuted
  | translatedSequenceExecutionFailed
  | translatedBootstrapPreludeExecuted
  | translatedBootstrapPreludeExecutionFailed
deriving DecidableEq

/-- `Result`. -/
structure BootResult where
  lifecycleReady : Bool := false
  filesystemReady : Bool := false
  timingReady : Bool := false
  inputReady : Bool := false
  memoryReady : Bool := false
  hostContextSchedulerReady : Bool := false
  hostContextFirstHandoff : Bool := false
  hostContextContinuation : Bool := false
  audioStubbed : Bool := true
  graphicsStubbed : Bool := true
  product : ProductStatus := inspectProduct none
  dataInitHandoffEnabled : Bool := false
  dataInit : HandoffStatus := ⟨false, false, false, 0#32⟩
  dataSectionsInitAttempted : Bool := false
  dataSectionsInitialized : Bool := false
  executionHandoffEnabled : Bool := false
  execution : HandoffStatus := ⟨false, false, false, 0#32⟩
  executionAttempted : Bool := false
  executionPassed : Bool := false
  sequenceMode : Bool := false
  bootstrapPreludeMode : Bool := false
  probe : ProbeResult := ⟨0#32, 0#32, 0#32, 0#32, 0#32, 0#32⟩
  stopPoint : StopPoint := .failed

namespace BootResult

/-- The first part of the result. -/
def opened (linked : Linked) (status : ServiceStatus) : BootResult :=
  { dataInitHandoffEnabled := linked.dataInitHandoffEnabled
    executionHandoffEnabled := linked.executionHandoffEnabled
    sequenceMode := linked.sequenceMode
    bootstrapPreludeMode := linked.bootstrapPreludeMode
    lifecycleReady := status.lifecycleReady
    filesystemReady := status.filesystemReady
    timingReady := status.timingReady
    inputReady := status.inputReady
    audioStubbed := status.audio = .stubbed
    graphicsStubbed := status.graphics = .stubbed }

/-- The memory is ready, and the scheduler with its worker may be. -/
def upTo (r : BootResult) (scheduler : Bool) : BootResult :=
  { r with memoryReady := true, hostContextSchedulerReady := scheduler }

/-- What the switches to the worker showed. -/
def handed (r : BootResult) (firstHandoff continuation : Bool) : BootResult :=
  { r with hostContextFirstHandoff := firstHandoff, hostContextContinuation := continuation }

/-- The three inspections. -/
def inspected (r : BootResult) (linked : Linked) : BootResult :=
  { r with
    product := inspectProduct linked.product
    dataInit := inspectHandoff linked.dataInit
    execution := inspectHandoff linked.execution }

def stoppedAt (r : BootResult) (stopPoint : StopPoint) : BootResult :=
  { r with stopPoint := stopPoint }

/-- The data sections were tried. -/
def tried (r : BootResult) (initialized : Bool) : BootResult :=
  { r with
    dataSectionsInitAttempted := true
    dataSectionsInitialized := initialized
    stopPoint := if initialized then .dataSectionsInitialized
      else .dataSectionInitializationFailed }

/-- The stop point of an execution, by the mode of the build. -/
def executionStopPoint (r : BootResult) (passed : Bool) : StopPoint :=
  if r.bootstrapPreludeMode then
    if passed then .translatedBootstrapPreludeExecuted
    else .translatedBootstrapPreludeExecutionFailed
  else if r.sequenceMode then
    if passed then .translatedSequenceExecuted else .translatedSequenceExecutionFailed
  else if passed then .translatedFunctionExecuted
  else .translatedFunctionExecutionFailed

/-- The first translated function ran. -/
def executed (r : BootResult) (passed : Bool) (probe : ProbeResult) : BootResult :=
  { r with
    executionAttempted := true
    executionPassed := passed
    probe := probe
    stopPoint := r.executionStopPoint passed }

end BootResult

def coreReady (r : BootResult) : Bool :=
  r.lifecycleReady && r.filesystemReady && r.timingReady && r.inputReady && r.memoryReady &&
    r.hostContextSchedulerReady && r.hostContextFirstHandoff && r.hostContextContinuation

/-! ## The globals -/

/-- A call into a product: the memory at its start, and what it answered. -/
inductive BootEvent where
  | dataInit (before : Memory) (initialized : Bool)
  | firstFunction (passed : Bool)

/-- The globals of the bootstrap and of the services, and the calls into products so far,
newest first. -/
structure BootGlobals where
  scheduler : Handle
  worker : Handle
  workerPhase : Nat
  services : ServiceGlobals
  calls : List BootEvent

/-- The globals at the start of the process. -/
def BootGlobals.start : BootGlobals := ⟨0, 0, 0, ⟨false, .none⟩, []⟩

namespace BootGlobals

def withScheduler (g : BootGlobals) (h : Handle) : BootGlobals := { g with scheduler := h }

def withWorker (g : BootGlobals) (h : Handle) : BootGlobals := { g with worker := h }

def withPhase (g : BootGlobals) (phase : Nat) : BootGlobals := { g with workerPhase := phase }

def withServices (g : BootGlobals) (s : ServiceGlobals) : BootGlobals := { g with services := s }

/-- One more call into a product. -/
def noting (g : BootGlobals) (e : BootEvent) : BootGlobals := { g with calls := e :: g.calls }

section

variable (g : BootGlobals) (h : Handle) (n : Nat) (s : ServiceGlobals) (e : BootEvent)

@[simp] theorem withScheduler_scheduler : (g.withScheduler h).scheduler = h := rfl
@[simp] theorem withScheduler_worker : (g.withScheduler h).worker = g.worker := rfl
@[simp] theorem withScheduler_calls : (g.withScheduler h).calls = g.calls := rfl
@[simp] theorem withWorker_scheduler : (g.withWorker h).scheduler = g.scheduler := rfl
@[simp] theorem withWorker_worker : (g.withWorker h).worker = h := rfl
@[simp] theorem withWorker_calls : (g.withWorker h).calls = g.calls := rfl
@[simp] theorem withPhase_scheduler : (g.withPhase n).scheduler = g.scheduler := rfl
@[simp] theorem withPhase_worker : (g.withPhase n).worker = g.worker := rfl
@[simp] theorem withPhase_workerPhase : (g.withPhase n).workerPhase = n := rfl
@[simp] theorem withPhase_calls : (g.withPhase n).calls = g.calls := rfl
@[simp] theorem withServices_scheduler : (g.withServices s).scheduler = g.scheduler := rfl
@[simp] theorem withServices_worker : (g.withServices s).worker = g.worker := rfl
@[simp] theorem withServices_calls : (g.withServices s).calls = g.calls := rfl
@[simp] theorem noting_scheduler : (g.noting e).scheduler = g.scheduler := rfl
@[simp] theorem noting_worker : (g.noting e).worker = g.worker := rfl
@[simp] theorem noting_calls : (g.noting e).calls = e :: g.calls := rfl

end

end BootGlobals

abbrev BootState := Machine Memory × BootGlobals

abbrev Boot := Routine BootState Stop Away

namespace Boot

/-- A routine of the machine leaves the globals, but the outside may change them. -/
def lift {α : Type} (r : OS α) : Boot α := fun p => (r p.1).beside p.2

def gets {α : Type} (f : BootGlobals → α) : Boot α := Routine.gets fun p => f p.2

def modify (f : BootGlobals → BootGlobals) : Boot Unit := Routine.modify fun p => (p.1, f p.2)

@[simp] theorem gets_apply {α : Type} (f : BootGlobals → α) (p : BootState) :
    gets f p = .ret (f p.2) p := rfl

@[simp] theorem modify_apply (f : BootGlobals → BootGlobals) (p : BootState) :
    modify f p = .ret () (p.1, f p.2) := rfl

/-! ## Contexts and memory -/

/-- The bookkeeping of the host contexts. -/
def onHosts (f : HostContexts → HostContexts) : Boot Unit :=
  Routine.modify fun p => (p.1.withHosts (f p.1.hosts), p.2)

@[simp] theorem onHosts_apply (f : HostContexts → HostContexts) (p : BootState) :
    onHosts f p = .ret () (p.1.withHosts (f p.1.hosts), p.2) := rfl

/-- `HostContext::InitializeScheduler(&g_scheduler)`. -/
def initializeScheduler : Boot Bool := do
  let h ← Routine.gets fun p => p.1.hosts
  if h.current ≠ 0 then return false
  onHosts fun hosts => { hosts with next := h.next + 1 }
  if h.grants h.next = false then return false
  onHosts fun hosts =>
    { hosts with live := Function.update hosts.live h.next true, current := h.next }
  modify (·.withScheduler h.next)
  return true

/-- `HostContext::ShutdownScheduler`. -/
def shutdownScheduler (scheduler : Handle) : Boot Unit := do
  if scheduler = 0 then return ()
  onHosts fun hosts =>
    { hosts with
      current := if hosts.current = scheduler then 0 else hosts.current
      live := Function.update hosts.live scheduler false }

/-- `Memory::Init` of the regions of a Wii, which ends the process when the host refuses. -/
def memoryInit (env : HostEnv) : Boot Unit := fun p =>
  match Memory.init env wiiDefaults p.1.mem with
  | none => .stop (.boundary "Memory::Init" 0#32) p
  | some m => .ret () (p.1.withMem m, p.2)

/-- `Memory::Reset`. -/
def memoryReset : Boot Unit := Routine.modify fun p => (p.1.withMem p.1.mem.reset, p.2)

@[simp] theorem memoryReset_apply (p : BootState) :
    memoryReset p = .ret () (p.1.withMem p.1.mem.reset, p.2) := rfl

@[simp] theorem lift_isInitialized (p : BootState) :
    lift isInitialized p = .ret p.1.mem.initialized p := rfl

/-! ## The worker -/

/-- The loop at the end of `worker_entry`, for so many turns. -/
def workerLoop : Nat → Boot Unit
  | 0 => Routine.stop .diverge
  | n + 1 => do
    lift (hostSwitch (← gets (·.scheduler)))
    workerLoop n

/-- `worker_entry`. -/
def workerEntry (turns : Nat) : Boot Unit := do
  modify (·.withPhase 1)
  lift (hostSwitch (← gets (·.scheduler)))
  modify (·.withPhase 2)
  lift (hostSwitch (← gets (·.scheduler)))
  workerLoop turns

/-! ## The start -/

/-- What the host answers during one start. -/
structure Answers where
  services : HostServices
  memory : HostEnv

/-- The scheduler and the worker context, or neither and no memory. -/
def bringUpContexts : Boot Bool := do
  modify (·.withPhase 0)
  let schedulerReady ← initializeScheduler
  if schedulerReady = false then
    memoryReset
    return false
  let worker ← lift (hostCreate 0#32)
  modify (·.withWorker worker)
  if worker = 0 then
    shutdownScheduler (← gets (·.scheduler))
    modify (·.withScheduler 0)
    memoryReset
    return false
  return true

/-- The services, the memory and the contexts; whether to go on. -/
def bringUp (linked : Linked) (host : Answers) : Boot (BootResult × Bool) := do
  let g ← gets (·.services)
  let services := initializeServices host.services g
  modify (·.withServices services.2)
  let r := BootResult.opened linked services.1
  if !r.lifecycleReady || !r.filesystemReady || !r.timingReady || !r.inputReady then
    return (r, false)
  memoryInit host.memory
  let ready ← lift isInitialized
  if ready = false then return (r, false)
  let up ← bringUpContexts
  return (r.upTo up, up)

/-- The second switch to the worker. -/
def continueWorker : Boot Bool := do
  lift (hostSwitch (← gets (·.worker)))
  gets fun g => decide (g.workerPhase = 2)

/-- The switches to the worker, and its end. -/
def handOff (r : BootResult) : Boot BootResult := do
  lift (hostSwitch (← gets (·.worker)))
  let firstHandoff ← gets fun g => decide (g.workerPhase = 1)
  let continuation ← if firstHandoff then continueWorker else pure false
  lift (hostDestroy (← gets (·.worker)))
  modify (·.withWorker 0)
  return r.handed firstHandoff continuation

/-- A call into a product, which is noted. -/
def callProduct {α : Type} (entry : Machine Memory → α × Machine Memory)
    (note : Memory → α → BootEvent) : Boot α := fun p =>
  .ret (entry p.1).1 ((entry p.1).2, p.2.noting (note p.1.mem (entry p.1).1))

/-- `run_data_initializer`. -/
def runDataInitializer (api : Option (HandoffApi DataInitializer)) : Boot Bool := do
  match api with
  | none => return false
  | some api =>
    if api.abiVersion ≠ kAbiVersion then return false
    match api.entry with
    | none => return false
    | some entry =>
      lift seedPinnedDefaults
      callProduct entry .dataInit

/-- `run_first_translated_function`. -/
def runFirstTranslatedFunction (api : Option (HandoffApi FirstFunction)) :
    Boot (Bool × ProbeResult) := do
  let zero : ProbeResult := ⟨0#32, 0#32, 0#32, 0#32, 0#32, 0#32⟩
  match api with
  | none => return (false, zero)
  | some api =>
    if api.abiVersion ≠ kAbiVersion then return (false, zero)
    match api.entry with
    | none => return (false, zero)
    | some entry => callProduct entry fun _ answer => .firstFunction answer.1

/-- The execution of the first translated function, behind initialized data sections. -/
def execute (linked : Linked) (r : BootResult) : Boot BootResult := do
  if !r.execution.linked || !r.execution.abiCompatible || !r.execution.available then
    return r.stoppedAt .waitingForTranslatedExecution
  let (passed, probe) ← runFirstTranslatedFunction linked.execution
  return r.executed passed probe

/-- As far as the linked products allow. -/
def runProducts (linked : Linked) (r : BootResult) : Boot BootResult := do
  if !coreReady r then return r
  if !r.product.linked then return r.stoppedAt .waitingForTranslatedProduct
  if !r.product.abiCompatible then return r
  if !r.dataInitHandoffEnabled then return r.stoppedAt .translatedProductLinked
  if !r.dataInit.linked || !r.dataInit.abiCompatible || !r.dataInit.available then
    return r.stoppedAt .waitingForDataInitializer
  let initialized ← runDataInitializer linked.dataInit
  if initialized && r.executionHandoffEnabled then execute linked (r.tried initialized)
  else return r.tried initialized

/-- `runtime_bootstrap::start`. -/
def start (linked : Linked) (host : Answers) : Boot BootResult := do
  let (r, up) ← bringUp linked host
  if !up then return r
  let r ← handOff r
  runProducts linked (r.inspected linked)

/-! ## The stop -/

def stopWorker : Boot Unit := do
  let worker ← gets (·.worker)
  if worker = 0 then return ()
  lift (hostDestroy worker)
  modify (·.withWorker 0)

def stopScheduler : Boot Unit := do
  let scheduler ← gets (·.scheduler)
  if scheduler = 0 then return ()
  shutdownScheduler scheduler
  modify (·.withScheduler 0)

def stopMemory : Boot Unit := do
  let ready ← lift isInitialized
  if ready = true then memoryReset

/-- `runtime_bootstrap::stop`. -/
def stop : Boot Unit := do
  stopWorker
  stopScheduler
  stopMemory
  modify (·.withPhase 0)

end Boot

end wii_switch
