-- The liveness files of a run (source/fast_track_crash_diagnostics.cpp). Each translated
-- dispatch is counted, and some leave a record: the first dispatch of main, the first one behind
-- it, a last one that is sure to be on the card, a bounded trace, and a heartbeat. The card may
-- refuse to open or to remove a file, and a write may stop early.
import WiiSwitch.Machine
import WiiSwitch.NandPaths
import WiiSwitch.Lib.Journal

namespace wii_switch

open Bytes

/-! ## The files -/

/-- The files below `sdmc:/switch/WiiCompiled-Switch/`. -/
inductive LivenessPath where
  | dispatch
  | exception
  | heartbeat
  | mainReached
  | postMainDispatch
  | postMainLastDispatch
  | postMainTrace
deriving DecidableEq

/-- The registers that the records show. -/
structure ShownRegisters where
  pc : Word
  r1 : Word
  r2 : Word
  r3 : Word
  r13 : Word
deriving DecidableEq

/-- Zeros when there is no register file. -/
def shownRegisters : Option CpuContext → ShownRegisters
  | some cpu => ⟨cpu.pc, cpu.gpr 1, cpu.gpr 2, cpu.gpr 3, cpu.gpr 13⟩
  | none => ⟨0, 0, 0, 0, 0⟩

structure LivenessRecord where
  title : String
  dispatchCount : Word64
  postMainDispatch : Word64
  target : Word
  registers : ShownRegisters
  stage : List Byte
  mainReached : Bool

structure TraceLine where
  index : Word64
  postMain : Word64
  dispatch : Word64
  target : Word
  registers : ShownRegisters
  stage : List Byte
  phase : String

/-- The bytes of the files that are there. -/
abbrev LivenessFiles := LivenessPath → Option (List Byte)

/-- The answers of the host during one dispatch: the files that it removes and opens, how many
bytes of a text it takes before a write fails, and its clock. -/
structure LivenessHost where
  unlinks : LivenessPath → Bool
  opens : LivenessPath → Bool
  takes : LivenessPath → Nat
  takesHeader : Nat
  now : Word64
  frequency : Word64

/-! ## The texts -/

def kPalMainAddress : Word := 0x8000B6B0#32

/-- `%llu` -/
def decimal (n : Word64) : List Byte := (Nat.toDigits 10 n.toNat).map fun c =>
    BitVec.ofNat 8 c.toNat

/-- `%02llu` -/
def decimal2 (n : Word64) : List Byte := if n < 10#64 then 0x30#8 :: decimal n else decimal n

/-- `0x%08x` -/
def hex8 (x : Word) : List Byte := ascii "0x" ++ hexWord x

/-- A line of a record. -/
def recordLine (label : String) (value : List Byte) : List Byte := ascii label ++ value ++ [0x0A#8]

/-- The text that `write_liveness_record` formats. -/
def LivenessRecord.text (r : LivenessRecord) : List Byte :=
  recordLine r.title [] ++
  recordLine "========================================" [] ++
  recordLine "dispatch count        : " (decimal r.dispatchCount) ++
  recordLine "post-main dispatch    : " (decimal r.postMainDispatch) ++
  recordLine "last target           : " (hex8 r.target) ++
  recordLine "guest pc              : " (hex8 r.registers.pc) ++
  recordLine "r1                    : " (hex8 r.registers.r1) ++
  recordLine "r2                    : " (hex8 r.registers.r2) ++
  recordLine "r3                    : " (hex8 r.registers.r3) ++
  recordLine "r13                   : " (hex8 r.registers.r13) ++
  recordLine "fast-track stage      : " r.stage ++
  recordLine "PAL main              : " (hex8 kPalMainAddress) ++
  recordLine "main reached          : " (ascii (if r.mainReached then "YES" else "NO"))

/-- The text that `format_post_main_trace_line` formats. -/
def TraceLine.text (l : TraceLine) : List Byte :=
  ascii "[" ++ decimal2 l.index ++ ascii "] post-main=" ++ decimal l.postMain ++
  ascii " dispatch=" ++ decimal l.dispatch ++ ascii " target=" ++ hex8 l.target ++
  ascii " pc=" ++ hex8 l.registers.pc ++ ascii " r1=" ++ hex8 l.registers.r1 ++
  ascii " r2=" ++ hex8 l.registers.r2 ++ ascii " r3=" ++ hex8 l.registers.r3 ++
  ascii " r13=" ++ hex8 l.registers.r13 ++ ascii " stage=" ++ l.stage ++
  recordLine " phase=" (ascii l.phase)

/-- `kHeader` -/
def traceHeader : List Byte :=
  recordLine "WiiCompiled-Switch bounded post-main translated trace" [] ++
  recordLine "=====================================================" []

/-- What `snprintf` leaves of a text in a buffer of so many bytes, before the zero. -/
def snprintf (capacity : Nat) (text : List Byte) : List Byte := text.take (capacity - 1)

/-- What `write_all` brings to the file: a write that fails ends it. -/
def writeAll (takes : Nat) (data : List Byte) : List Byte := data.take takes

/-- The record in its file. -/
def LivenessHost.written (host : LivenessHost) (path : LivenessPath) (r : LivenessRecord) :
    List Byte := writeAll (host.takes path) (snprintf 1024 r.text)

/-- The line in the trace. -/
def LivenessHost.writtenLine (host : LivenessHost) (l : TraceLine) : List Byte :=
  writeAll (host.takes .postMainTrace) (snprintf 512 l.text)

/-! ## The globals -/

def kDurableEarlyPostMainDispatches : Word64 := 16#64
def kDensePostMainTraceDispatches : Word64 := 48#64
def kMaxPostMainTraceEntries : Word64 := 64#64

/-- `post_main_phase_name`. -/
def postMainPhaseName (target : Word) : String :=
  if target = 0x80008EF0#32 then "System::RKSystem::main"
  else if target = 0x80008FB4#32 then "EGG::BaseSystem::initialize"
  else if target = 0x80009194#32 then "System::RKSystem::initialize"
  else if target = 0x8000951C#32 then "System::RKSystem::run"
  else if target = 0x80243D18#32 then "EGG::Video::initialize"
  else if target = 0x80243D6C#32 then "EGG::Video::configure"
  else "-"

/-- `is_durable_post_main_phase_target`. -/
def isDurablePostMainPhaseTarget (target : Word) : Bool :=
  target ∈ [0x80008EF0#32, 0x80008FB4#32, 0x80009194#32, 0x8000951C#32, 0x80243D18#32,
    0x80243D6C#32, 0x808897F0#32, 0x802226D8#32, 0x805C3218#32, 0x805E7460#32, 0x8063C470#32,
    0x8063C4D4#32, 0x8063C560#32, 0x8063C714#32, 0x80198CA8#32, 0x80199038#32, 0x801992A8#32,
    0x801998A4#32, 0x80226C78#32, 0x80226EBC#32, 0x80229814#32, 0x80229C5C#32, 0x80229DCC#32,
    0x80229DD8#32, 0x801A7424#32, 0x80672CC8#32]

/-- The name of a stage. It leaves room for the rest of a text within the range of `int`, so
`snprintf` does not fail. -/
structure StageName where
  bytes : List Byte
  short : bytes.length < 2 ^ 30

/-- A null pointer has a name of its own. -/
def stageBytes : Option StageName → List Byte
  | some stage => stage.bytes
  | none => ascii "<null>"

/-- The globals of the source file. -/
structure LivenessGlobals where
  fastTrackStage : List Byte
  livenessFilesReset : Bool
  mainReached : Bool
  postMainDispatchRecorded : Bool
  dispatchCount : Word64
  postMainDispatchCount : Word64
  postMainTraceEntries : Word64
  lastHeartbeatTick : Word64

def LivenessGlobals.start : LivenessGlobals :=
  ⟨ascii "PROCESS_START", false, false, false, 0, 0, 0, 0⟩

/-- The globals, and the files on the card. -/
structure Liveness where
  globals : LivenessGlobals
  files : LivenessFiles

namespace Liveness

def withGlobals (t : Liveness) (g : LivenessGlobals) : Liveness := ⟨g, t.files⟩

@[simp] theorem withGlobals_globals (t : Liveness) (g : LivenessGlobals) :
    (t.withGlobals g).globals = g := rfl

@[simp] theorem withGlobals_files (t : Liveness) (g : LivenessGlobals) :
    (t.withGlobals g).files = t.files := rfl

/-- `mkw_switch_set_fast_track_stage`. -/
def setFastTrackStage (stage : Option StageName) (t : Liveness) : Liveness :=
  t.withGlobals { t.globals with fastTrackStage := stageBytes stage }

/-- `reset_liveness_files_once`. A file that the host does not remove stays. -/
def resetLivenessFilesOnce (host : LivenessHost) (t : Liveness) : Liveness :=
  if t.globals.livenessFilesReset then t
  else ⟨{ t.globals with livenessFilesReset := true },
    fun path => if host.unlinks path then none else t.files path⟩

/-- The record that the globals stand for. -/
def recordOf (g : LivenessGlobals) (title : String) (target : Word) (cpu : Option CpuContext) :
    LivenessRecord :=
  ⟨title, g.dispatchCount, g.postMainDispatchCount, target, shownRegisters cpu, g.fastTrackStage,
    g.mainReached⟩

/-- `write_liveness_record`, which truncates the file. -/
def writeLivenessRecord (host : LivenessHost) (path : LivenessPath) (title : String)
    (target : Word) (cpu : Option CpuContext) (t : Liveness) : Liveness :=
  if host.opens path then
    ⟨t.globals, Function.update t.files path
      (some (host.written path (recordOf t.globals title target cpu)))⟩
  else t

/-- `append_post_main_trace`. -/
def appendPostMainTrace (host : LivenessHost) (target : Word) (cpu : Option CpuContext)
    (phaseTarget : Bool) (t : Liveness) : Liveness :=
  if kMaxPostMainTraceEntries ≤ t.globals.postMainTraceEntries then t
  else if kDensePostMainTraceDispatches < t.globals.postMainDispatchCount ∧ ¬phaseTarget then t
  else if ¬host.opens .postMainTrace then t
  else
    let header :=
      if t.globals.postMainTraceEntries = 0 then writeAll host.takesHeader traceHeader else []
    let g := { t.globals with postMainTraceEntries := t.globals.postMainTraceEntries + 1 }
    let line : TraceLine := ⟨g.postMainTraceEntries, g.postMainDispatchCount, g.dispatchCount,
      target, shownRegisters cpu, g.fastTrackStage, postMainPhaseName target⟩
    ⟨g, Function.update t.files .postMainTrace
      (some ((t.files .postMainTrace).getD [] ++ header ++ host.writtenLine line))⟩

/-- The first dispatch of main. -/
def noteMain (host : LivenessHost) (target : Word) (cpu : Option CpuContext) (t : Liveness) :
    Liveness :=
  if target = kPalMainAddress ∧ ¬t.globals.mainReached then
    (t.withGlobals { t.globals with
      mainReached := true
      fastTrackStage := ascii "GUEST_MAIN_REACHED" }).writeLivenessRecord host .mainReached
        "WiiCompiled-Switch PAL main reached" target cpu
  else t

/-- The first dispatch behind main. -/
def noteFirstPostMain (host : LivenessHost) (target : Word) (cpu : Option CpuContext)
    (t : Liveness) : Liveness :=
  if t.globals.postMainDispatchRecorded then t
  else
    (t.withGlobals { t.globals with
      postMainDispatchRecorded := true
      fastTrackStage := ascii "GUEST_POST_MAIN_ACTIVE" }).writeLivenessRecord host .postMainDispatch
        "WiiCompiled-Switch first post-main translated dispatch" target cpu

/-- The last dispatch behind main that is sure to be on the card. -/
def noteSnapshot (host : LivenessHost) (target : Word) (cpu : Option CpuContext)
    (phaseTarget : Bool) (t : Liveness) : Liveness :=
  if t.globals.postMainDispatchCount ≤ kDurableEarlyPostMainDispatches ∨ phaseTarget then
    t.writeLivenessRecord host .postMainLastDispatch
      "WiiCompiled-Switch durable post-main translated dispatch" target cpu
  else t

/-- A dispatch behind main. -/
def notePostMain (host : LivenessHost) (target : Word) (cpu : Option CpuContext) (t : Liveness) :
    Liveness :=
  let phaseTarget := isDurablePostMainPhaseTarget target
  (((t.withGlobals { t.globals with
    postMainDispatchCount := t.globals.postMainDispatchCount + 1 }).noteFirstPostMain host target
      cpu).noteSnapshot host target cpu phaseTarget).appendPostMainTrace host target cpu phaseTarget

/-- The heartbeat, when it is due or something first happened. -/
def noteHeartbeat (host : LivenessHost) (target : Word) (cpu : Option CpuContext)
    (firstPostMainDispatch : Bool) (t : Liveness) : Liveness :=
  if (t.globals.lastHeartbeatTick = 0 ∨ host.frequency = 0 ∨
      host.frequency ≤ host.now - t.globals.lastHeartbeatTick) ∨ target = kPalMainAddress ∨
      firstPostMainDispatch then
    (t.withGlobals { t.globals with lastHeartbeatTick := host.now }).writeLivenessRecord host
      .heartbeat "WiiCompiled-Switch translated liveness heartbeat" target cpu
  else t

/-- The dispatch is counted, after the files of the runs before are removed. -/
def counted (host : LivenessHost) (t : Liveness) : Liveness :=
  let t := t.resetLivenessFilesOnce host
  t.withGlobals { t.globals with dispatchCount := t.globals.dispatchCount + 1 }

/-- `mkw_switch_note_translated_dispatch`. -/
def noteTranslatedDispatch (host : LivenessHost) (target : Word) (cpu : Option CpuContext)
    (t : Liveness) : Liveness :=
  let t := (t.counted host).noteMain host target cpu
  let postMainDispatch := t.globals.mainReached && target ≠ kPalMainAddress
  let firstPostMainDispatch := postMainDispatch && !t.globals.postMainDispatchRecorded
  let t := if postMainDispatch then t.notePostMain host target cpu else t
  t.noteHeartbeat host target cpu firstPostMainDispatch

end Liveness

/-! ## Histories -/

/-- A dispatch, with the answers of the host during it. -/
structure NotedDispatch where
  host : LivenessHost
  target : Word
  cpu : Option CpuContext

inductive LivenessEvent where
  | setStage (stage : Option StageName)
  | dispatch (d : NotedDispatch)

def LivenessEvent.step : LivenessEvent → Liveness → Liveness
  | .setStage stage, t => t.setFastTrackStage stage
  | .dispatch d, t => t.noteTranslatedDispatch d.host d.target d.cpu

/-- A run of the process, newest event first. -/
def livenessRun (files : LivenessFiles) (h : List LivenessEvent) : Liveness :=
  h.foldr LivenessEvent.step ⟨.start, files⟩

/-- The dispatches of a history, newest first. -/
def dispatchesOf : List LivenessEvent → List NotedDispatch
  | [] => []
  | .setStage _ :: h => dispatchesOf h
  | .dispatch d :: h => d :: dispatchesOf h

/-- The history has a dispatch of main. -/
def ReachedMain (h : List LivenessEvent) : Prop :=
  ∃ d ∈ dispatchesOf h, d.target = kPalMainAddress

instance (h : List LivenessEvent) : Decidable (ReachedMain h) :=
  inferInstanceAs (Decidable (∃ d ∈ dispatchesOf h, d.target = kPalMainAddress))

/-- After the history the dispatch comes behind main. -/
def BehindMain (h : List LivenessEvent) (d : NotedDispatch) : Prop :=
  ReachedMain h ∧ d.target ≠ kPalMainAddress

instance (h : List LivenessEvent) (d : NotedDispatch) : Decidable (BehindMain h d) :=
  inferInstanceAs (Decidable (_ ∧ _))

/-- How many dispatches came behind main. -/
def behindMain : List LivenessEvent → Nat
  | [] => 0
  | .setStage _ :: h => behindMain h
  | .dispatch d :: h => if BehindMain h d then behindMain h + 1 else behindMain h

/-- The stage that was set last. -/
def stageOf : List LivenessEvent → List Byte
  | [] => ascii "PROCESS_START"
  | .setStage stage :: _ => stageBytes stage
  | .dispatch d :: h =>
    if d.target = kPalMainAddress ∧ ¬ReachedMain h then ascii "GUEST_MAIN_REACHED"
    else if BehindMain h d ∧ behindMain h = 0 then ascii "GUEST_POST_MAIN_ACTIVE"
    else stageOf h

/-- A dispatch with its place among all of them and among those behind main, and the stage. -/
structure PlacedDispatch where
  place : Nat
  number : Nat
  stage : List Byte
  dispatch : NotedDispatch

def placed (h : List LivenessEvent) (d : NotedDispatch) : PlacedDispatch :=
  ⟨(dispatchesOf h).length + 1, behindMain (.dispatch d :: h), stageOf (.dispatch d :: h), d⟩

/-- The first dispatch of main. -/
def firstMain : List LivenessEvent → Option PlacedDispatch
  | [] => none
  | .setStage _ :: h => firstMain h
  | .dispatch d :: h =>
    if d.target = kPalMainAddress ∧ ¬ReachedMain h then some (placed h d) else firstMain h

/-- The dispatches behind main, newest first. -/
def postMains : List LivenessEvent → List PlacedDispatch
  | [] => []
  | .setStage _ :: h => postMains h
  | .dispatch d :: h => if BehindMain h d then placed h d :: postMains h else postMains h

/-! ## What the files show -/

/-- The files that the first dispatch leaves of the runs before. -/
def remaining (files : LivenessFiles) (h : List LivenessEvent) : LivenessFiles :=
  match (dispatchesOf h).getLast? with
  | none => files
  | some d => fun path => if d.host.unlinks path then none else files path

/-- The record of a dispatch that reached main or came behind it. -/
def PlacedDispatch.record (title : String) (p : PlacedDispatch) : LivenessRecord :=
  ⟨title, BitVec.ofNat 64 p.place, BitVec.ofNat 64 p.number, p.dispatch.target,
    shownRegisters p.dispatch.cpu, p.stage, true⟩

/-- What the host took of the record, in a file that it opened for it. -/
def PlacedDispatch.file (path : LivenessPath) (title : String) (p : PlacedDispatch) :
    Option (List Byte) :=
  if p.dispatch.host.opens path then some (p.dispatch.host.written path (p.record title)) else none

/-- A dispatch that is for the last record. -/
def PlacedDispatch.Durable (p : PlacedDispatch) : Bool :=
  (p.number ≤ 16 ∨ isDurablePostMainPhaseTarget p.dispatch.target) ∧
    p.dispatch.host.opens .postMainLastDispatch

/-- A dispatch that is for the trace. -/
def PlacedDispatch.Traced (p : PlacedDispatch) : Bool :=
  (p.number ≤ 48 ∨ isDurablePostMainPhaseTarget p.dispatch.target) ∧
    p.dispatch.host.opens .postMainTrace

/-- The dispatches in the trace, oldest first. -/
def traced (h : List LivenessEvent) : List PlacedDispatch :=
  Journal.kept 64 PlacedDispatch.Traced (postMains h).reverse

def PlacedDispatch.line (index : Nat) (p : PlacedDispatch) : TraceLine :=
  ⟨BitVec.ofNat 64 index, BitVec.ofNat 64 p.number, BitVec.ofNat 64 p.place, p.dispatch.target,
    shownRegisters p.dispatch.cpu, p.stage, postMainPhaseName p.dispatch.target⟩

/-- The trace: behind what was left a header, and the lines with their numbers. -/
def traceFile (left : Option (List Byte)) : List PlacedDispatch → Option (List Byte)
  | [] => left
  | p :: ps => some (left.getD [] ++ writeAll p.dispatch.host.takesHeader traceHeader ++
      ((p :: ps).mapIdx fun i p => p.dispatch.host.writtenLine (p.line (i + 1))).flatten)

/-- The globals after a history, but for the clock of the heartbeat. -/
structure Told (h : List LivenessEvent) (g : LivenessGlobals) : Prop where
  stage : g.fastTrackStage = stageOf h
  reset : g.livenessFilesReset = decide (dispatchesOf h ≠ [])
  reached : g.mainReached = decide (ReachedMain h)
  recorded : g.postMainDispatchRecorded = decide (0 < behindMain h)
  dispatches : g.dispatchCount = BitVec.ofNat 64 (dispatchesOf h).length
  behind : g.postMainDispatchCount = BitVec.ofNat 64 (behindMain h)
  entries : g.postMainTraceEntries = BitVec.ofNat 64 (traced h).length

/-- The files after a history with a dispatch in it, over those that are left of the runs before:
a file that could not be opened stays as it was. -/
structure FilesTell (left : LivenessFiles) (h : List LivenessEvent) (files : LivenessFiles) :
    Prop where
  main : files .mainReached = ((firstMain h).bind
    (·.file .mainReached "WiiCompiled-Switch PAL main reached")).or (left .mainReached)
  first : files .postMainDispatch = ((postMains h).getLast?.bind
    (·.file .postMainDispatch "WiiCompiled-Switch first post-main translated dispatch")).or
      (left .postMainDispatch)
  last : files .postMainLastDispatch = (((postMains h).find? PlacedDispatch.Durable).bind
    (·.file .postMainLastDispatch "WiiCompiled-Switch durable post-main translated dispatch")).or
      (left .postMainLastDispatch)
  trace : files .postMainTrace = traceFile (left .postMainTrace) (traced h)
  dispatch : files .dispatch = left .dispatch
  exception : files .exception = left .exception

section

variable {host : LivenessHost} {path other : LivenessPath} {title : String} {target : Word}
  {cpu : Option CpuContext} {phaseTarget first : Bool} {t : Liveness}

/-! ## What the parts leave -/

namespace Liveness

@[simp] theorem writeLivenessRecord_globals :
    (t.writeLivenessRecord host path title target cpu).globals = t.globals := by
  unfold writeLivenessRecord
  split <;> rfl

theorem writeLivenessRecord_files : (t.writeLivenessRecord host path title target cpu).files path =
    if host.opens path then some (host.written path (recordOf t.globals title target cpu))
    else t.files path := by
  unfold writeLivenessRecord
  split <;> simp

theorem writeLivenessRecord_other (h : other ≠ path) :
    (t.writeLivenessRecord host path title target cpu).files other = t.files other := by
  unfold writeLivenessRecord
  split <;> simp [h]

theorem noteHeartbeat_other (h : other ≠ .heartbeat) :
    (t.noteHeartbeat host target cpu first).files other = t.files other := by
  unfold noteHeartbeat
  split
  · exact writeLivenessRecord_other h
  · rfl

theorem noteHeartbeat_globals (host : LivenessHost) (target : Word) (cpu : Option CpuContext)
    (first : Bool) (t : Liveness) : ∃ tick, (t.noteHeartbeat host target cpu first).globals =
      { t.globals with lastHeartbeatTick := tick } := by
  unfold noteHeartbeat
  split
  · exact ⟨host.now, by simp⟩
  · exact ⟨t.globals.lastHeartbeatTick, rfl⟩

theorem appendPostMainTrace_other (h : other ≠ .postMainTrace) :
    (t.appendPostMainTrace host target cpu phaseTarget).files other = t.files other := by
  unfold appendPostMainTrace
  repeat' split
  all_goals simp [h]

theorem noteSnapshot_globals :
    (t.noteSnapshot host target cpu phaseTarget).globals = t.globals := by
  unfold noteSnapshot
  split <;> simp

theorem noteSnapshot_other (h : other ≠ .postMainLastDispatch) :
    (t.noteSnapshot host target cpu phaseTarget).files other = t.files other := by
  unfold noteSnapshot
  split
  · exact writeLivenessRecord_other h
  · rfl

theorem noteFirstPostMain_globals : (t.noteFirstPostMain host target cpu).globals =
    { t.globals with
      postMainDispatchRecorded := true
      fastTrackStage := if t.globals.postMainDispatchRecorded then t.globals.fastTrackStage
        else ascii "GUEST_POST_MAIN_ACTIVE" } := by
  unfold noteFirstPostMain
  split
  · rename_i h
    rw [← h]
  · simp

theorem noteFirstPostMain_other (h : other ≠ .postMainDispatch) :
    (t.noteFirstPostMain host target cpu).files other = t.files other := by
  unfold noteFirstPostMain
  split
  · rfl
  · exact writeLivenessRecord_other h

theorem noteMain_globals : (t.noteMain host target cpu).globals =
    if target = kPalMainAddress ∧ ¬t.globals.mainReached then
      { t.globals with mainReached := true, fastTrackStage := ascii "GUEST_MAIN_REACHED" }
    else t.globals := by
  unfold noteMain
  split <;> simp

theorem noteMain_other (h : other ≠ .mainReached) :
    (t.noteMain host target cpu).files other = t.files other := by
  unfold noteMain
  split
  · exact writeLivenessRecord_other h
  · rfl

theorem counted_globals : (t.counted host).globals = { t.globals with
    livenessFilesReset := true, dispatchCount := t.globals.dispatchCount + 1 } := by
  unfold counted resetLivenessFilesOnce
  split
  · rename_i h
    rw [withGlobals_globals, ← h]
  · rfl

theorem counted_files : (t.counted host).files =
    if t.globals.livenessFilesReset then t.files
    else fun path => if host.unlinks path then none else t.files path := by
  unfold counted resetLivenessFilesOnce
  split <;> rfl

/-- A dispatch of main is not behind it. -/
theorem note_main (htarget : target = kPalMainAddress) :
    t.noteTranslatedDispatch host target cpu =
      ((t.counted host).noteMain host target cpu).noteHeartbeat host target cpu false := by
  unfold noteTranslatedDispatch
  simp [htarget]

/-- A dispatch behind main. -/
theorem note_behind (htarget : target ≠ kPalMainAddress)
    (hreached : t.globals.mainReached = true) :
    t.noteTranslatedDispatch host target cpu =
      ((t.counted host).notePostMain host target cpu).noteHeartbeat host target cpu
        (!t.globals.postMainDispatchRecorded) := by
  have hmain : (t.counted host).noteMain host target cpu = t.counted host := by
    simp [noteMain, htarget]
  unfold noteTranslatedDispatch
  simp [hmain, htarget, hreached, counted_globals]

/-- A dispatch before main. -/
theorem note_before (htarget : target ≠ kPalMainAddress)
    (hreached : t.globals.mainReached = false) : t.noteTranslatedDispatch host target cpu =
      (t.counted host).noteHeartbeat host target cpu false := by
  have hmain : (t.counted host).noteMain host target cpu = t.counted host := by
    simp [noteMain, htarget]
  unfold noteTranslatedDispatch
  simp [hmain, htarget, hreached, counted_globals]

/-- A dispatch for the trace that finds room. -/
theorem append_takes (hroom : t.globals.postMainTraceEntries < kMaxPostMainTraceEntries)
    (hwanted : t.globals.postMainDispatchCount ≤ kDensePostMainTraceDispatches ∨
      phaseTarget = true) (hopen : host.opens .postMainTrace = true) :
    t.appendPostMainTrace host target cpu phaseTarget =
      ⟨{ t.globals with postMainTraceEntries := t.globals.postMainTraceEntries + 1 },
        Function.update t.files .postMainTrace (some ((t.files .postMainTrace).getD [] ++
          (if t.globals.postMainTraceEntries = 0 then writeAll host.takesHeader traceHeader
            else []) ++
          host.writtenLine ⟨t.globals.postMainTraceEntries + 1, t.globals.postMainDispatchCount,
            t.globals.dispatchCount, target, shownRegisters cpu, t.globals.fastTrackStage,
            postMainPhaseName target⟩))⟩ := by
  have hfull : ¬kMaxPostMainTraceEntries ≤ t.globals.postMainTraceEntries :=
    BitVec.not_le.mpr hroom
  have hdense : ¬(kDensePostMainTraceDispatches < t.globals.postMainDispatchCount ∧
      ¬phaseTarget = true) := by
    rintro ⟨hlate, hphase⟩
    rcases hwanted with h | h
    · exact BitVec.not_le.mpr hlate h
    · exact hphase h
  unfold appendPostMainTrace
  rw [if_neg hfull, if_neg hdense, if_neg (by simp [hopen])]

/-- Any other dispatch leaves the trace. -/
theorem append_skips (h : ¬(t.globals.postMainTraceEntries < kMaxPostMainTraceEntries ∧
      (t.globals.postMainDispatchCount ≤ kDensePostMainTraceDispatches ∨ phaseTarget = true) ∧
      host.opens .postMainTrace = true)) :
    t.appendPostMainTrace host target cpu phaseTarget = t := by
  unfold appendPostMainTrace
  split
  · rfl
  · rename_i hfull
    split
    · rfl
    · rename_i hdense
      rw [if_pos]
      intro hopen
      refine h ⟨BitVec.not_le.mp hfull, ?_, hopen⟩
      by_contra hnone
      rw [not_or, BitVec.not_le] at hnone
      exact hdense hnone

end Liveness

end

/-! ## One event -/

section

variable {files left : LivenessFiles} {h : List LivenessEvent} {d : NotedDispatch} {t : Liveness}
  {g : LivenessGlobals}

theorem reachedMain_dispatch :
    ReachedMain (.dispatch d :: h) ↔ d.target = kPalMainAddress ∨ ReachedMain h := by
  simp [ReachedMain, dispatchesOf]

theorem ofNat_le_iff {n k : Nat} (hn : n < 2 ^ 64) (hk : k < 2 ^ 64) :
    BitVec.ofNat 64 n ≤ BitVec.ofNat 64 k ↔ n ≤ k := by
  rw [BitVec.le_def, BitVec.toNat_ofNat, BitVec.toNat_ofNat, Nat.mod_eq_of_lt hn,
    Nat.mod_eq_of_lt hk]

theorem behindMain_le : behindMain h ≤ (dispatchesOf h).length := by
  induction h with
  | nil => exact le_refl 0
  | cons e h ih =>
    cases e with
    | setStage => exact ih
    | dispatch d =>
      unfold behindMain dispatchesOf
      rw [List.length_cons]
      split <;> omega

theorem dispatchesOf_length_le : (dispatchesOf h).length ≤ h.length := by
  induction h with
  | nil => exact le_refl 0
  | cons e h ih =>
    cases e with
    | setStage => exact Nat.le_succ_of_le ih
    | dispatch d => exact Nat.succ_le_succ ih

/-- A dispatch behind main that is not for the trace, or finds it full, is not in it. -/
theorem traced_behind (hd : BehindMain h d) : traced (.dispatch d :: h) =
    if (traced h).length < 64 ∧ (placed h d).Traced = true then traced h ++ [placed h d]
    else traced h := by
  have hoffers : (postMains (.dispatch d :: h)).reverse = (postMains h).reverse ++
      [placed h d] := by
    simp [postMains, hd]
  unfold traced
  rw [hoffers]
  split
  · rename_i htaken
    exact Journal.kept_concat_of_wanted htaken.2 htaken.1
  · rename_i hleft
    cases hwants : (placed h d).Traced with
    | false => exact Journal.kept_concat_of_unwanted hwants
    | true =>
      apply Journal.kept_concat_of_full
      by_contra hroom
      exact hleft ⟨by omega, hwants⟩

theorem traced_not_behind (hd : ¬BehindMain h d) : traced (.dispatch d :: h) = traced h := by
  simp [traced, postMains, hd]

/-- The globals after a dispatch behind main, but for the trace. -/
def LivenessGlobals.behind (g : LivenessGlobals) : LivenessGlobals :=
  { g with
    postMainDispatchCount := g.postMainDispatchCount + 1
    postMainDispatchRecorded := true
    fastTrackStage := if g.postMainDispatchRecorded then g.fastTrackStage
      else ascii "GUEST_POST_MAIN_ACTIVE" }

/-- The dispatch goes into the trace. -/
def LivenessGlobals.Takes (host : LivenessHost) (target : Word) (g : LivenessGlobals) : Prop :=
  g.postMainTraceEntries < kMaxPostMainTraceEntries ∧
    (g.postMainDispatchCount ≤ kDensePostMainTraceDispatches ∨
      isDurablePostMainPhaseTarget target = true) ∧ host.opens .postMainTrace = true

instance (host : LivenessHost) (target : Word) (g : LivenessGlobals) :
    Decidable (g.Takes host target) := inferInstanceAs (Decidable (_ ∧ _))

/-- The state before the trace. -/
def beforeTrace (d : NotedDispatch) (t : Liveness) : Liveness :=
  ((t.withGlobals { t.globals with
    postMainDispatchCount := t.globals.postMainDispatchCount + 1 }).noteFirstPostMain d.host
      d.target d.cpu).noteSnapshot d.host d.target d.cpu (isDurablePostMainPhaseTarget d.target)

theorem beforeTrace_globals : (beforeTrace d t).globals = t.globals.behind := by
  unfold beforeTrace
  rw [Liveness.noteSnapshot_globals, Liveness.noteFirstPostMain_globals]
  rfl

theorem notePostMain_eq : t.notePostMain d.host d.target d.cpu =
    (beforeTrace d t).appendPostMainTrace
    d.host d.target d.cpu (isDurablePostMainPhaseTarget d.target) := rfl

theorem notePostMain_globals : (t.notePostMain d.host d.target d.cpu).globals =
    { t.globals.behind with
      postMainTraceEntries := if t.globals.behind.Takes d.host d.target then
        t.globals.behind.postMainTraceEntries + 1 else t.globals.behind.postMainTraceEntries } := by
  rw [notePostMain_eq]
  split
  · rename_i htakes
    rw [← beforeTrace_globals (d := d)] at htakes
    rw [Liveness.append_takes htakes.1 htakes.2.1 htakes.2.2, beforeTrace_globals]
  · rename_i hskips
    rw [← beforeTrace_globals (d := d)] at hskips
    rw [Liveness.append_skips hskips, beforeTrace_globals]

/-- The dispatch goes into the trace just when its place says so. -/
theorem Told.takes_iff (ht : Told h g) (hd : BehindMain h d) (hlen : h.length + 1 < 2 ^ 64) :
    g.behind.Takes d.host d.target ↔ (traced h).length < 64 ∧ (placed h d).Traced = true := by
  have hcount : behindMain h + 1 < 2 ^ 64 := by
    have h1 := behindMain_le (h := h)
    have h2 : (dispatchesOf h).length ≤ h.length := dispatchesOf_length_le
    omega
  have hnumber : (placed h d).number = behindMain h + 1 := by
    simp [placed, behindMain, hd]
  have hentries : (traced h).length ≤ 64 := Journal.length_kept_le _
  have hroom : g.behind.postMainTraceEntries < kMaxPostMainTraceEntries ↔
      (traced h).length < 64 := by
    change g.postMainTraceEntries < BitVec.ofNat 64 64 ↔ _
    rw [ht.entries, BitVec.lt_def, BitVec.toNat_ofNat, BitVec.toNat_ofNat]
    omega
  have hdense : g.behind.postMainDispatchCount ≤ kDensePostMainTraceDispatches ↔
      (placed h d).number ≤ 48 := by
    change g.postMainDispatchCount + BitVec.ofNat 64 1 ≤ BitVec.ofNat 64 48 ↔ _
    rw [ht.behind, ← BitVec.ofNat_add, ofNat_le_iff hcount (by omega), hnumber]
  unfold LivenessGlobals.Takes PlacedDispatch.Traced
  rw [hroom, hdense, decide_eq_true_eq]
  rfl

/-- A dispatch leaves the globals as the history tells. -/
theorem Told.dispatch (ht : Told h t.globals) (hlen : h.length + 1 < 2 ^ 64) :
    Told (.dispatch d :: h) (t.noteTranslatedDispatch d.host d.target d.cpu).globals := by
  by_cases htarget : d.target = kPalMainAddress
  · have hnot : ¬BehindMain h d := fun hd => hd.2 htarget
    obtain ⟨tick, htick⟩ := Liveness.noteHeartbeat_globals d.host d.target d.cpu false
      ((t.counted d.host).noteMain d.host d.target d.cpu)
    rw [Liveness.note_main htarget, htick, Liveness.noteMain_globals, Liveness.counted_globals]
    by_cases hreached : ReachedMain h
    · have hflag : t.globals.mainReached = true := by simp [ht.reached, hreached]
      rw [if_neg (by simp [hflag])]
      refine ⟨?_, ?_, ?_, ?_, ?_, ?_, ?_⟩
      · simp [stageOf, hreached, hnot, ht.stage]
      · simp [dispatchesOf]
      · simp [reachedMain_dispatch, htarget, hflag]
      · simp [behindMain, hnot, ht.recorded]
      · simp [dispatchesOf, ht.dispatches, BitVec.ofNat_add]
      · simp [behindMain, hnot, ht.behind]
      · simp [traced_not_behind hnot, ht.entries]
    · have hflag : t.globals.mainReached = false := by simp [ht.reached, hreached]
      rw [if_pos (by simp [hflag, htarget])]
      refine ⟨?_, ?_, ?_, ?_, ?_, ?_, ?_⟩
      · simp [stageOf, hreached, htarget]
      · simp [dispatchesOf]
      · simp [reachedMain_dispatch, htarget]
      · simp [behindMain, hnot, ht.recorded]
      · simp [dispatchesOf, ht.dispatches, BitVec.ofNat_add]
      · simp [behindMain, hnot, ht.behind]
      · simp [traced_not_behind hnot, ht.entries]
  · by_cases hreached : ReachedMain h
    · have hd : BehindMain h d := ⟨hreached, htarget⟩
      have hflag : t.globals.mainReached = true := by simp [ht.reached, hreached]
      obtain ⟨tick, htick⟩ := Liveness.noteHeartbeat_globals d.host d.target d.cpu
        (!t.globals.postMainDispatchRecorded)
          ((t.counted d.host).notePostMain d.host d.target d.cpu)
      rw [Liveness.note_behind htarget hflag, htick, notePostMain_globals, Liveness.counted_globals]
      refine ⟨?_, ?_, ?_, ?_, ?_, ?_, ?_⟩
      · have hfirst : t.globals.postMainDispatchRecorded = decide (0 < behindMain h) := ht.recorded
        by_cases hnone : behindMain h = 0 <;>
          simp [LivenessGlobals.behind, stageOf, hreached, hd, hfirst, ht.stage, hnone]
      · simp [dispatchesOf, LivenessGlobals.behind]
      · simp [reachedMain_dispatch, hreached, LivenessGlobals.behind, hflag]
      · simp [behindMain, hd, LivenessGlobals.behind]
      · simp [dispatchesOf, ht.dispatches, BitVec.ofNat_add, LivenessGlobals.behind]
      · simp [behindMain, hd, ht.behind, BitVec.ofNat_add, LivenessGlobals.behind]
      · have htakes := ht.takes_iff hd hlen
        rw [traced_behind hd]
        change (if t.globals.behind.Takes d.host d.target then t.globals.postMainTraceEntries + 1
          else t.globals.postMainTraceEntries) = _
        by_cases hroom : (traced h).length < 64 ∧ (placed h d).Traced = true
        · rw [if_pos (htakes.mpr hroom), if_pos hroom, ht.entries, List.length_append,
            List.length_singleton, BitVec.ofNat_add]
          rfl
        · rw [if_neg (mt htakes.mp hroom), if_neg hroom, ht.entries]
    · have hnot : ¬BehindMain h d := fun hd => hreached hd.1
      have hflag : t.globals.mainReached = false := by simp [ht.reached, hreached]
      obtain ⟨tick, htick⟩ :=
        Liveness.noteHeartbeat_globals d.host d.target d.cpu false (t.counted d.host)
      rw [Liveness.note_before htarget hflag, htick, Liveness.counted_globals]
      refine ⟨?_, ?_, ?_, ?_, ?_, ?_, ?_⟩
      · simp [stageOf, htarget, hnot, ht.stage]
      · simp [dispatchesOf]
      · simp [reachedMain_dispatch, htarget, hreached, hflag]
      · simp [behindMain, hnot, ht.recorded]
      · simp [dispatchesOf, ht.dispatches, BitVec.ofNat_add]
      · simp [behindMain, hnot, ht.behind]
      · simp [traced_not_behind hnot, ht.entries]

/-! ## One event and the files -/

theorem firstMain_eq_none : firstMain h = none ↔ ¬ReachedMain h := by
  induction h with
  | nil => simp [firstMain, ReachedMain, dispatchesOf]
  | cons e h ih =>
    cases e with
    | setStage => exact ih
    | dispatch d =>
      rw [reachedMain_dispatch]
      unfold firstMain
      by_cases htarget : d.target = kPalMainAddress <;> by_cases hreached : ReachedMain h <;>
        simp_all

theorem postMains_length : (postMains h).length = behindMain h := by
  induction h with
  | nil => rfl
  | cons e h ih =>
    cases e with
    | setStage => exact ih
    | dispatch d =>
      unfold postMains behindMain
      split <;> simp [ih]

theorem postMains_eq_nil : postMains h = [] ↔ behindMain h = 0 := by
  rw [← postMains_length, List.length_eq_zero_iff]

/-- Without a dispatch there is nothing to tell. -/
theorem filesTell_none (hnone : dispatchesOf h = []) : FilesTell left h left := by
  have hmain : firstMain h = none := by
    rw [firstMain_eq_none]
    simp [ReachedMain, hnone]
  have hpost : postMains h = [] := by
    rw [postMains_eq_nil]
    have := behindMain_le (h := h)
    rw [hnone, List.length_nil] at this
    omega
  refine ⟨?_, ?_, ?_, ?_, rfl, rfl⟩ <;> simp [hmain, hpost, traced, traceFile]

theorem remaining_none (hnone : dispatchesOf h = []) :
    remaining files (.dispatch d :: h) = fun path => if d.host.unlinks path then none
      else files path := by
  simp [remaining, dispatchesOf, hnone]

/-- A later dispatch removes nothing. -/
theorem remaining_some (hsome : dispatchesOf h ≠ []) :
    remaining files (.dispatch d :: h) = remaining files h := by
  have hoffers : dispatchesOf (.dispatch d :: h) = d :: dispatchesOf h := rfl
  unfold remaining
  rw [hoffers, List.getLast?_cons_of_ne_nil hsome]

/-- At the first dispatch the files of the runs before are removed. -/
theorem Told.filesTell_counted (ht : Told h t.globals)
    (hsame : dispatchesOf h = [] → t.files = files)
    (hfiles : dispatchesOf h ≠ [] → FilesTell (remaining files h) h t.files) :
    FilesTell (remaining files (.dispatch d :: h)) h (t.counted d.host).files := by
  rw [Liveness.counted_files, ht.reset]
  by_cases hnone : dispatchesOf h = []
  · simp only [hnone, ne_eq, not_true_eq_false, decide_false, Bool.false_eq_true, if_false]
    rw [remaining_none hnone, hsame hnone]
    exact filesTell_none hnone
  · simp only [hnone, ne_eq, not_false_eq_true, decide_true, if_true]
    rw [remaining_some hnone]
    exact hfiles hnone

/-- The record of a dispatch behind main. -/
theorem Told.behind_record (ht : Told h t.globals) (hd : BehindMain h d) (title : String) :
    Liveness.recordOf (t.counted d.host).globals.behind title d.target d.cpu =
      (placed h d).record title := by
  have hfirst : t.globals.postMainDispatchRecorded = decide (0 < behindMain h) := ht.recorded
  have hflag : t.globals.mainReached = true := by simp [ht.reached, hd.1]
  rw [Liveness.counted_globals]
  unfold Liveness.recordOf PlacedDispatch.record placed LivenessGlobals.behind
  by_cases hnone : behindMain h = 0 <;>
    simp [hfirst, hflag, hnone, hd, hd.1, hd.2, behindMain, stageOf, ht.dispatches, ht.behind,
      ht.stage, BitVec.ofNat_add]

/-- The record of the first dispatch of main. -/
theorem Told.main_record (ht : Told h t.globals) (htarget : d.target = kPalMainAddress)
    (hreached : ¬ReachedMain h) (title : String) :
    Liveness.recordOf { (t.counted d.host).globals with
      mainReached := true
      fastTrackStage := ascii "GUEST_MAIN_REACHED" } title d.target d.cpu =
      (placed h d).record title := by
  have hnot : ¬BehindMain h d := fun hd => hd.2 htarget
  rw [Liveness.counted_globals]
  unfold Liveness.recordOf PlacedDispatch.record placed
  simp [hnot, hreached, htarget, behindMain, stageOf, ht.dispatches, ht.behind, BitVec.ofNat_add]

/-- A record that could not be opened leaves what is there. -/
theorem PlacedDispatch.file_or (path : LivenessPath) (title : String) (p : PlacedDispatch)
    (rest : Option (List Byte)) : (p.file path title).or rest =
      if p.dispatch.host.opens path then
        some (p.dispatch.host.written path (p.record title))
      else rest := by
  unfold PlacedDispatch.file
  split <;> rfl

/-- A dispatch of main. -/
theorem FilesTell.main_dispatch (hf : FilesTell left h (t.counted d.host).files)
    (ht : Told h t.globals) (htarget : d.target = kPalMainAddress) :
    FilesTell left (.dispatch d :: h) (t.noteTranslatedDispatch d.host d.target d.cpu).files := by
  have hnot : ¬BehindMain h d := fun hd => hd.2 htarget
  have hpost : postMains (.dispatch d :: h) = postMains h := by simp [postMains, hnot]
  have hflag : (t.counted d.host).globals.mainReached = decide (ReachedMain h) := by
    rw [Liveness.counted_globals]
    exact ht.reached
  have hkeep : ∀ path, path ≠ .heartbeat → path ≠ .mainReached →
      (t.noteTranslatedDispatch d.host d.target d.cpu).files path =
        (t.counted d.host).files path := by
    intro path hbeat hmain
    rw [Liveness.note_main htarget, Liveness.noteHeartbeat_other hbeat,
      Liveness.noteMain_other hmain]
  refine ⟨?_, ?_, ?_, ?_, ?_, ?_⟩
  · rw [Liveness.note_main htarget, Liveness.noteHeartbeat_other (by decide)]
    unfold Liveness.noteMain firstMain
    by_cases hreached : ReachedMain h
    · rw [if_neg (by simp [hflag, hreached]), if_neg (by simp [hreached])]
      exact hf.main
    · rw [if_pos ⟨htarget, by simp [hflag, hreached]⟩, if_pos ⟨htarget, hreached⟩,
        Liveness.writeLivenessRecord_files, Liveness.withGlobals_globals,
        ht.main_record htarget hreached, Liveness.withGlobals_files, hf.main,
        firstMain_eq_none.mpr hreached, Option.bind_some, PlacedDispatch.file_or]
      rfl
  · rw [hkeep _ (by decide) (by decide), hpost]
    exact hf.first
  · rw [hkeep _ (by decide) (by decide), hpost]
    exact hf.last
  · rw [hkeep _ (by decide) (by decide), traced_not_behind hnot]
    exact hf.trace
  · rw [hkeep _ (by decide) (by decide)]
    exact hf.dispatch
  · rw [hkeep _ (by decide) (by decide)]
    exact hf.exception

/-- A dispatch before main. -/
theorem FilesTell.early_dispatch (hf : FilesTell left h (t.counted d.host).files)
    (ht : Told h t.globals) (htarget : d.target ≠ kPalMainAddress) (hreached : ¬ReachedMain h) :
    FilesTell left (.dispatch d :: h) (t.noteTranslatedDispatch d.host d.target d.cpu).files := by
  have hnot : ¬BehindMain h d := fun hd => hreached hd.1
  have hpost : postMains (.dispatch d :: h) = postMains h := by simp [postMains, hnot]
  have hmain : firstMain (.dispatch d :: h) = firstMain h := by simp [firstMain, htarget]
  have hflag : t.globals.mainReached = false := by simp [ht.reached, hreached]
  have hkeep : ∀ path, path ≠ .heartbeat →
      (t.noteTranslatedDispatch d.host d.target d.cpu).files path =
        (t.counted d.host).files path := by
    intro path hbeat
    rw [Liveness.note_before htarget hflag, Liveness.noteHeartbeat_other hbeat]
  refine ⟨?_, ?_, ?_, ?_, ?_, ?_⟩
  · rw [hkeep _ (by decide), hmain]
    exact hf.main
  · rw [hkeep _ (by decide), hpost]
    exact hf.first
  · rw [hkeep _ (by decide), hpost]
    exact hf.last
  · rw [hkeep _ (by decide), traced_not_behind hnot]
    exact hf.trace
  · rw [hkeep _ (by decide)]
    exact hf.dispatch
  · rw [hkeep _ (by decide)]
    exact hf.exception

/-- One more line in the trace. -/
theorem traceFile_concat (ps : List PlacedDispatch) (p : PlacedDispatch) :
    traceFile (left .postMainTrace) (ps ++ [p]) =
      some ((traceFile (left .postMainTrace) ps).getD [] ++
        (if ps.length = 0 then writeAll p.dispatch.host.takesHeader traceHeader else []) ++
        p.dispatch.host.writtenLine (p.line (ps.length + 1))) := by
  cases ps with
  | nil => simp [traceFile]
  | cons q ps => simp [traceFile, List.mapIdx_concat]

/-- The trace after a dispatch behind main. -/
theorem FilesTell.trace_behind (hf : FilesTell left h (t.counted d.host).files)
    (ht : Told h t.globals) (hd : BehindMain h d) (hlen : h.length + 1 < 2 ^ 64) :
    ((t.counted d.host).notePostMain d.host d.target d.cpu).files .postMainTrace =
      traceFile (left .postMainTrace) (traced (.dispatch d :: h)) := by
  have hglobals : (beforeTrace d (t.counted d.host)).globals = (t.counted d.host).globals.behind :=
    beforeTrace_globals
  have hbefore : (beforeTrace d (t.counted d.host)).files .postMainTrace =
      traceFile (left .postMainTrace) (traced h) := by
    unfold beforeTrace
    rw [Liveness.noteSnapshot_other (by decide), Liveness.noteFirstPostMain_other (by decide)]
    exact hf.trace
  have htakes : (t.counted d.host).globals.behind.Takes d.host d.target ↔
      (traced h).length < 64 ∧ (placed h d).Traced = true := by
    rw [Liveness.counted_globals]
    exact ht.takes_iff hd hlen
  have hentries : (t.counted d.host).globals.behind.postMainTraceEntries =
      BitVec.ofNat 64 (traced h).length := by
    rw [Liveness.counted_globals]
    exact ht.entries
  have hshort : (traced h).length ≤ 64 := Journal.length_kept_le _
  rw [notePostMain_eq, traced_behind hd]
  by_cases hroom : (traced h).length < 64 ∧ (placed h d).Traced = true
  · have htaken := htakes.mpr hroom
    rw [← hglobals] at htaken
    have hline : (⟨(t.counted d.host).globals.behind.postMainTraceEntries + 1,
        (t.counted d.host).globals.behind.postMainDispatchCount,
        (t.counted d.host).globals.behind.dispatchCount,
        d.target, shownRegisters d.cpu, (t.counted d.host).globals.behind.fastTrackStage,
        postMainPhaseName d.target⟩ : TraceLine) = (placed h d).line ((traced h).length + 1) := by
      have hrecord := ht.behind_record hd ""
      unfold Liveness.recordOf PlacedDispatch.record at hrecord
      rw [LivenessRecord.mk.injEq] at hrecord
      obtain ⟨_, hplace, hnumber, _, _, hstage, _⟩ := hrecord
      unfold PlacedDispatch.line
      rw [hplace, hnumber, hstage, hentries, BitVec.ofNat_add]
      rfl
    have hzero : BitVec.ofNat 64 (traced h).length = 0 ↔ (traced h).length = 0 := by
      rw [← BitVec.toNat_inj, BitVec.toNat_ofNat]
      change _ = 0 ↔ _
      omega
    rw [Liveness.append_takes htaken.1 htaken.2.1 htaken.2.2, if_pos hroom, hglobals]
    simp only [Function.update_self, hline, hbefore]
    simp only [hentries, hzero, traceFile_concat]
    rfl
  · have hskips := mt htakes.mp hroom
    rw [← hglobals] at hskips
    rw [Liveness.append_skips hskips, if_neg hroom, hbefore]

/-- The record of the first dispatch behind main. -/
theorem FilesTell.first_behind (hf : FilesTell left h (t.counted d.host).files)
    (ht : Told h t.globals) (hd : BehindMain h d) :
    (((t.counted d.host).withGlobals { (t.counted d.host).globals with
      postMainDispatchCount := (t.counted d.host).globals.postMainDispatchCount +
        1 }).noteFirstPostMain
        d.host d.target d.cpu).files .postMainDispatch =
      ((placed h d :: postMains h).getLast?.bind
        (·.file .postMainDispatch "WiiCompiled-Switch first post-main translated dispatch")).or
          (left .postMainDispatch) := by
  have hrecorded : (t.counted d.host).globals.postMainDispatchRecorded =
      decide (0 < behindMain h) := by
    rw [Liveness.counted_globals]
    exact ht.recorded
  unfold Liveness.noteFirstPostMain
  rw [Liveness.withGlobals_globals]
  by_cases hnone : behindMain h = 0
  · have hempty := postMains_eq_nil.mpr hnone
    have hfirst : (t.counted d.host).globals.postMainDispatchRecorded = false := by
      simp [hrecorded, hnone]
    have hrecord := ht.behind_record hd "WiiCompiled-Switch first post-main translated dispatch"
    have hlast := hf.first
    unfold LivenessGlobals.behind at hrecord
    rw [hempty] at hlast
    rw [hfirst] at hrecord
    rw [if_neg (by simp [hfirst]), Liveness.writeLivenessRecord_files, hempty]
    simp only [Liveness.withGlobals_globals, Liveness.withGlobals_files, hlast]
    simp only [Bool.false_eq_true, if_false] at hrecord
    rw [hrecord, List.getLast?_singleton, Option.bind_some, PlacedDispatch.file_or]
    rfl
  · have hsome : postMains h ≠ [] := mt postMains_eq_nil.mp hnone
    rw [if_pos (by simp [hrecorded]; omega), Liveness.withGlobals_files, hf.first,
      List.getLast?_cons_of_ne_nil hsome]

/-- The last record that is sure to be on the card. -/
theorem FilesTell.last_behind (hf : FilesTell left h (t.counted d.host).files)
    (ht : Told h t.globals) (hd : BehindMain h d) (hlen : h.length + 1 < 2 ^ 64) :
    (beforeTrace d (t.counted d.host)).files .postMainLastDispatch =
      (((placed h d :: postMains h).find? PlacedDispatch.Durable).bind
        (·.file .postMainLastDispatch
          "WiiCompiled-Switch durable post-main translated dispatch")).or
            (left .postMainLastDispatch) := by
  have hcount : behindMain h + 1 < 2 ^ 64 := by
    have h1 := behindMain_le (h := h)
    have h2 := dispatchesOf_length_le (h := h)
    omega
  have hnumber : (placed h d).number = behindMain h + 1 := by
    simp [placed, behindMain, hd]
  have hearly : (t.counted d.host).globals.behind.postMainDispatchCount ≤
    kDurableEarlyPostMainDispatches ↔
      (placed h d).number ≤ 16 := by
    rw [Liveness.counted_globals]
    change t.globals.postMainDispatchCount + BitVec.ofNat 64 1 ≤ BitVec.ofNat 64 16 ↔ _
    rw [ht.behind, ← BitVec.ofNat_add, ofNat_le_iff hcount (by omega), hnumber]
  have hglobals : (((t.counted d.host).withGlobals { (t.counted d.host).globals with
      postMainDispatchCount := (t.counted d.host).globals.postMainDispatchCount +
        1 }).noteFirstPostMain
        d.host d.target d.cpu).globals = (t.counted d.host).globals.behind := by
    rw [Liveness.noteFirstPostMain_globals]
    rfl
  have hbefore : (((t.counted d.host).withGlobals { (t.counted d.host).globals with
      postMainDispatchCount := (t.counted d.host).globals.postMainDispatchCount +
        1 }).noteFirstPostMain
        d.host d.target d.cpu).files .postMainLastDispatch =
        (t.counted d.host).files .postMainLastDispatch := by
    rw [Liveness.noteFirstPostMain_other (by decide), Liveness.withGlobals_files]
  unfold beforeTrace Liveness.noteSnapshot
  rw [hglobals, List.find?_cons]
  by_cases hdurable : (placed h d).number ≤ 16 ∨ isDurablePostMainPhaseTarget d.target = true
  · rw [if_pos (hdurable.imp_left hearly.mpr), Liveness.writeLivenessRecord_files, hglobals,
      ht.behind_record hd, hbefore, hf.last]
    cases hopen : d.host.opens .postMainLastDispatch with
    | true =>
      have hwants : (placed h d).Durable = true := decide_eq_true ⟨hdurable, hopen⟩
      have hfile : (placed h d).dispatch.host.opens .postMainLastDispatch = true := hopen
      simp only [hwants, Option.bind_some, PlacedDispatch.file_or, hfile]
      rfl
    | false =>
      have hwants : (placed h d).Durable = false := by
        apply decide_eq_false
        rintro ⟨_, hno⟩
        exact Bool.false_ne_true (hopen.symm.trans hno)
      simp [hwants]
  · have hwants : (placed h d).Durable = false := by
      apply decide_eq_false
      rintro ⟨hyes, _⟩
      exact hdurable hyes
    rw [if_neg fun hyes => hdurable (hyes.imp_left hearly.mp), hbefore, hf.last, hwants]

/-- A dispatch behind main. -/
theorem FilesTell.late_dispatch (hf : FilesTell left h (t.counted d.host).files)
    (ht : Told h t.globals) (hd : BehindMain h d) (hlen : h.length + 1 < 2 ^ 64) :
    FilesTell left (.dispatch d :: h) (t.noteTranslatedDispatch d.host d.target d.cpu).files := by
  have hflag : t.globals.mainReached = true := by simp [ht.reached, hd.1]
  have hpost : postMains (.dispatch d :: h) = placed h d :: postMains h := by simp [postMains, hd]
  have hmain : firstMain (.dispatch d :: h) = firstMain h := by simp [firstMain, hd.2]
  have hkeep : ∀ path, path ≠ .heartbeat →
      (t.noteTranslatedDispatch d.host d.target d.cpu).files path =
        ((t.counted d.host).notePostMain d.host d.target d.cpu).files path := by
    intro path hbeat
    rw [Liveness.note_behind hd.2 hflag, Liveness.noteHeartbeat_other hbeat]
  have hleave : ∀ path, path ≠ .heartbeat → path ≠ .postMainTrace →
      path ≠ .postMainLastDispatch → path ≠ .postMainDispatch →
      (t.noteTranslatedDispatch d.host d.target d.cpu).files path =
        (t.counted d.host).files path := by
    intro path h1 h2 h3 h4
    rw [hkeep path h1, notePostMain_eq, Liveness.appendPostMainTrace_other h2]
    unfold beforeTrace
    rw [Liveness.noteSnapshot_other h3, Liveness.noteFirstPostMain_other h4,
      Liveness.withGlobals_files]
  refine ⟨?_, ?_, ?_, ?_, ?_, ?_⟩
  · rw [hleave _ (by decide) (by decide) (by decide) (by decide), hmain]
    exact hf.main
  · rw [hkeep _ (by decide), notePostMain_eq, Liveness.appendPostMainTrace_other (by decide)]
    unfold beforeTrace
    rw [Liveness.noteSnapshot_other (by decide), hpost]
    exact hf.first_behind ht hd
  · rw [hkeep _ (by decide), notePostMain_eq, Liveness.appendPostMainTrace_other (by decide),
      hpost]
    exact hf.last_behind ht hd hlen
  · rw [hkeep _ (by decide)]
    exact hf.trace_behind ht hd hlen
  · rw [hleave _ (by decide) (by decide) (by decide) (by decide)]
    exact hf.dispatch
  · rw [hleave _ (by decide) (by decide) (by decide) (by decide)]
    exact hf.exception

theorem FilesTell.dispatched (hf : FilesTell left h (t.counted d.host).files)
    (ht : Told h t.globals) (hlen : h.length + 1 < 2 ^ 64) :
    FilesTell left (.dispatch d :: h) (t.noteTranslatedDispatch d.host d.target d.cpu).files := by
  by_cases htarget : d.target = kPalMainAddress
  · exact hf.main_dispatch ht htarget
  · by_cases hreached : ReachedMain h
    · exact hf.late_dispatch ht ⟨hreached, htarget⟩ hlen
    · exact hf.early_dispatch ht htarget hreached

/-! ## The heartbeat -/

/-- After a dispatch the last heartbeat is less than a second old by the clock of the host, and
its record is of the dispatch at which it was made, when the host always opened its file. -/
structure Beats (h : List LivenessEvent) (t : Liveness) : Prop where
  none : dispatchesOf h = [] → t.globals.lastHeartbeatTick = 0
  fresh : ∀ d ds, dispatchesOf h = d :: ds → t.globals.lastHeartbeatTick = d.host.now ∨
    d.host.now - t.globals.lastHeartbeatTick < d.host.frequency
  file : dispatchesOf h ≠ [] → (∀ d ∈ dispatchesOf h, d.host.opens .heartbeat = true) →
    ∃ d ∈ dispatchesOf h, d.host.now = t.globals.lastHeartbeatTick ∧
      ∃ r, t.files .heartbeat = some (d.host.written .heartbeat r) ∧ r.target = d.target ∧
        r.registers = shownRegisters d.cpu

/-- What stands in the heartbeat file before it is written, and when that was last. -/
structure BeatKept (d : NotedDispatch) (t u : Liveness) : Prop where
  tick : u.globals.lastHeartbeatTick = t.globals.lastHeartbeatTick
  file : u.files .heartbeat = (t.counted d.host).files .heartbeat

/-- A dispatch ends with the heartbeat. -/
theorem note_ends_with_heartbeat (d : NotedDispatch) (t : Liveness) : ∃ u first,
    BeatKept d t u ∧
    t.noteTranslatedDispatch d.host d.target d.cpu =
      u.noteHeartbeat d.host d.target d.cpu first := by
  by_cases htarget : d.target = kPalMainAddress
  · refine ⟨_, false, ⟨?_, Liveness.noteMain_other (by decide)⟩,
      Liveness.note_main htarget⟩
    rw [Liveness.noteMain_globals, Liveness.counted_globals]
    split <;> rfl
  · cases hreached : t.globals.mainReached with
    | true =>
      refine ⟨_, _, ⟨?_, ?_⟩, Liveness.note_behind htarget hreached⟩
      · rw [notePostMain_globals, Liveness.counted_globals]
        rfl
      · rw [notePostMain_eq, Liveness.appendPostMainTrace_other (by decide)]
        unfold beforeTrace
        rw [Liveness.noteSnapshot_other (by decide), Liveness.noteFirstPostMain_other (by decide),
          Liveness.withGlobals_files]
    | false =>
      refine ⟨_, false, ⟨?_, rfl⟩, Liveness.note_before htarget hreached⟩
      rw [Liveness.counted_globals]

theorem Beats.dispatched (hb : Beats h t) (ht : Told h t.globals) :
    Beats (.dispatch d :: h) (t.noteTranslatedDispatch d.host d.target d.cpu) := by
  obtain ⟨u, first, ⟨htick, hfile⟩, hrun⟩ := note_ends_with_heartbeat d t
  rw [hrun]
  unfold Liveness.noteHeartbeat
  split
  · refine ⟨fun hno => absurd hno (List.cons_ne_nil _ _), ?_, fun _ hopens => ?_⟩
    · intro e es he
      obtain ⟨rfl, rfl⟩ := List.cons.inj he
      exact Or.inl (by simp)
    · have hopen := hopens d List.mem_cons_self
      refine ⟨d, List.mem_cons_self, by simp, Liveness.recordOf { u.globals with
        lastHeartbeatTick := d.host.now } "WiiCompiled-Switch translated liveness heartbeat"
        d.target d.cpu, ?_, rfl, rfl⟩
      rw [Liveness.writeLivenessRecord_files, if_pos hopen]
      rfl
  · rename_i hdue
    simp only [not_or, BitVec.not_le] at hdue
    obtain ⟨⟨hnonzero, _, hyoung⟩, _, _⟩ := hdue
    rw [htick] at hnonzero hyoung
    have hsome : dispatchesOf h ≠ [] := mt hb.none hnonzero
    refine ⟨fun hno => absurd hno (List.cons_ne_nil _ _), ?_, fun _ hopens => ?_⟩
    · intro e es he
      obtain ⟨rfl, rfl⟩ := List.cons.inj he
      rw [htick]
      exact Or.inr hyoung
    · obtain ⟨e, he, hnow, r, hr, htarget, hregisters⟩ := hb.file hsome fun e he =>
        hopens e (List.mem_cons_of_mem d he)
      refine ⟨e, List.mem_cons_of_mem d he,
        by rw [htick]; exact hnow, r, ?_, htarget, hregisters⟩
      rw [hfile, Liveness.counted_files, ht.reset, if_pos (by simp [hsome])]
      exact hr

/-! ## Runs -/

theorem told_start : Told [] .start := by
  refine ⟨rfl, rfl, ?_, rfl, rfl, rfl, rfl⟩
  simp [ReachedMain, dispatchesOf, LivenessGlobals.start]

/-- A new stage changes nothing but the stage. -/
theorem Told.setStage (ht : Told h t.globals) (stage : Option StageName) :
    Told (.setStage stage :: h) (t.setFastTrackStage stage).globals :=
  ⟨rfl, ht.reset, ht.reached, ht.recorded, ht.dispatches, ht.behind, ht.entries⟩

theorem FilesTell.setStage (hf : FilesTell left h t.files) (stage : Option StageName) :
    FilesTell left (.setStage stage :: h) (t.setFastTrackStage stage).files :=
  ⟨hf.main, hf.first, hf.last, hf.trace, hf.dispatch, hf.exception⟩

/-- After every run of the process, with whatever answers of the host: the counters and the stage
are those of its history; once something was dispatched, the files are those that the host did not
remove and, over them, what it took of the records: in the file of main the one of its first
dispatch, in the file behind it that of the first dispatch behind main, in the last one that of the
last dispatch that had to be on the card, and in the trace the first 64 dispatches that were to be
in it, in order and numbered; and the heartbeat is fresh. -/
theorem the_liveness_files_tell_the_run (files : LivenessFiles) (h : List LivenessEvent)
    (hlen : h.length < 2 ^ 64) : Told h (livenessRun files h).globals ∧
      (dispatchesOf h = [] → (livenessRun files h).files = files) ∧
      (dispatchesOf h ≠ [] → FilesTell (remaining files h) h (livenessRun files h).files) ∧
      Beats h (livenessRun files h) := by
  induction h with
  | nil =>
    refine ⟨told_start, fun _ => rfl, fun hno => absurd rfl hno, fun _ => rfl, ?_, ?_⟩
    · intro d ds hno
      cases hno
    · exact fun hno => absurd rfl hno
  | cons e h ih =>
    have hshort : h.length + 1 < 2 ^ 64 := hlen
    obtain ⟨ht, hsame, hf, hb⟩ := ih (by omega)
    cases e with
    | setStage stage =>
      refine ⟨ht.setStage stage, hsame, fun hsome => (hf hsome).setStage stage, ?_⟩
      exact ⟨hb.none, hb.fresh, hb.file⟩
    | dispatch d =>
      refine ⟨ht.dispatch hshort, fun hno => absurd hno (List.cons_ne_nil _ _), fun _ => ?_, ?_⟩
      · exact (ht.filesTell_counted hsame hf).dispatched ht hshort
      · exact hb.dispatched ht

end

/-- The host removes and opens what it is asked to, and its writes go through. -/
def willingHost : LivenessHost :=
  ⟨fun _ => true, fun _ => true, fun _ => 1024, 1024, 1#64, 1#64⟩

/-- A call before main, main, and the first call behind it, newest first. -/
def reachesRKSystem : List LivenessEvent :=
  [0x80008EF0#32, kPalMainAddress, 0x800060A4#32].map fun target =>
    .dispatch ⟨willingHost, target, none⟩

/-- The law in that run: the trace has the one line. -/
theorem the_trace_tells_rksystem :
    (livenessRun (fun _ => none) reachesRKSystem).files .postMainTrace =
      traceFile none (traced reachesRKSystem) ∧
    (traced reachesRKSystem).map (fun p => (p.place, p.number)) = [(3, 1)] :=
  ⟨((the_liveness_files_tell_the_run (fun _ => none) reachesRKSystem (by decide)).2.2.1
    (by decide)).trace, by decide⟩

end wii_switch
