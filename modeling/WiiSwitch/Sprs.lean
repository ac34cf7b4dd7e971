-- The special-purpose registers (source/ppc_runtime_helpers_bridge.cpp): PPC_ReadSpr and
-- PPC_WriteSpr over the register files of the threads and the one shadow array. Some registers
-- belong to a register file, most are shared, and the time base and the version cannot be
-- written; so after any history of writes a read finds the last value that was written there.
import WiiSwitch.TimeBase
import WiiSwitch.Lib.Cells

namespace wii_switch

/-! ## The registers -/

def kBroadwayPvr : Word := 0x00087200#32

/-- The machine with the registers that no other bridge uses, and `g_sprShadow`. -/
structure SprMachine where
  machine : Machine Memory
  hid0 : CpuPtr → Word
  hid1 : CpuPtr → Word
  shadow : Fin 2048 → Word

namespace SprMachine

def file (s : SprMachine) (cpu : CpuPtr) : CpuContext := s.machine.cpus cpu

/-- `if (cpu) cpu->… = …`. -/
def onFile (s : SprMachine) (cpu : CpuPtr) (f : CpuContext → CpuContext) : SprMachine :=
  if cpu = 0 then s else { s with machine := s.machine.onCpu cpu f }

def setHid0 (s : SprMachine) (cpu : CpuPtr) (value : Word) : SprMachine :=
  if cpu = 0 then s else { s with hid0 := Function.update s.hid0 cpu value }

def setHid1 (s : SprMachine) (cpu : CpuPtr) (value : Word) : SprMachine :=
  if cpu = 0 then s else { s with hid1 := Function.update s.hid1 cpu value }

def shadowValue (s : SprMachine) (spr : Word) : Word :=
  if h : spr.toNat < 2048 then s.shadow ⟨spr.toNat, h⟩ else 0#32

def setShadow (s : SprMachine) (spr value : Word) : SprMachine :=
  if h : spr.toNat < 2048
    then { s with shadow := Function.update s.shadow ⟨spr.toNat, h⟩ value }
  else s

end SprMachine

/-- The register `spr - 912`. -/
def gqrIndex (spr : Word) : Fin 8 := ⟨(spr.toNat - 912) % 8, Nat.mod_lt _ (by decide)⟩

/-- `PPC_ReadSpr`, by a thread with the register file `cpu`, when the time base is as given. -/
def ppcReadSpr (timeBase : Word64) (cpu : CpuPtr) (spr : Word) (s : SprMachine) : Word :=
  if 912#32 ≤ spr ∧ spr ≤ 919#32 then
    if cpu = 0 then 0#32 else (s.file cpu).gqr (gqrIndex spr)
  else if spr = 8#32 then if cpu = 0 then 0#32 else (s.file cpu).lr
  else if spr = 9#32 then if cpu = 0 then 0#32 else (s.file cpu).ctr
  else if spr = 1#32 then if cpu = 0 then 0#32 else (s.file cpu).xer
  else if spr = 26#32 then if cpu = 0 then 0#32 else (s.file cpu).srr0
  else if spr = 27#32 then if cpu = 0 then 0#32 else (s.file cpu).srr1
  else if spr = 268#32 then lower timeBase
  else if spr = 269#32 then upper timeBase
  else if spr = 287#32 then kBroadwayPvr
  else if spr = 920#32 then if cpu = 0 then 0#32 else (s.file cpu).hid2
  else if spr = 1008#32 then if cpu = 0 then 0#32 else s.hid0 cpu
  else if spr = 1009#32 then if cpu = 0 then 0#32 else s.hid1 cpu
  else s.shadowValue spr

/-- `PPC_WriteSpr`. -/
def ppcWriteSpr (cpu : CpuPtr) (spr value : Word) (s : SprMachine) : SprMachine :=
  if 912#32 ≤ spr ∧ spr ≤ 919#32 then
    s.onFile cpu fun c => { c with gqr := Function.update c.gqr (gqrIndex spr) value }
  else if spr = 8#32 then s.onFile cpu fun c => { c with lr := value }
  else if spr = 9#32 then s.onFile cpu fun c => { c with ctr := value }
  else if spr = 1#32 then s.onFile cpu fun c => { c with xer := value }
  else if spr = 26#32 then s.onFile cpu fun c => { c with srr0 := value }
  else if spr = 27#32 then s.onFile cpu fun c => { c with srr1 := value }
  else if spr = 920#32 then s.onFile cpu fun c => { c with hid2 := value }
  else if spr = 1008#32 then s.setHid0 cpu value
  else if spr = 1009#32 then s.setHid1 cpu value
  else s.setShadow spr value

/-! ## The places of the registers -/

/-- The registers in a register file that other bridges use too. -/
inductive FileSpr where
  | gqr (i : Fin 8)
  | lr
  | ctr
  | xer
  | srr0
  | srr1
  | hid2
deriving DecidableEq

/-- Where the value of a register is. -/
inductive SprPlace where
  | file (r : FileSpr)
  | hid0
  | hid1
  | shadow (spr : Word)
deriving DecidableEq

/-- The place that a write of the register goes to. -/
def sprPlace (spr : Word) : SprPlace :=
  if 912#32 ≤ spr ∧ spr ≤ 919#32 then .file (.gqr (gqrIndex spr))
  else if spr = 8#32 then .file .lr
  else if spr = 9#32 then .file .ctr
  else if spr = 1#32 then .file .xer
  else if spr = 26#32 then .file .srr0
  else if spr = 27#32 then .file .srr1
  else if spr = 920#32 then .file .hid2
  else if spr = 1008#32 then .hid0
  else if spr = 1009#32 then .hid1
  else .shadow spr

def FileSpr.get (c : CpuContext) : FileSpr → Word
  | gqr i => c.gqr i
  | lr => c.lr
  | ctr => c.ctr
  | xer => c.xer
  | srr0 => c.srr0
  | srr1 => c.srr1
  | hid2 => c.hid2

def FileSpr.set (value : Word) (c : CpuContext) : FileSpr → CpuContext
  | gqr i => { c with gqr := Function.update c.gqr i value }
  | lr => { c with lr := value }
  | ctr => { c with ctr := value }
  | xer => { c with xer := value }
  | srr0 => { c with srr0 := value }
  | srr1 => { c with srr1 := value }
  | hid2 => { c with hid2 := value }

theorem FileSpr.get_set (value : Word) (c : CpuContext) (r r' : FileSpr) :
    r'.get (r.set value c) = if r = r' then value else r'.get c := by
  by_cases hsame : r = r'
  · subst hsame
    cases r <;> simp [get, set]
  · rw [if_neg hsame]
    cases r with
    | gqr i =>
      cases r' with
      | gqr j => exact Function.update_of_ne (fun hij => hsame (congrArg _ hij.symm)) value c.gqr
      | _ => rfl
    | _ => cases r' <;> first | rfl | exact absurd rfl hsame

namespace SprMachine

/-- The value at a place, for a thread with the register file `cpu`. -/
def held (s : SprMachine) (cpu : CpuPtr) : SprPlace → Word
  | .file r => if cpu = 0 then 0#32 else r.get (s.file cpu)
  | .hid0 => if cpu = 0 then 0#32 else s.hid0 cpu
  | .hid1 => if cpu = 0 then 0#32 else s.hid1 cpu
  | .shadow spr => s.shadowValue spr

/-- A write to a place. -/
def put (s : SprMachine) (cpu : CpuPtr) (value : Word) : SprPlace → SprMachine
  | .file r => s.onFile cpu fun c => r.set value c
  | .hid0 => s.setHid0 cpu value
  | .hid1 => s.setHid1 cpu value
  | .shadow spr => s.setShadow spr value

end SprMachine

theorem ppcWriteSpr_eq (cpu : CpuPtr) (spr value : Word) (s : SprMachine) :
    ppcWriteSpr cpu spr value s = s.put cpu value (sprPlace spr) := by
  unfold ppcWriteSpr sprPlace
  simp only [apply_ite (s.put cpu value)]
  rfl

/-- The registers that no write changes. -/
def FixedSpr (spr : Word) : Prop := spr = 268#32 ∨ spr = 269#32 ∨ spr = 287#32

instance (spr : Word) : Decidable (FixedSpr spr) := inferInstanceAs (Decidable (_ ∨ _))

theorem ppcReadSpr_eq {spr : Word} (h : ¬FixedSpr spr) (timeBase : Word64) (cpu : CpuPtr)
    (s : SprMachine) : ppcReadSpr timeBase cpu spr s = s.held cpu (sprPlace spr) := by
  unfold FixedSpr at h
  rw [not_or, not_or] at h
  unfold ppcReadSpr sprPlace
  rw [if_neg h.1, if_neg h.2.1, if_neg h.2.2]
  simp only [apply_ite (s.held cpu)]
  rfl

/-- The register of a place. -/
def SprPlace.spr : SprPlace → Word
  | file (.gqr i) => 912#32 + BitVec.ofNat 32 i
  | file .lr => 8#32
  | file .ctr => 9#32
  | file .xer => 1#32
  | file .srr0 => 26#32
  | file .srr1 => 27#32
  | file .hid2 => 920#32
  | hid0 => 1008#32
  | hid1 => 1009#32
  | shadow spr => spr

theorem spr_gqrIndex {spr : Word} (h : 912#32 ≤ spr ∧ spr ≤ 919#32) :
    912#32 + BitVec.ofNat 32 (gqrIndex spr) = spr := by
  obtain ⟨hlow, hhigh⟩ := h
  rw [BitVec.le_def, BitVec.toNat_ofNat] at hlow hhigh
  apply BitVec.eq_of_toNat_eq
  unfold gqrIndex
  rw [BitVec.toNat_add, BitVec.toNat_ofNat, BitVec.toNat_ofNat]
  dsimp only
  omega

theorem sprPlace_spr (spr : Word) : (sprPlace spr).spr = spr := by
  unfold sprPlace
  split
  case isTrue h => exact spr_gqrIndex h
  repeat' split
  all_goals first | rfl | (symm; assumption)

/-- No two registers share a place. -/
theorem sprPlace_inj {a b : Word} : sprPlace a = sprPlace b ↔ a = b := by
  constructor
  · intro h
    rw [← sprPlace_spr a, h, sprPlace_spr]
  · rintro rfl
    rfl

/-- The registers that belong to a register file. -/
def OwnSpr (spr : Word) : Prop :=
  912#32 ≤ spr ∧ spr ≤ 919#32 ∨ spr = 8#32 ∨ spr = 9#32 ∨ spr = 1#32 ∨ spr = 26#32 ∨
    spr = 27#32 ∨ spr = 920#32 ∨ spr = 1008#32 ∨ spr = 1009#32

instance (spr : Word) : Decidable (OwnSpr spr) := inferInstanceAs (Decidable (_ ∨ _))

theorem sprPlace_shared {spr : Word} (h : ¬OwnSpr spr) : sprPlace spr = .shadow spr := by
  unfold OwnSpr at h
  simp only [not_or] at h
  obtain ⟨h1, h2, h3, h4, h5, h6, h7, h8, h9⟩ := h
  unfold sprPlace
  rw [if_neg h1, if_neg h2, if_neg h3, if_neg h4, if_neg h5, if_neg h6, if_neg h7, if_neg h8,
    if_neg h9]

theorem sprPlace_own {spr : Word} (h : OwnSpr spr) : ∀ spr', sprPlace spr ≠ .shadow spr' := by
  intro spr' hplace
  have hspr : spr = spr' := by rw [← sprPlace_spr spr, hplace]; rfl
  subst hspr
  unfold OwnSpr at h
  unfold sprPlace at hplace
  rcases h with h | rfl | rfl | rfl | rfl | rfl | rfl | rfl | rfl
  · rw [if_pos h] at hplace
    cases hplace
  all_goals exact absurd hplace (by decide)

/-- A write at a place by the thread with the file `writer` reaches a read by `reader`. -/
def SprPlace.Reaches (writer reader : CpuPtr) : SprPlace → Prop
  | shadow spr => spr.toNat < 2048
  | _ => reader = writer ∧ writer ≠ 0

instance (writer reader : CpuPtr) (place : SprPlace) : Decidable (place.Reaches writer reader) :=
  match place with
  | .shadow _ => inferInstanceAs (Decidable (_ < _))
  | .file _ | .hid0 | .hid1 => inferInstanceAs (Decidable (_ ∧ _))

/-! ## A read behind a write -/

namespace SprMachine

variable (s : SprMachine) (writer reader : CpuPtr) (value : Word)

theorem file_onFile (f : CpuContext → CpuContext) : (s.onFile writer f).file reader =
    if reader = writer ∧ writer ≠ 0 then f (s.file writer) else s.file reader := by
  unfold onFile file
  by_cases hnull : writer = 0
  · simp [hnull]
  · by_cases hsame : reader = writer <;> simp [hnull, hsame, Machine.onCpu]

/-- What a thread reads at a place of its own, when the value there may have changed. -/
theorem read_own (new old : Word) :
    (if reader = 0 then 0#32 else if reader = writer ∧ writer ≠ 0 then new else old) =
      if reader = writer ∧ writer ≠ 0 then new else if reader = 0 then 0#32 else old := by
  by_cases hnull : reader = 0
  · subst hnull
    by_cases hsame : 0 = writer
    · simp [← hsame]
    · simp [hsame]
  · simp [hnull]

theorem update_own (f : CpuPtr → Word) :
    (if writer = 0 then f else Function.update f writer value) reader =
      if reader = writer ∧ writer ≠ 0 then value else f reader := by
  by_cases hnull : writer = 0
  · simp [hnull]
  · by_cases hsame : reader = writer <;> simp [hnull, hsame]

theorem shadowValue_setShadow (spr spr' : Word) : (s.setShadow spr value).shadowValue spr' =
    if spr = spr' ∧ spr.toNat < 2048 then value else s.shadowValue spr' := by
  unfold setShadow shadowValue
  by_cases hroom : spr.toNat < 2048
  · by_cases hsame : spr = spr'
    · subst hsame
      simp [hroom]
    · have hne : ∀ h' : spr'.toNat < 2048, (⟨spr'.toNat, h'⟩ : Fin 2048) ≠
          ⟨spr.toNat, hroom⟩ :=
        fun h' heq => hsame (BitVec.eq_of_toNat_eq (Fin.mk.inj heq)).symm
      simp only [hroom, dite_true, hsame, false_and, if_false]
      split
      case isTrue h' => exact Function.update_of_ne (hne h') value s.shadow
      case isFalse => rfl
  · simp [hroom]

/-- A write is found where it reaches, and leaves every other place. -/
theorem held_put (place place' : SprPlace) : (s.put writer value place).held reader place' =
    if place = place' ∧ place.Reaches writer reader then value else s.held reader place' := by
  cases place with
  | file r =>
    cases place' with
    | file r' =>
      have hget : r'.get ((s.onFile writer fun c => r.set value c).file reader) =
          if reader = writer ∧ writer ≠ 0
            then (if r = r' then value else r'.get (s.file writer))
          else r'.get (s.file reader) := by
        rw [file_onFile, apply_ite r'.get, FileSpr.get_set]
      change (if reader = 0 then 0#32
        else r'.get ((s.onFile writer fun c => r.set value c).file reader)) = _
      rw [hget, read_own]
      unfold held SprPlace.Reaches
      by_cases hreach : reader = writer ∧ writer ≠ 0
      · by_cases hsame : r = r'
        · simp [hreach, hsame]
        · simp [hreach, hsame]
      · simp [hreach]
    | _ =>
      rw [if_neg (by simp)]
      change (s.onFile writer fun c => r.set value c).held reader _ = _
      unfold onFile
      split <;> rfl
  | hid0 =>
    cases place' with
    | hid0 =>
      have hhid : (s.setHid0 writer value).hid0 reader =
          if reader = writer ∧ writer ≠ 0 then value else s.hid0 reader := by
        rw [← update_own]
        unfold setHid0
        split <;> rfl
      change (if reader = 0 then 0#32 else (s.setHid0 writer value).hid0 reader) = _
      rw [hhid, read_own]
      simp [held, SprPlace.Reaches]
    | _ =>
      rw [if_neg (by simp)]
      change (s.setHid0 writer value).held reader _ = _
      unfold setHid0
      split <;> rfl
  | hid1 =>
    cases place' with
    | hid1 =>
      have hhid : (s.setHid1 writer value).hid1 reader =
          if reader = writer ∧ writer ≠ 0 then value else s.hid1 reader := by
        rw [← update_own]
        unfold setHid1
        split <;> rfl
      change (if reader = 0 then 0#32 else (s.setHid1 writer value).hid1 reader) = _
      rw [hhid, read_own]
      simp [held, SprPlace.Reaches]
    | _ =>
      rw [if_neg (by simp)]
      change (s.setHid1 writer value).held reader _ = _
      unfold setHid1
      split <;> rfl
  | shadow spr =>
    cases place' with
    | shadow spr' =>
      change (s.setShadow spr value).shadowValue spr' = _
      rw [shadowValue_setShadow]
      simp [held, SprPlace.Reaches]
    | _ =>
      rw [if_neg (by simp)]
      change (s.setShadow spr value).held reader _ = _
      unfold setShadow
      split <;> rfl

end SprMachine

/-! ## Histories -/

/-- A call of `PPC_WriteSpr`, by a thread with the register file `cpu`. -/
structure SprWrite where
  cpu : CpuPtr
  spr : Word
  value : Word

def SprWrite.step (w : SprWrite) (s : SprMachine) : SprMachine := ppcWriteSpr w.cpu w.spr w.value s

/-- The write reaches a read of `k.2` by a thread with the file `k.1`. -/
def SprWrite.hits (w : SprWrite) (k : CpuPtr × Word) : Bool :=
  decide (w.spr = k.2 ∧ (sprPlace k.2).Reaches w.cpu k.1)

/-- What the threads find in the registers that can be written. -/
def sprView (s : SprMachine) (k : CpuPtr × Word) : Word := s.held k.1 (sprPlace k.2)

/-- Each write is one write of the registers. -/
theorem spr_steps : Cells.Steps sprView SprWrite.step
    fun w k => if w.hits k then some w.value else none := by
  constructor
  intro w s
  funext ⟨reader, spr⟩
  unfold sprView SprWrite.step Cells.Fill.on SprWrite.hits
  rw [ppcWriteSpr_eq, SprMachine.held_put]
  by_cases hspr : w.spr = spr
  · subst hspr
    by_cases hreach : (sprPlace w.spr).Reaches w.cpu reader <;> simp [hreach]
  · have hplace : sprPlace w.spr ≠ sprPlace spr := fun h => hspr (sprPlace_inj.mp h)
    simp [hspr, hplace]

/-- The value of the newest write that meets `P`, or the value before. -/
def lastSpr (past : List SprWrite) (P : SprWrite → Bool) (before : Word) : Word :=
  ((past.find? P).map SprWrite.value).getD before

theorem sprView_run (past : List SprWrite) (s : SprMachine) (k : CpuPtr × Word) :
    sprView (past.foldr SprWrite.step s) k = lastSpr past (SprWrite.hits · k) (sprView s k) := by
  have hrun := congrFun (spr_steps.run past s) k
  unfold Cells.Fill.on at hrun
  rw [Cells.last_map_eq_find] at hrun
  exact hrun

/-- The registers of a register file that no write of a special-purpose register touches. -/
def CpuContext.apartFromSprs (c : CpuContext) : CpuContext :=
  { c with lr := 0, ctr := 0, xer := 0, gqr := fun _ => 0, srr0 := 0, srr1 := 0, hid2 := 0 }

/-- The machines differ in the special-purpose registers at most. -/
structure SprFrame (s s' : SprMachine) : Prop where
  files : ∀ cpu, (s'.file cpu).apartFromSprs = (s.file cpu).apartFromSprs
  rest : s'.machine = { s.machine with cpus := s'.machine.cpus }

/-- What a history of writes does to the registers and to the rest of the machine. -/
structure SprLaw (past : List SprWrite) (s s' : SprMachine) : Prop where
  own : ∀ timeBase cpu spr, OwnSpr spr → cpu ≠ 0 → ppcReadSpr timeBase cpu spr s' =
    lastSpr past (fun w => w.spr = spr ∧ w.cpu = cpu) (ppcReadSpr timeBase cpu spr s)
  noFile : ∀ timeBase spr, OwnSpr spr → ppcReadSpr timeBase 0 spr s' = 0#32
  shared : ∀ timeBase cpu spr, ¬OwnSpr spr → ¬FixedSpr spr → spr.toNat < 2048 →
    ppcReadSpr timeBase cpu spr s' =
      lastSpr past (fun w => w.spr = spr) (ppcReadSpr timeBase cpu spr s)
  outside : ∀ timeBase cpu spr, 2048 ≤ spr.toNat → ppcReadSpr timeBase cpu spr s' = 0#32
  time : ∀ timeBase cpu,
    ppcReadSpr timeBase cpu 269#32 s' ++ ppcReadSpr timeBase cpu 268#32 s' = timeBase
  version : ∀ timeBase cpu, ppcReadSpr timeBase cpu 287#32 s' = kBroadwayPvr
  frame : SprFrame s s'

theorem OwnSpr.not_fixed {spr : Word} (h : OwnSpr spr) : ¬FixedSpr spr := by
  rintro (rfl | rfl | rfl) <;> exact absurd h (by decide)

theorem OwnSpr.not_outside {spr : Word} (h : OwnSpr spr) : spr.toNat < 2048 := by
  rcases h with h | rfl | rfl | rfl | rfl | rfl | rfl | rfl | rfl
  · have hle := h.2
    rw [BitVec.le_def, BitVec.toNat_ofNat] at hle
    omega
  all_goals decide

theorem reaches_own {spr : Word} (h : OwnSpr spr) (writer reader : CpuPtr) :
    (sprPlace spr).Reaches writer reader ↔ reader = writer ∧ writer ≠ 0 := by
  have hplace := sprPlace_own h
  cases hp : sprPlace spr with
  | shadow spr' => exact absurd hp (hplace spr')
  | _ => exact Iff.rfl

theorem held_own_null {spr : Word} (h : OwnSpr spr) (s : SprMachine) :
    s.held 0 (sprPlace spr) = 0#32 := by
  have hplace := sprPlace_own h
  cases hp : sprPlace spr with
  | shadow spr' => exact absurd hp (hplace spr')
  | _ => rfl

theorem SprFrame.refl (s : SprMachine) : SprFrame s s := ⟨fun _ => rfl, rfl⟩

theorem SprFrame.onFile (s : SprMachine) (cpu : CpuPtr) (r : FileSpr) (value : Word) :
    SprFrame s (s.onFile cpu fun c => r.set value c) := by
  constructor
  case files =>
    intro reader
    rw [SprMachine.file_onFile]
    split
    case isTrue hsame =>
      rw [hsame.1]
      cases r <;> rfl
    case isFalse => rfl
  case rest =>
    unfold SprMachine.onFile
    split <;> rfl

/-- A write leaves the rest of the machine. -/
theorem SprWrite.step_frame (w : SprWrite) (s : SprMachine) : SprFrame s (w.step s) := by
  unfold SprWrite.step
  rw [ppcWriteSpr_eq]
  cases sprPlace w.spr with
  | file r => exact .onFile s w.cpu r w.value
  | hid0 =>
    change SprFrame s (s.setHid0 w.cpu w.value)
    unfold SprMachine.setHid0
    split <;> exact ⟨fun _ => rfl, rfl⟩
  | hid1 =>
    change SprFrame s (s.setHid1 w.cpu w.value)
    unfold SprMachine.setHid1
    split <;> exact ⟨fun _ => rfl, rfl⟩
  | shadow spr =>
    change SprFrame s (s.setShadow spr w.value)
    unfold SprMachine.setShadow
    split <;> exact ⟨fun _ => rfl, rfl⟩

theorem spr_frame (past : List SprWrite) (s : SprMachine) :
    SprFrame s (past.foldr SprWrite.step s) := by
  induction past with
  | nil => exact .refl s
  | cons w past ih =>
    have hstep := w.step_frame (past.foldr SprWrite.step s)
    constructor
    case files => exact fun cpu => (hstep.files cpu).trans (ih.files cpu)
    case rest => rw [List.foldr_cons, hstep.rest, ih.rest]

/-- After any history of writes by any threads, a read finds the last value written: by a thread
with the same register file for the registers of a file, and by any thread for the others. The
time base and the version read as they are, and a number outside the array reads zero. -/
theorem sprs_keep_the_last_writes (past : List SprWrite) (s : SprMachine) :
    SprLaw past s (past.foldr SprWrite.step s) := by
  have hread : ∀ {spr}, ¬FixedSpr spr → ∀ timeBase cpu,
      ppcReadSpr timeBase cpu spr (past.foldr SprWrite.step s) =
        lastSpr past (SprWrite.hits · (cpu, spr)) (ppcReadSpr timeBase cpu spr s) := by
    intro spr hspr timeBase cpu
    rw [ppcReadSpr_eq hspr, ppcReadSpr_eq hspr]
    exact sprView_run past s (cpu, spr)
  constructor
  case own =>
    intro timeBase cpu spr hown hcpu
    rw [hread hown.not_fixed]
    congr 1
    funext w
    unfold SprWrite.hits
    rw [decide_eq_decide, reaches_own hown]
    constructor
    · rintro ⟨hspr, hsame, _⟩
      exact ⟨hspr, hsame.symm⟩
    · rintro ⟨hspr, rfl⟩
      exact ⟨hspr, rfl, hcpu⟩
  case noFile =>
    intro timeBase spr hown
    rw [ppcReadSpr_eq hown.not_fixed, held_own_null hown]
  case shared =>
    intro timeBase cpu spr hown hfixed hroom
    rw [hread hfixed]
    congr 1
    funext w
    unfold SprWrite.hits
    rw [sprPlace_shared hown, decide_eq_decide]
    exact and_iff_left hroom
  case outside =>
    intro timeBase cpu spr hout
    have hown : ¬OwnSpr spr := fun h => absurd h.not_outside (by omega)
    have hfixed : ¬FixedSpr spr := by
      rintro (rfl | rfl | rfl) <;> exact absurd hout (by decide)
    rw [ppcReadSpr_eq hfixed, sprPlace_shared hown]
    exact dif_neg (by omega)
  case time => exact fun timeBase _ => upper_append_lower timeBase
  case version => exact fun _ _ => rfl
  case frame => exact spr_frame past s

end wii_switch
