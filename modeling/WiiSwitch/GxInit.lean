-- GXInit (source/gx_init_hle_bridge.cpp). The bridge clears the graphics state of the guest,
-- installs three interrupt handlers in the table that the guest names, and fills the shadow
-- registers. Each store stands behind a check of its range, so the call returns in every memory,
-- wherever the table lies, and the shadow registers are filled wherever the state is mapped.
import WiiSwitch.BootMemory
import WiiSwitch.DvdRuns
import WiiSwitch.ZeroLoops

namespace wii_switch

open Bytes OS

/-! ## The source -/

namespace GxInit

def kFifoObjAddr : Word := 0x80343740#32
def kGxDataAddr : Word := 0x803437C0#32
def kGxDataSize : Word := 0x600#32
def kGxDataPtrAddr : Word := 0x803886C8#32
def kHandlerTablePtrAddr : Word := 0x803868F8#32
def kHandlerTableAddr : Word := 0x80003040#32
def kInterruptMaskLoAddr : Word := 0x800000C4#32
def kRunningContextAddr : Word := 0x800000E4#32
def kGxThreadQueueAddr : Word := 0x803867C0#32
def kGxCurrentThreadAddr : Word := 0x803867C4#32
def kGxWrapFlagAddr : Word := 0x803867B0#32
def kGxWrapFlag2Addr : Word := 0x803867B1#32
def kGpFifoObjAddr : Word := 0x80343DC0#32
def kCpuFifoObjAddr : Word := 0x80343DE4#32
def kPeThreadQueueAddr : Word := 0x803867D0#32

/-- `if (Memory::Contains(address, length))`. -/
def ifMapped (address : Word) (length : Nat) (body : OS Unit) : OS Unit := do
  if ← contains address (BitVec.ofNat 64 length) then body else return ()

/-- The handler table that the guest names; a null pointer is replaced. -/
def handlerTable : OS Word := do
  if ← contains kHandlerTablePtrAddr 4#64 then
    let table ← read32 kHandlerTablePtrAddr
    if table = 0#32 then
      write32 kHandlerTablePtrAddr kHandlerTableAddr
      return kHandlerTableAddr
    else return table
  else return kHandlerTableAddr

/-- `InstallHandler`. -/
def installHandler (interrupt handler : Word) : OS Unit := do
  if 32#32 ≤ interrupt then return ()
  let table ← handlerTable
  let entry := table + interrupt * 4#32
  ifMapped entry 4 (write32 entry handler)

/-- `Unmask`. -/
def unmask (mask : Word) : OS Unit :=
  ifMapped kInterruptMaskLoAddr 4 do
    let word ← read32 kInterruptMaskLoAddr
    write32 kInterruptMaskLoAddr (word &&& ~~~mask)

def publishCurrentThread : OS Unit :=
  ifMapped kGxCurrentThreadAddr 4 do
    let mapped ← contains kRunningContextAddr 4#64
    let current ← if mapped then read32 kRunningContextAddr else pure 0#32
    write32 kGxCurrentThreadAddr current

/-- The guest-visible state up to the shadow registers. -/
def clearState : OS Unit := do
  gxZeroWords kGxDataAddr kGxDataSize
  ifMapped (kGxDataAddr + 0x5F8#32) 3 do
    write8 (kGxDataAddr + 0x5F8#32) 0#8
    write8 (kGxDataAddr + 0x5F9#32) 1#8
    write8 (kGxDataAddr + 0x5FA#32) 1#8
  ifMapped kGxDataPtrAddr 4 (write32 kGxDataPtrAddr kGxDataAddr)
  installHandler 0x11#32 0x8016C668#32
  unmask 0x4000#32
  publishCurrentThread
  ifMapped kGxThreadQueueAddr 4 (write32 kGxThreadQueueAddr 0#32)
  gxZeroWords kCpuFifoObjAddr 0x24#32
  gxZeroWords kGpFifoObjAddr 0x24#32
  ifMapped kGxWrapFlagAddr 1 (write8 kGxWrapFlagAddr 0#8)
  ifMapped kGxWrapFlag2Addr 1 (write8 kGxWrapFlag2Addr 0#8)
  installHandler 0x12#32 0x8016ECCC#32
  installHandler 0x13#32 0x8016ED94#32
  unmask 0x1000#32
  unmask 0x2000#32
  ifMapped kPeThreadQueueAddr 4 (write32 kPeThreadQueueAddr 0#32)

/-- The body of the loop over the two base registers. -/
def baseEntries (r s : Word) : List SeedEntry :=
  [⟨kGxDataAddr + 0x108#32 + s, r <<< 24⟩,
    ⟨kGxDataAddr + 0x128#32 + s, (r + 1#32) <<< 24⟩,
    ⟨kGxDataAddr + 0x10C#32 + s, (r + 2#32) <<< 24⟩,
    ⟨kGxDataAddr + 0x12C#32 + s, (r + 3#32) <<< 24⟩,
    ⟨kGxDataAddr + 0x110#32 + s, (r + 4#32) <<< 24⟩,
    ⟨kGxDataAddr + 0x130#32 + s, (r + 5#32) <<< 24⟩,
    ⟨kGxDataAddr + 0x114#32 + s, (r + 6#32) <<< 24⟩,
    ⟨kGxDataAddr + 0x134#32 + s, (r + 7#32) <<< 24⟩]

/-- The words of the shadow registers, in the order of their stores. -/
def shadowEntries : List SeedEntry :=
  [⟨kGxDataAddr + 0x254#32, 0#32⟩, ⟨kGxDataAddr + 0x174#32, 0x0F0000FF#32⟩,
    ⟨kGxDataAddr + 0x07C#32, 0x22000000#32⟩, ⟨kGxDataAddr + 0x170#32, 0x27000000#32⟩,
    ⟨kGxDataAddr + 0x5E4#32, 0#32⟩, ⟨kGxDataAddr + 0x5E8#32, 0#32⟩,
    ⟨kGxDataAddr + 0x5FC#32, 0#32⟩] ++ baseEntries 0x30#32 0#32 ++ baseEntries 0x38#32 0x10#32

def storeWords : List SeedEntry → OS Unit
  | [] => return ()
  | e :: rest => do
    write32 e.address e.value
    storeWords rest

def fillShadows : OS Unit :=
  ifMapped kGxDataAddr kGxDataSize.toNat do
    let word ← read16 (kGxDataAddr + 0x0A#32)
    write16 (kGxDataAddr + 0x0A#32) (word ||| 0x000F#16)
    storeWords shadowEntries

end GxInit

open GxInit

/-- `mkw_switch_hle_gx_init`. -/
def gxInit (cpu : CpuPtr) : OS Unit := do
  if cpu = 0 then return ()
  setGpr cpu 3 kFifoObjAddr
  if ← isInitialized then
    clearState
    fillShadows
  else return ()

/-! ## The parts of the call -/

section

variable {config : List RegionConfig} {a : Word} {n : Nat}

theorem StoresOnly.ifMapped {body : OS Unit} (hn : 0 < n) (hn' : n ≤ 0x100000000)
    (hbody : InOneRegion config a.toNat n → StoresOnly config body) :
    StoresOnly config (ifMapped a n body) :=
  .bind_contains hn hn' hbody (.pure ())

theorem zeroWordLoop_storesOnly (hc : Admissible config)
    (hin : InOneRegion config a.toNat (4 * n)) : StoresOnly config (zeroWordLoop n a) := by
  induction n generalizing a with
  | zero => exact .pure ()
  | succ n ih =>
    refine .bind (storesOnly_write32 (hin.part (le_refl _) (by omega)) _) fun _ => ?_
    cases n with
    | zero => exact .pure ()
    | succ n => exact ih (hin.inside hc 4#32 (by simp only [BitVec.toNat_ofNat]; omega)
        (by simp only [BitVec.toNat_ofNat]; omega))

theorem gxZeroWords_storesOnly (hc : Admissible config) {size : Word} (hpos : 0 < size.toNat)
    (hwords : size.toNat % 4 = 0) : StoresOnly config (gxZeroWords a size) := by
  have hlt := size.isLt
  have hsize : size.setWidth 64 = BitVec.ofNat 64 size.toNat := by
    apply BitVec.eq_of_toNat_eq
    simp
  unfold gxZeroWords
  rw [hsize]
  refine .bind_contains hpos (by omega) (fun hin => ?_) (.pure ())
  exact zeroWordLoop_storesOnly hc (hin.part (le_refl _) (by omega))

theorem clearWord_storesOnly (x : Word) : StoresOnly config (ifMapped a 4 (write32 a x)) :=
  .ifMapped (by decide) (by decide) fun hin => storesOnly_write32 hin x

theorem handlerTable_storesOnly : StoresOnly config handlerTable := by
  unfold handlerTable
  refine .bind_contains (n := 4) (by decide) (by decide) (fun hin => ?_) (.pure _)
  refine .bind (storesOnly_read32 hin) fun table => ?_
  split
  · exact .bind (storesOnly_write32 hin _) fun _ => .pure _
  · exact .pure table

/-- A handler is stored wherever the guest has its table, or not at all. -/
theorem installHandler_storesOnly (interrupt handler : Word) :
    StoresOnly config (installHandler interrupt handler) := by
  unfold installHandler
  split
  · exact .pure ()
  · exact .bind handlerTable_storesOnly fun table => clearWord_storesOnly handler

theorem unmask_storesOnly (mask : Word) : StoresOnly config (unmask mask) :=
  .ifMapped (by decide) (by decide) fun hin =>
    .bind (storesOnly_read32 hin) fun _ => storesOnly_write32 hin _

theorem publishCurrentThread_storesOnly : StoresOnly config publishCurrentThread := by
  refine .ifMapped (by decide) (by decide) fun hin => ?_
  refine .bind_contains (n := 4) (by decide) (by decide) (fun hctx => ?_) ?_
  · exact .bind (storesOnly_read32 hctx) fun _ => storesOnly_write32 hin _
  · exact storesOnly_write32 hin _

theorem clearState_storesOnly (hc : Admissible config) : StoresOnly config clearState := by
  have hflags : InOneRegion config (kGxDataAddr + 0x5F8#32).toNat 3 →
      StoresOnly config (do
        write8 (kGxDataAddr + 0x5F8#32) 0#8
        write8 (kGxDataAddr + 0x5F9#32) 1#8
        write8 (kGxDataAddr + 0x5FA#32) 1#8) := by
    intro hin
    refine .bind (storesOnly_write8 (hin.part (by decide) (by decide)) _) fun _ => ?_
    refine .bind (storesOnly_write8 (hin.part (by decide) (by decide)) _) fun _ => ?_
    exact storesOnly_write8 (hin.part (by decide) (by decide)) _
  have hflag : ∀ flag, StoresOnly config (ifMapped flag 1 (write8 flag 0#8)) := fun flag =>
    .ifMapped (by decide) (by decide) fun hin => storesOnly_write8 hin _
  refine .bind (gxZeroWords_storesOnly hc (by decide) (by decide)) fun _ => ?_
  refine .bind (.ifMapped (by decide) (by decide) hflags) fun _ => ?_
  refine .bind (clearWord_storesOnly _) fun _ => ?_
  refine .bind (installHandler_storesOnly _ _) fun _ => ?_
  refine .bind (unmask_storesOnly _) fun _ => ?_
  refine .bind publishCurrentThread_storesOnly fun _ => ?_
  refine .bind (clearWord_storesOnly _) fun _ => ?_
  refine .bind (gxZeroWords_storesOnly hc (by decide) (by decide)) fun _ => ?_
  refine .bind (gxZeroWords_storesOnly hc (by decide) (by decide)) fun _ => ?_
  refine .bind (hflag _) fun _ => ?_
  refine .bind (hflag _) fun _ => ?_
  refine .bind (installHandler_storesOnly _ _) fun _ => ?_
  refine .bind (installHandler_storesOnly _ _) fun _ => ?_
  refine .bind (unmask_storesOnly _) fun _ => ?_
  refine .bind (unmask_storesOnly _) fun _ => ?_
  exact clearWord_storesOnly _

/-! ## The shadow registers -/

theorem shadowEntries_apart (config : List RegionConfig) : EntriesApart config shadowEntries := by
  have hlow : ∀ e ∈ shadowEntries, e.address.toNat % 0x20000000 + 4 ≤ 0x20000000 := by decide
  have hpairs : shadowEntries.Pairwise fun e e' =>
      e.address.toNat % 0x20000000 + 4 ≤ e'.address.toNat % 0x20000000 ∨
        e'.address.toNat % 0x20000000 + 4 ≤ e.address.toNat % 0x20000000 := by
    decide
  refine List.Pairwise.imp_of_mem ?_ hpairs
  intro e e' he he' hle
  exact apart_of_mod config (hlow e he) (hlow e' he') hle

/-- The shadow registers are part of the graphics state. -/
theorem shadowEntries_mapped (hin : InOneRegion config kGxDataAddr.toNat kGxDataSize.toNat) :
    ∀ e ∈ shadowEntries, InOneRegion config e.address.toNat 4 := by
  have hinside : ∀ e ∈ shadowEntries, kGxDataAddr.toNat ≤ e.address.toNat ∧
      e.address.toNat + 4 ≤ kGxDataAddr.toNat + kGxDataSize.toNat := by
    decide
  exact fun e he => hin.part (hinside e he).1 (hinside e he).2

/-- Stores that need no check do what the checked ones do. -/
theorem storeWords_eq {l : List SeedEntry} {s : Machine Memory} (hs : Serves config s.mem)
    (hin : ∀ e ∈ l, InOneRegion config e.address.toNat 4) : storeWords l s = seedWords l s := by
  induction l generalizing s with
  | nil => rfl
  | cons e l ih =>
    have he := hin e List.mem_cons_self
    obtain ⟨b, hrun, hiff⟩ := mapped32_iff hs e.address
    obtain rfl : b = true := hiff.mpr he
    obtain ⟨m, hw⟩ := hs.write32_some he e.value
    have hword : writeWord e.address e.value s = .ret () (s.withMem m) := by
      unfold writeWord
      rw [Routine.bind_of hrun, if_pos rfl]
      exact write32_ret hw
    unfold storeWords seedWords
    rw [Routine.bind_of (write32_ret hw), Routine.bind_of hword]
    exact ih (hs.write32 hw) fun e' he' => hin e' (List.mem_cons_of_mem _ he')

theorem fillShadows_runs {s : Machine Memory} (hs : Serves config s.mem) :
    ∃ m, fillShadows s = .ret () (s.withMem m) ∧ Serves config m ∧
      (InOneRegion config kGxDataAddr.toNat kGxDataSize.toNat →
        ∀ e ∈ shadowEntries, m.read32 e.address = some e.value) := by
  have hrun := contains_apply kGxDataAddr (BitVec.ofNat 64 kGxDataSize.toNat) s
  have hiff := hs.contains_iff kGxDataAddr (n := kGxDataSize.toNat) (by decide) (by decide)
  unfold fillShadows ifMapped
  rw [Routine.bind_of hrun]
  cases hmapped : s.mem.contains kGxDataAddr (BitVec.ofNat 64 kGxDataSize.toNat) with
  | false =>
    refine ⟨s.mem, rfl, hs, fun hin => ?_⟩
    rw [hiff.mpr hin] at hmapped
    cases hmapped
  | true =>
    have hin := hiff.mp hmapped
    have hhalf : InOneRegion config (kGxDataAddr + 0x0A#32).toNat 2 :=
      hin.part (by decide) (by decide)
    obtain ⟨x, hx⟩ := hs.read16_some hhalf
    obtain ⟨m₁, hw⟩ := hs.write16_some hhalf (x ||| 0x000F#16)
    have hs₁ : Serves config (s.withMem m₁).mem := hs.write16 hw
    obtain ⟨m₂, hrun₂, hseeded⟩ := seedWords_seeds hs₁ (shadowEntries_apart config)
    have hmappedAll := shadowEntries_mapped hin
    refine ⟨m₂, ?_, hseeded.serves, fun _ e he => hseeded.words e he (hmappedAll e he)⟩
    rw [if_pos rfl, Routine.bind_of (read16_ret hx), Routine.bind_of (write16_ret hw),
      storeWords_eq hs₁ hmappedAll, hrun₂]
    rfl

/-- GXInit returns in every memory, wherever the handler table lies. It changes r3 and the memory
alone, and fills the shadow registers where the graphics state is mapped. -/
theorem gx_init_returns_and_fills_the_shadows {s : Machine Memory} (hs : Serves config s.mem)
    {cpu : CpuPtr} (hcpu : cpu ≠ 0) :
    ∃ m, gxInit cpu s = .ret () ((s.setGpr cpu 3 kFifoObjAddr).withMem m) ∧ Serves config m ∧
      (InOneRegion config kGxDataAddr.toNat kGxDataSize.toNat →
        ∀ e ∈ shadowEntries, m.read32 e.address = some e.value) := by
  have hready : (s.setGpr cpu 3 kFifoObjAddr).mem.initialized = true := hs.initialized
  obtain ⟨_, m₁, hclear, hm₁⟩ :=
    clearState_storesOnly hs.admissible (s.setGpr cpu 3 kFifoObjAddr) hs
  obtain ⟨m₂, hfill, hm₂, hshadows⟩ :=
    fillShadows_runs (s := (s.setGpr cpu 3 kFifoObjAddr).withMem m₁) hm₁
  refine ⟨m₂, ?_, hm₂, hshadows⟩
  unfold gxInit
  rw [if_neg hcpu, Routine.bind_of (setGpr_apply cpu 3 kFifoObjAddr s),
    Routine.bind_of (isInitialized_apply _), hready, if_pos rfl, Routine.bind_of hclear, hfill]
  rfl

end

/-- GXInit on a booted Wii. -/
theorem gx_init_on_a_wii : ∃ m m', Serves wiiDefaults m ∧
    gxInit 1 (bootMachine m) = .ret () (((bootMachine m).setGpr 1 3 kFifoObjAddr).withMem m') ∧
    m'.read32 0x80343934#32 = some 0x0F0000FF#32 := by
  obtain ⟨m, hm⟩ := Option.isSome_iff_exists.mp wiiBoot_isSome
  have hs : Serves wiiDefaults (bootMachine m).mem := wiiBoot_serves hm
  obtain ⟨m', hrun, _, hshadows⟩ := gx_init_returns_and_fills_the_shadows hs
    (show (1 : CpuPtr) ≠ 0 by decide)
  have hin : InOneRegion wiiDefaults kGxDataAddr.toNat kGxDataSize.toNat :=
    lowMemory_mapped (by decide) (by decide)
  refine ⟨m, m', wiiBoot_serves hm, hrun, ?_⟩
  exact hshadows hin ⟨kGxDataAddr + 0x174#32, 0x0F0000FF#32⟩ (by simp [shadowEntries])

end wii_switch
