-- The indirect dispatch table (source/switch_indirect_dispatch.cpp). A target is
-- looked up by its segment, its page and a search in the page; the record that is
-- found is run between two guards, which keep the nonvolatile registers.
import WiiSwitch.Lib.LowerBound
import WiiSwitch.Machine

namespace wii_switch

open OS

/-! ## The table -/

/-- `RawDispatchRecord`. The entry is a routine on a register file. -/
structure DispatchRecord where
  address : Word
  entry : Option (CpuPtr → OS Unit)
  nonvolatileFprWriteMask : Word
  preserveNonvolatileGprs : Bool

structure StaticIndirectDispatchPage where
  firstEntry : Word
  entryCount : Half
deriving DecidableEq

/-- The page array of a segment is read by its index, at any place that the table
names. -/
structure StaticIndirectDispatchSegment where
  pages : Option (Nat → StaticIndirectDispatchPage)
  firstPage : Half
  pageCount : Half

structure StaticIndirectDispatchTable where
  segments : Option (Nat → StaticIndirectDispatchSegment)
  entries : Option (Nat → DispatchRecord)
  entryCount : Nat

/-- `address >> 24`. -/
def segmentOf (address : Word) : Nat := (address >>> 24).toNat

/-- `(address >> 12) & 0xFFF`. -/
def pageNumberOf (address : Word) : Nat := ((address >>> 12) &&& 0x0FFF#32).toNat

/-- The first place of the page, from `first` on, whose record is not below the address. -/
def lowerEntry (entries : Nat → DispatchRecord) (address : Word) (first count : Nat) : Nat :=
  LowerBound.search (fun i => (entries i).address < address) first (first + count)

/-- The search of `FindStaticIndirectDispatchEntry` in one page. -/
def findInPage (entries : Nat → DispatchRecord) (entryCount : Nat)
    (page : StaticIndirectDispatchPage) (address : Word) : Option Nat :=
  let first := page.firstEntry.toNat
  let count := page.entryCount.toNat
  if first > entryCount ∨ count > entryCount - first then none
  else
    let lower := lowerEntry entries address first count
    if lower < first + count ∧ (entries lower).address = address then some lower else none

/-- The page of an address in its segment. -/
def pageOf (segment : StaticIndirectDispatchSegment) (address : Word) :
    Option StaticIndirectDispatchPage :=
  match segment.pages with
  | none => none
  | some pages =>
    if pageNumberOf address < segment.firstPage.toNat then none
    else
      let relativePage := pageNumberOf address - segment.firstPage.toNat
      if relativePage ≥ segment.pageCount.toNat then none else some (pages relativePage)

/-- `FindStaticIndirectDispatchEntry`: the record, with its index. -/
def findStaticIndirectDispatchEntry (table : Option StaticIndirectDispatchTable) (address : Word) :
    Option (Nat × DispatchRecord) :=
  match table with
  | none => none
  | some table =>
    match table.segments, table.entries with
    | some segments, some entries =>
      if table.entryCount = 0 then none
      else
        match pageOf (segments (segmentOf address)) address with
        | none => none
        | some page =>
          (findInPage entries table.entryCount page address).map fun i => (i, entries i)
    | _, _ => none

/-! ## The call -/

/-- The guards of a record. -/
def DispatchRecord.guards (record : DispatchRecord) : RawDispatchRecord :=
  ⟨record.preserveNonvolatileGprs, record.nonvolatileFprWriteMask⟩

/-- `mkw_switch_try_dispatch_indirect`, with the published table. -/
def tryDispatchTable (table : Option StaticIndirectDispatchTable) (target : Word) (cpu : CpuPtr) :
    OS Bool := do
  if cpu = 0 then return false
  match findStaticIndirectDispatchEntry table target with
  | none => return false
  | some (_, record) =>
    match record.entry with
    | none => return false
    | some entry =>
      let old ← Routine.gets fun s => s.cpus cpu
      entry cpu
      onCpu cpu (restoreNonvolatile record.guards old)
      return true

/-! ## The lookup -/

/-- What the search in a page finds is at the address, and in the table. -/
theorem findInPage_some {entries : Nat → DispatchRecord} {n i : Nat}
    {page : StaticIndirectDispatchPage} {address : Word}
    (h : findInPage entries n page address = some i) : (entries i).address = address ∧ i < n := by
  simp only [findInPage, Option.ite_none_left_eq_some, Option.ite_none_right_eq_some,
    Option.some.injEq] at h
  obtain ⟨hrange, ⟨hlt, haddr⟩, rfl⟩ := h
  exact ⟨haddr, by omega⟩

/-- A record that is found is at the address and in the table, also when the pages of the
table are wrong. -/
theorem find_some {table : Option StaticIndirectDispatchTable} {address : Word} {i : Nat}
    {record : DispatchRecord}
    (h : findStaticIndirectDispatchEntry table address = some (i, record)) :
    record.address = address ∧ ∃ t entries, table = some t ∧ t.entries = some entries ∧
      record = entries i ∧ i < t.entryCount := by
  unfold findStaticIndirectDispatchEntry at h
  split at h
  · cases h
  rename_i t
  split at h
  · rename_i segments entries _ he
    split at h
    · cases h
    split at h
    · cases h
    obtain ⟨k, hk, heq⟩ := Option.map_eq_some_iff.mp h
    obtain ⟨rfl, rfl⟩ := Prod.mk.inj heq
    obtain ⟨haddr, hlt⟩ := findInPage_some hk
    exact ⟨haddr, t, entries, rfl, he, rfl, hlt⟩
  · cases h

/-- The place `i` is in the page. -/
def StaticIndirectDispatchPage.Holds (page : StaticIndirectDispatchPage) (i : Nat) : Prop :=
  page.firstEntry.toNat ≤ i ∧ i < page.firstEntry.toNat + page.entryCount.toNat

/-- A table as it is published: its pages partition the entries by address, and the
entries of a page are strictly ascending. -/
structure Published (t : StaticIndirectDispatchTable)
    (segments : Nat → StaticIndirectDispatchSegment)
    (entries : Nat → DispatchRecord) : Prop where
  segments_eq : t.segments = some segments
  entries_eq : t.entries = some entries
  inside : ∀ address page, pageOf (segments (segmentOf address)) address = some page →
    page.firstEntry.toNat + page.entryCount.toNat ≤ t.entryCount
  home : ∀ address page, pageOf (segments (segmentOf address)) address = some page →
    ∀ i, page.Holds i → segmentOf (entries i).address = segmentOf address ∧
      pageNumberOf (entries i).address = pageNumberOf address
  ascending : ∀ address page, pageOf (segments (segmentOf address)) address = some page →
    ∀ i j, page.Holds i → page.Holds j → i < j → (entries i).address < (entries j).address
  covers : ∀ i < t.entryCount, ∃ page,
    pageOf (segments (segmentOf (entries i).address))
      (entries i).address = some page ∧ page.Holds i

section

variable {t : StaticIndirectDispatchTable} {segments : Nat → StaticIndirectDispatchSegment}
  {entries : Nat → DispatchRecord}

/-- The search in a published page finds the record of the address. -/
theorem Published.findInPage_eq (h : Published t segments entries)
    {page : StaticIndirectDispatchPage} {i : Nat}
    (hpage : pageOf (segments (segmentOf (entries i).address)) (entries i).address = some page)
    (hi : page.Holds i) : findInPage entries t.entryCount page (entries i).address = some i := by
  have hinside := h.inside _ _ hpage
  have hasc := h.ascending _ _ hpage
  have hsorted : LowerBound.Sorted (fun k => (entries k).address < (entries i).address)
      page.firstEntry.toNat (page.firstEntry.toNat + page.entryCount.toNat) := by
    intro j k hj hjk hk hbelow
    have hlt := hasc j k ⟨hj, by omega⟩ ⟨by omega, hk⟩ hjk
    simp only [decide_eq_true_eq] at hbelow ⊢
    exact BitVec.lt_trans hlt hbelow
  have hfound : lowerEntry entries (entries i).address page.firstEntry.toNat page.entryCount.toNat =
      i := by
    refine LowerBound.search_eq hsorted hi.1 hi.2 ?_ fun j hj hji => ?_
    · exact decide_eq_false (BitVec.lt_irrefl _)
    · exact decide_eq_true (hasc j i ⟨hj, by have := hi.2; omega⟩ hi hji)
  simp only [findInPage, hfound]
  rw [if_neg (by omega), if_pos ⟨hi.2, trivial⟩]

/-- The lookup in a published table finds exactly the record of the address. -/
theorem Published.find_iff (h : Published t segments entries) (address : Word) (i : Nat)
    (record : DispatchRecord) :
    findStaticIndirectDispatchEntry (some t) address = some (i, record) ↔
      i < t.entryCount ∧ record = entries i ∧ record.address = address := by
  constructor
  · intro hfind
    obtain ⟨haddr, t', entries', ht, he, hrec, hlt⟩ := find_some hfind
    obtain rfl := Option.some.inj ht
    rw [h.entries_eq] at he
    obtain rfl := Option.some.inj he
    exact ⟨hlt, hrec, haddr⟩
  · rintro ⟨hlt, rfl, rfl⟩
    obtain ⟨page, hpage, hi⟩ := h.covers i hlt
    have hne : t.entryCount ≠ 0 := by omega
    simp only [findStaticIndirectDispatchEntry, h.segments_eq, h.entries_eq, if_neg hne, hpage,
      h.findInPage_eq hpage hi, Option.map_some]

/-! ## The contract of a call -/

/-- What a call leaves in the register file: the nonvolatile registers that the record
protects are as at the call, and all others are as the callee left them. -/
structure Honours (record : DispatchRecord) (atCall left now : CpuContext) : Prop where
  kept_gpr : ∀ i : Fin 32, record.preserveNonvolatileGprs = true → 14 ≤ i.val →
    now.gpr i = atCall.gpr i
  left_gpr : ∀ i : Fin 32, ¬ (record.preserveNonvolatileGprs = true ∧ 14 ≤ i.val) →
    now.gpr i = left.gpr i
  kept_fpr : ∀ i : Fin 32, 14 ≤ i.val → record.nonvolatileFprWriteMask.getLsbD i = true →
    now.fpr i = atCall.fpr i
  left_fpr : ∀ i : Fin 32,
    ¬ (14 ≤ i.val ∧ record.nonvolatileFprWriteMask.getLsbD i = true) →
    now.fpr i = left.fpr i
  rest : now = { left with gpr := now.gpr, fpr := now.fpr }

/-- The mask of the guard is over the nonvolatile registers alone. -/
theorem nonvolatile_mask (mask : Word) (i : Fin 32) (h : 14 ≤ i.val) :
    (mask &&& 0xFFFFC000#32).getLsbD i = mask.getLsbD i := by
  have hbit : ∀ i : Fin 32, 14 ≤ i.val → (0xFFFFC000#32).getLsbD i = true := by decide
  rw [BitVec.getLsbD_and, hbit i h, Bool.and_true]

theorem restoreNonvolatile_honours (record : DispatchRecord) (atCall left : CpuContext) :
    Honours record atCall left (restoreNonvolatile record.guards atCall left) where
  kept_gpr := fun _ hp hi => if_pos ⟨hp, hi⟩
  left_gpr := fun _ hn => if_neg hn
  kept_fpr := fun i hi hm => if_pos ⟨hi, by rw [nonvolatile_mask _ i hi]; exact hm⟩
  left_fpr := fun i hn => if_neg fun h =>
    hn ⟨h.1, by rw [← nonvolatile_mask _ i h.1]; exact h.2⟩
  rest := rfl

/-- The machine after a call: only the register file has changed since the callee. -/
structure Returned (record : DispatchRecord) (cpu : CpuPtr)
    (s left now : Machine Memory) : Prop where
  honours : Honours record (s.cpus cpu) (left.cpus cpu) (now.cpus cpu)
  others : ∀ c, c ≠ cpu → now.cpus c = left.cpus c
  rest : now = { left with cpus := now.cpus }

theorem returned_restore (record : DispatchRecord) (cpu : CpuPtr) (s left : Machine Memory) :
    Returned record cpu s left
      (left.onCpu cpu (restoreNonvolatile record.guards (s.cpus cpu))) where
  honours := by
    simp only [Machine.onCpu, Function.update_self]
    exact restoreNonvolatile_honours record _ _
  others := fun c hc => by simp [Machine.onCpu, hc]
  rest := rfl

/-- A target with a record is called once, and the registers are as the record says. -/
theorem tryDispatchTable_found {table : Option StaticIndirectDispatchTable} {target : Word}
    {cpu : CpuPtr} (hcpu : cpu ≠ 0) {i : Nat} {record : DispatchRecord}
    {entry : CpuPtr → OS Unit}
    (hfind : findStaticIndirectDispatchEntry table target = some (i, record))
    (hentry : record.entry = some entry) (s : Machine Memory) :
    tryDispatchTable table target cpu s = (entry cpu s).bind fun _ left =>
      .ret true (left.onCpu cpu (restoreNonvolatile record.guards (s.cpus cpu))) := by
  simp only [tryDispatchTable, if_neg hcpu, hfind, hentry]
  rfl

/-- Any other target is not called, and nothing changes. -/
theorem tryDispatchTable_missed {table : Option StaticIndirectDispatchTable} {target : Word}
    {cpu : CpuPtr} (hnone : ∀ i record entry,
      findStaticIndirectDispatchEntry table target = some (i, record) →
      record.entry ≠ some entry)
    (s : Machine Memory) : tryDispatchTable table target cpu s = .ret false s := by
  unfold tryDispatchTable
  rw [Routine.ite_apply]
  split
  · rfl
  cases hfind : findStaticIndirectDispatchEntry table target with
  | none => rfl
  | some x =>
    obtain ⟨i, record⟩ := x
    cases hentry : record.entry with
    | none => simp only [hentry, Routine.pure_apply]
    | some entry => exact absurd hentry (hnone i record entry hfind)

/-- What the machine knows of a table: the guards of each record that has an entry. -/
def dispatchOf (table : Option StaticIndirectDispatchTable) (target : Word) :
    Option RawDispatchRecord :=
  match findStaticIndirectDispatchEntry table target with
  | none => none
  | some (_, record) => record.entry.map fun _ => record.guards

/-- The dispatch of the machine is the dispatch through the table, where the entries of
the table are guest code. -/
theorem tryDispatchIndirect_eq {table : Option StaticIndirectDispatchTable} {target : Word}
    {cpu : CpuPtr} (hcode : ∀ i record entry,
      findStaticIndirectDispatchEntry table target = some (i, record) →
      record.entry = some entry →
        entry cpu = Routine.call (.guest target cpu))
    {s : Machine Memory} (hs : s.dispatch = dispatchOf table) :
    tryDispatchIndirect .guest target cpu s = tryDispatchTable table target cpu s := by
  unfold tryDispatchIndirect tryDispatchTable
  by_cases hcpu : cpu = 0
  · rw [if_pos hcpu, if_pos hcpu]
  rw [if_neg hcpu, if_neg hcpu, Routine.bind_of (Routine.gets_apply ..), hs, dispatchOf]
  cases hfind : findStaticIndirectDispatchEntry table target with
  | none => rfl
  | some x =>
    obtain ⟨i, record⟩ := x
    cases hentry : record.entry with
    | none => simp only [hentry, Option.map_none]
    | some entry => simp only [hentry, Option.map_some, hcode i record entry hfind hentry]

/-- The dispatch through a table. What is found, in any table, is at the address and in
the table. A published table has exactly its own targets: a target whose record has an
entry is run once and then has the registers that the record promises; any other target is
not run. Without a register file nothing is run. -/
theorem the_dispatch_runs_the_registered_target :
    (∀ table address i record, findStaticIndirectDispatchEntry table address =
      some (i, record) →
      record.address = address ∧ ∃ t entries, table = some t ∧ t.entries = some entries ∧
        record = entries i ∧ i < t.entryCount) ∧
    (∀ table target s, tryDispatchTable table target 0 s = .ret false s) ∧
    ∀ t segments entries, Published t segments entries → ∀ target cpu s, cpu ≠ 0 →
      (∀ i entry, i < t.entryCount → (entries i).address = target →
        (entries i).entry = some entry →
        ∃ now : Machine Memory → Machine Memory,
          (∀ left, Returned (entries i) cpu s left (now left)) ∧
          tryDispatchTable (some t) target cpu s =
            (entry cpu s).bind fun _ left => .ret true (now left)) ∧
      ((∀ i < t.entryCount, (entries i).address = target → (entries i).entry = none) →
        tryDispatchTable (some t) target cpu s = .ret false s) := by
  refine ⟨fun _ _ _ _ => find_some, fun _ _ _ => rfl,
    fun t segments entries h target cpu s hcpu =>
    ⟨fun i entry hlt haddr hentry => ?_, fun hnone => ?_⟩⟩
  · have hfind := (h.find_iff target i (entries i)).mpr ⟨hlt, rfl, haddr⟩
    exact ⟨_, returned_restore (entries i) cpu s, tryDispatchTable_found hcpu hfind hentry s⟩
  · refine tryDispatchTable_missed (fun i record entry hfind hentry => ?_) s
    obtain ⟨hlt, rfl, haddr⟩ := (h.find_iff target i record).mp hfind
    rw [hnone i hlt haddr] at hentry
    cases hentry

end

/-! ## A table with one record -/

/-- A callee that changes a nonvolatile and a volatile register. -/
def scratchEntry (cpu : CpuPtr) : OS Unit := do
  setGpr cpu 14 7#32
  setGpr cpu 3 5#32

def oneRecord : DispatchRecord := ⟨0x80001000#32, some scratchEntry, 0xFFFFC000#32, true⟩

def oneSegment (i : Nat) : StaticIndirectDispatchSegment :=
  if i = 0x80 then ⟨some fun _ => ⟨0#32, 1#16⟩, 1#16, 1#16⟩ else ⟨none, 0#16, 0#16⟩

def oneRecordTable : StaticIndirectDispatchTable :=
    ⟨some oneSegment, some fun _ => oneRecord, 1⟩

/-- Only the page of the record is there. -/
theorem oneRecord_page {address : Word} {page : StaticIndirectDispatchPage}
    (h : pageOf (oneSegment (segmentOf address)) address = some page) :
    page = ⟨0#32, 1#16⟩ ∧ segmentOf address = 0x80 ∧ pageNumberOf address = 1 := by
  unfold oneSegment at h
  split at h
  · rename_i hseg
    simp only [pageOf, Option.ite_none_left_eq_some, Option.some.injEq, BitVec.toNat_ofNat] at h
    exact ⟨h.2.2.symm, hseg, by omega⟩
  · cases h

theorem oneRecordTable_published : Published oneRecordTable oneSegment fun _ => oneRecord where
  segments_eq := rfl
  entries_eq := rfl
  inside := fun _ _ h => by
    rw [(oneRecord_page h).1]
    decide
  home := fun _ _ h _ _ => by
    obtain ⟨-, hs, hp⟩ := oneRecord_page h
    rw [hs, hp]
    decide
  ascending := fun _ _ h i j hi hj hij => by
    have h1 := hi.2
    have h2 := hj.2
    rw [(oneRecord_page h).1] at h1 h2
    simp only [BitVec.toNat_ofNat] at h1 h2
    omega
  covers := fun i hi => by
    refine ⟨⟨0#32, 1#16⟩, by decide, ?_⟩
    have hi : i < 1 := hi
    simp only [StaticIndirectDispatchPage.Holds, BitVec.toNat_ofNat]
    omega

/-- A machine without memory. -/
def bareMachine : Machine Memory where
  mem := ⟨false, [], .fresh, ⟨fun _ => none, 0, []⟩⟩
  interruptsEnabled := false
  interruptMask := 0#32
  flushMode := false
  cpus := fun _ => .zero
  fibers := ⟨fun _ => .none, 0, 0#32, 0⟩
  hosts := ⟨0, 1, fun _ => 0#32, fun _ => false, fun _ => true⟩
  nand := .start fun _ => ⟨false, []⟩
  dispatch := fun _ => none
  translated := fun _ => none

/-- The law at that table: the callee keeps its r3, and the caller its r14. -/
theorem the_registered_target_keeps_r14 :
    ((tryDispatchTable (some oneRecordTable) 0x80001000#32 1 bareMachine).ended.map fun r =>
      (r.1, r.2.gpr 1 3, r.2.gpr 1 14)) = some (true, 5#32, 0#32) := by
  obtain ⟨now, hnow, heq⟩ :=
    (the_dispatch_runs_the_registered_target.2.2 oneRecordTable oneSegment
    (fun _ => oneRecord) oneRecordTable_published 0x80001000#32 1 bareMachine (by decide)).1 0
    scratchEntry (by decide) rfl rfl
  have hret := hnow ((bareMachine.setGpr 1 14 7#32).setGpr 1 3 5#32)
  have hrun : tryDispatchTable (some oneRecordTable) 0x80001000#32 1 bareMachine =
      .ret true (now ((bareMachine.setGpr 1 14 7#32).setGpr 1 3 5#32)) := heq
  rw [hrun]
  simp only [Coop.ended, Option.map_some, Option.some.injEq, Prod.mk.injEq, true_and]
  exact ⟨hret.honours.left_gpr 3 (by decide), hret.honours.kept_gpr 14 rfl (by decide)⟩

end wii_switch
