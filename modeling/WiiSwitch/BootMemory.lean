-- The low memory that the loader of a Wii leaves (source/wii_boot_low_memory.cpp). The seed
-- writes the words that are mapped, and the check reads them back: after a seed it passes
-- exactly when every word is mapped. The words lie apart, so no entry of the table is lost to
-- a later one.
import WiiSwitch.WiiLayout

namespace wii_switch

open Bytes OS

/-! ## The layout -/

def kMem1ArenaLoDefault : Word := 0x80399180#32
def kMem1ArenaHiDefault : Word := 0x817F0520#32
def kMem2LoFloor : Word := 0x90000800#32
def kDvdFstReserveSize : Word := 0x00200000#32
def kIpcArenaSize : Word := 0x00020000#32
def kIosReservedSize : Word := 0x00020000#32

/-- `Layout`. -/
structure BootLayout where
  mem1Size : Word
  mem1ArenaLo : Word
  mem1ArenaHi : Word
  mem2Size : Word
  mem2End : Word
  mem2ArenaLo : Word
  mem2ArenaHi : Word
  ipcBufferLo : Word
  ipcBufferHi : Word
  iosReservedLo : Word
  iosReservedHi : Word

/-- `pinned_layout`: the top of MEM2 goes to IOS, the IPC buffers and the file table, from
above. -/
def pinnedLayout : BootLayout :=
  let physicalMem2End := kMem2CachedBase + kMem2Size
  let iosReservedLo := physicalMem2End - kIosReservedSize
  let ipcBufferHi := iosReservedLo
  let ipcBufferLo := ipcBufferHi - kIpcArenaSize
  let mem2ArenaHi := ipcBufferLo - kDvdFstReserveSize
  { mem1Size := kMem1Size
    mem1ArenaLo := kMem1ArenaLoDefault
    mem1ArenaHi := kMem1ArenaHiDefault
    mem2Size := kMem2Size
    mem2End := iosReservedLo
    mem2ArenaLo := kMem2LoFloor
    mem2ArenaHi := mem2ArenaHi
    ipcBufferLo := ipcBufferLo
    ipcBufferHi := ipcBufferHi
    iosReservedLo := iosReservedLo
    iosReservedHi := physicalMem2End }

/-- `SeedEntry`. -/
structure SeedEntry where
  address : Word
  value : Word

/-- The words of the seed, and of the check. -/
def seedEntries (layout : BootLayout) : List SeedEntry :=
  [⟨0x80000028#32, layout.mem1Size⟩, ⟨0x80000030#32, layout.mem1ArenaLo⟩,
    ⟨0x80000034#32, layout.mem1ArenaHi⟩, ⟨0x800000F0#32, layout.mem1Size⟩,
    ⟨0x80003100#32, layout.mem1Size⟩, ⟨0x80003104#32, layout.mem1Size⟩,
    ⟨0x80003108#32, kMem1CachedBase + layout.mem1Size⟩, ⟨0x8000310C#32, layout.mem1ArenaLo⟩,
    ⟨0x80003110#32, layout.mem1ArenaHi⟩, ⟨0x80003118#32, layout.mem2Size⟩,
    ⟨0x8000311C#32, layout.mem2Size⟩, ⟨0x80003120#32, layout.mem2End⟩,
    ⟨0x80003124#32, layout.mem2ArenaLo⟩, ⟨0x80003128#32, layout.mem2ArenaHi⟩,
    ⟨0x80003130#32, layout.ipcBufferLo⟩, ⟨0x80003134#32, layout.ipcBufferHi⟩,
    ⟨0x80003138#32, 0x00000002#32⟩, ⟨0x80003148#32, layout.iosReservedLo⟩,
    ⟨0x8000314C#32, layout.iosReservedHi⟩]

/-! ## The seed and the check -/

def writeWord (address value : Word) : OS Unit := do
  if ← mapped32 address then write32 address value

def matchesWord (address value : Word) : OS Bool := do
  if ← mapped32 address then
    let found ← read32 address
    return found = value
  else return false

def seedWords : List SeedEntry → OS Unit
  | [] => pure ()
  | e :: rest => do
    writeWord e.address e.value
    seedWords rest

/-- The comparison stops at the first word that differs. -/
def matchesWords : List SeedEntry → OS Bool
  | [] => pure true
  | e :: rest => do
    if ← matchesWord e.address e.value then matchesWords rest else return false

/-- `seed_pinned_defaults`. -/
def seedPinnedDefaults : OS Unit := do
  if ← isInitialized then seedWords (seedEntries pinnedLayout) else return ()

/-- `matches_pinned_defaults`. -/
def matchesPinnedDefaults : OS Bool := do
  if ← isInitialized then matchesWords (seedEntries pinnedLayout) else return false

/-! ## Words that lie apart -/

section

variable {config : List RegionConfig} {s : Machine Memory} {l : List SeedEntry} {e : SeedEntry}

/-- The words of the entries share no byte. -/
def EntriesApart (config : List RegionConfig) (l : List SeedEntry) : Prop :=
  l.Pairwise fun e e' => Apart config e.address.toNat 4 e'.address.toNat 4

theorem seedEntries_apart (config : List RegionConfig) :
    EntriesApart config (seedEntries pinnedLayout) := by
  have hlow : ∀ e ∈ seedEntries pinnedLayout, e.address.toNat % 0x20000000 +
      4 ≤ 0x20000000 := by
    simp [seedEntries]
  have hsorted : (seedEntries pinnedLayout).Pairwise fun e e' =>
      e.address.toNat % 0x20000000 + 4 ≤ e'.address.toNat % 0x20000000 := by
    simp [seedEntries]
  refine List.Pairwise.imp_of_mem ?_ hsorted
  intro e e' he he' hle
  exact apart_of_mod config (hlow e he) (hlow e' he') (.inl hle)

/-- What a seed of some words leaves: the mapped ones have their values, and what lies apart
from them is as before. -/
structure Seeded (config : List RegionConfig) (l : List SeedEntry) (m m' : Memory) : Prop where
  serves : Serves config m'
  stores : ∃ ws, runStores m ws = some m'
  words : ∀ e ∈ l, InOneRegion config e.address.toNat 4 → m'.read32 e.address = some e.value
  others : ∀ (k : Width) (b : Word),
    (∀ e ∈ l, Apart config e.address.toNat 4 b.toNat k.bytes) → m'.read k b = m.read k b

theorem mapped32_iff (hs : Serves config s.mem) (a : Word) :
    ∃ b, mapped32 a s = .ret b s ∧ (b = true ↔ InOneRegion config a.toNat 4) :=
  ⟨_, mapped32_ret hs.initialized a, hs.contains_iff a (by omega) (by omega)⟩

/-- One word is written where it is mapped. -/
theorem writeWord_seeds (hs : Serves config s.mem) (e : SeedEntry) :
    ∃ m, writeWord e.address e.value s = .ret () (s.withMem m) ∧ Seeded config [e] s.mem m := by
  obtain ⟨b, hrun, hiff⟩ := mapped32_iff hs e.address
  unfold writeWord
  rw [Routine.bind_of hrun]
  cases b with
  | true =>
    obtain ⟨m, hw⟩ := hs.write32_some (hiff.mp rfl) e.value
    refine ⟨m, write32_ret hw, hs.write32 hw, ⟨[⟨.w32, e.address, e.value⟩], ?_⟩, ?_,
      ?_⟩
    · exact (List.foldlM_cons ..).trans (Option.bind_eq_some_iff.mpr ⟨m, hw, rfl⟩)
    · intro e' he' _
      rw [List.mem_singleton.mp he']
      exact hs.read_written (k := .w32) hw
    · intro k b hapart
      exact hs.read_frame (k := .w32) hw (hapart e List.mem_cons_self)
  | false =>
    refine ⟨s.mem, rfl, hs, ⟨[], rfl⟩, ?_, fun _ _ _ => rfl⟩
    intro e' he' hin
    rw [List.mem_singleton.mp he'] at hin
    exact absurd (hiff.mpr hin) (by decide)

theorem Seeded.cons {m m₁ m₂ : Memory} (h₁ : Seeded config [e] m m₁)
    (h₂ : Seeded config l m₁ m₂)
    (hapart : ∀ e' ∈ l, Apart config e.address.toNat 4 e'.address.toNat 4) :
    Seeded config (e :: l) m m₂ := by
  constructor
  case serves => exact h₂.serves
  case stores =>
    obtain ⟨ws, hws⟩ := h₁.stores
    obtain ⟨ws', hws'⟩ := h₂.stores
    refine ⟨ws ++ ws', ?_⟩
    rw [runStores, List.foldlM_append]
    exact Option.bind_eq_some_iff.mpr ⟨m₁, hws, hws'⟩
  case words =>
    intro e' he' hin
    rcases List.mem_cons.mp he' with rfl | he'
    · have hkept := h₂.others .w32 e'.address fun e'' he'' => (hapart e'' he'').symm
      exact hkept.trans (h₁.words e' List.mem_cons_self hin)
    · exact h₂.words e' he' hin
  case others =>
    intro k b hall
    have hlater := h₂.others k b fun e' he' => hall e' (List.mem_cons_of_mem _ he')
    have hfirst := h₁.others k b fun e' he' => by
      rw [List.mem_singleton.mp he']
      exact hall e List.mem_cons_self
    exact hlater.trans hfirst

theorem seedWords_seeds (hs : Serves config s.mem) (hapart : EntriesApart config l) :
    ∃ m, seedWords l s = .ret () (s.withMem m) ∧ Seeded config l s.mem m := by
  induction l generalizing s with
  | nil => exact ⟨s.mem, rfl, hs, ⟨[], rfl⟩, by simp, fun _ _ _ => rfl⟩
  | cons e l ih =>
    obtain ⟨hhead, htail⟩ := List.pairwise_cons.mp hapart
    obtain ⟨m₁, hrun₁, h₁⟩ := writeWord_seeds hs e
    obtain ⟨m₂, hrun₂, h₂⟩ := ih (s := s.withMem m₁) h₁.serves htail
    unfold seedWords
    rw [Routine.bind_of hrun₁]
    exact ⟨m₂, hrun₂, h₁.cons h₂ hhead⟩

/-- A check of words that have their values where they are mapped. -/
theorem matchesWords_ret (hs : Serves config s.mem)
    (hwords : ∀ e ∈ l, InOneRegion config e.address.toNat 4 →
      s.mem.read32 e.address = some e.value) :
    ∃ b, matchesWords l s = .ret b s ∧
      (b = true ↔ ∀ e ∈ l, InOneRegion config e.address.toNat 4) := by
  induction l with
  | nil => exact ⟨true, rfl, by simp⟩
  | cons e l ih =>
    obtain ⟨b, hrest, hall⟩ := ih fun e' he' => hwords e' (List.mem_cons_of_mem _ he')
    obtain ⟨b', hrun, hiff⟩ := mapped32_iff hs e.address
    unfold matchesWords matchesWord
    cases b' with
    | true =>
      have hin := hiff.mp rfl
      have hread := read32_ret (hwords e List.mem_cons_self hin)
      refine ⟨b, ?_, by simp [hall, hin]⟩
      simp only [Routine.bind_apply, hrun, Coop.bind_ret, if_true, hread, Routine.pure_apply,
        decide_true, hrest]
    | false =>
      have hout : ¬InOneRegion config e.address.toNat 4 := fun hin =>
        absurd (hiff.mpr hin) (by decide)
      refine ⟨false, ?_, by simp [hout]⟩
      simp only [Routine.bind_apply, hrun, Coop.bind_ret, Bool.false_eq_true, if_false,
        Routine.pure_apply]

/-- The check of a seeded memory passes exactly when all words are mapped, and a second seed
changes nothing that can be read. -/
structure ChecksOut (config : List RegionConfig) (s : Machine Memory) (m : Memory) : Prop where
  seeded : Seeded config (seedEntries pinnedLayout) s.mem m
  checks : ∃ b, matchesPinnedDefaults (s.withMem m) = .ret b (s.withMem m) ∧
    (b = true ↔ ∀ e ∈ seedEntries pinnedLayout, InOneRegion config e.address.toNat 4)
  again : ∃ m', seedPinnedDefaults (s.withMem m) = .ret () (s.withMem m') ∧
    ∀ e ∈ seedEntries pinnedLayout, m'.read32 e.address = m.read32 e.address

theorem seedPinnedDefaults_runs (hs : Serves config s.mem) :
    ∃ m, seedPinnedDefaults s = .ret () (s.withMem m) ∧
      Seeded config (seedEntries pinnedLayout) s.mem m := by
  obtain ⟨m, hrun, hseeded⟩ := seedWords_seeds hs (seedEntries_apart config)
  refine ⟨m, ?_, hseeded⟩
  unfold seedPinnedDefaults
  rw [Routine.bind_of (isInitialized_apply s), hs.initialized, if_pos rfl]
  exact hrun

theorem Seeded.unmapped {m m' : Memory} (h : Seeded config l m m') (hs : Serves config m)
    (a : Word) (hout : ¬InOneRegion config a.toNat 4) : m'.read32 a = m.read32 a := by
  have hnone : ∀ {m}, Serves config m → m.read32 a = none := fun hm =>
    Option.not_isSome_iff_eq_none.mp fun hsome => hout ((hm.read32_isSome a).mp hsome)
  rw [hnone h.serves, hnone hs]

/-- The seed of the low memory, on whatever regions are mapped. -/
theorem low_memory_checks_out (hs : Serves config s.mem) :
    ∃ m, seedPinnedDefaults s = .ret () (s.withMem m) ∧ ChecksOut config s m := by
  obtain ⟨m, hrun, hseeded⟩ := seedPinnedDefaults_runs hs
  refine ⟨m, hrun, hseeded, ?_, ?_⟩
  · obtain ⟨b, hcheck, hiff⟩ :=
      matchesWords_ret (s := s.withMem m) hseeded.serves hseeded.words
    refine ⟨b, ?_, hiff⟩
    unfold matchesPinnedDefaults
    rw [Routine.bind_of (isInitialized_apply _), Machine.withMem_mem, hseeded.serves.initialized,
      if_pos rfl]
    exact hcheck
  · obtain ⟨m', hrun', hagain⟩ := seedPinnedDefaults_runs (s := s.withMem m) hseeded.serves
    refine ⟨m', hrun', fun e he => ?_⟩
    by_cases hin : InOneRegion config e.address.toNat 4
    · rw [hagain.words e he hin, hseeded.words e he hin]
    · exact hagain.unmapped hseeded.serves e.address hin

end

theorem seedEntries_mapped :
    ∀ e ∈ seedEntries pinnedLayout, InOneRegion wiiDefaults e.address.toNat 4 := by
  have hlow : ∀ e ∈ seedEntries pinnedLayout, 0x80000000 ≤ e.address.toNat ∧
      e.address.toNat + 4 ≤ 0x81800000 := by
    simp [seedEntries]
  exact fun e he => lowMemory_mapped (hlow e he).1 (hlow e he).2

/-- A booted Wii passes the check after its seed. -/
theorem a_seeded_wii_passes_the_check : ∃ m m', wiiBoot = some m ∧
    ChecksOut wiiDefaults (bootMachine m) m' ∧
    matchesPinnedDefaults ((bootMachine m).withMem m') =
      .ret true ((bootMachine m).withMem m') := by
  obtain ⟨m, hm⟩ := Option.isSome_iff_exists.mp wiiBoot_isSome
  obtain ⟨m', _, hout⟩ := low_memory_checks_out (s := bootMachine m) (wiiBoot_serves hm)
  obtain ⟨b, hcheck, hiff⟩ := hout.checks
  rw [hiff.mpr seedEntries_mapped] at hcheck
  exact ⟨m, m', hm, hout, hcheck⟩

-- MEM2 ends with the file table, the IPC buffers and IOS.
example : pinnedLayout.mem2ArenaHi = 0x97DC0000#32 ∧ pinnedLayout.iosReservedHi =
    0x98000000#32 := by
  decide

end wii_switch
