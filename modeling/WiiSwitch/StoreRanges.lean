-- Routines that store to known ranges of guest memory. What they leave is every read apart
-- from the ranges, and a list of stores to ranges apart from each other leaves all its values.
import WiiSwitch.MemoryFrames
import WiiSwitch.OSThread

namespace wii_switch

open Bytes OS

/-- Where a range of guest memory starts, and how many bytes it has. -/
abbrev MemRange := Word × Nat

/-- A range is mapped. -/
def MemRange.Mapped (config : List RegionConfig) (r : MemRange) : Prop :=
  InOneRegion config r.1.toNat r.2

/-- Two ranges share no byte. -/
def MemRange.Off (config : List RegionConfig) (r q : MemRange) : Prop :=
  Apart config r.1.toNat r.2 q.1.toNat q.2

/-- The first range is a part of the second. -/
def MemRange.Inside (r q : MemRange) : Prop :=
  q.1.toNat ≤ r.1.toNat ∧ r.1.toNat + r.2 ≤ q.1.toNat + q.2

section

variable {config : List RegionConfig} {r r' q : MemRange}

theorem MemRange.Inside.off (h : r.Inside r') (hoff : r'.Off config q) : r.Off config q := by
  unfold Inside at h
  intro i hi j hj
  have hshift := hoff (r.1.toNat - r'.1.toNat + i) (by omega) j hj
  rw [← Nat.add_assoc, Nat.add_sub_cancel' h.1] at hshift
  exact hshift

theorem MemRange.Inside.off_right (h : r.Inside r') (hoff : q.Off config r') : q.Off config r :=
  (h.off hoff.symm).symm

theorem MemRange.Inside.mapped (h : r.Inside r') (hmap : r'.Mapped config) : r.Mapped config := by
  obtain ⟨q, hq, hlow, hhigh⟩ := hmap
  unfold Inside at h
  exact ⟨q, hq, by omega, by omega⟩

end

/-! ## Memories that differ in ranges only -/

/-- Every read apart from the ranges gives what it gave before. -/
structure Leaves (config : List RegionConfig) (R : Set MemRange) (m m' : Memory) : Prop where
  serves : Serves config m'
  frame : ∀ (k : Width) (a : Word), (∀ r ∈ R, r.Off config (a, k.bytes)) →
    m'.read k a = m.read k a

section

variable {config : List RegionConfig} {R R' : Set MemRange} {m m' m'' : Memory}

theorem Leaves.refl (hs : Serves config m) : Leaves config R m m := ⟨hs, fun _ _ _ => rfl⟩

theorem Leaves.trans (h : Leaves config R m m') (h' : Leaves config R m' m'') :
    Leaves config R m m'' :=
  ⟨h'.serves, fun k a hoff => (h'.frame k a hoff).trans (h.frame k a hoff)⟩

/-- Larger ranges leave less. -/
theorem Leaves.cover (h : Leaves config R m m') (hcover : ∀ r ∈ R, ∃ r' ∈ R', r.Inside r') :
    Leaves config R' m m' := by
  refine ⟨h.serves, fun k a hoff => h.frame k a fun r hr => ?_⟩
  obtain ⟨r', hr', hin⟩ := hcover r hr
  exact hin.off (hoff r' hr')

theorem Leaves.mono (h : Leaves config R m m') (hsub : R ⊆ R') : Leaves config R' m m' :=
  ⟨h.serves, fun k a hoff => h.frame k a fun r hr => hoff r (hsub hr)⟩

theorem Leaves.write (hs : Serves config m) {k : Width} {a : Word} {x : BitVec k.bits}
    (hw : m.write k a x = some m') : Leaves config {(a, k.bytes)} m m' :=
  ⟨hs.write hw, fun _ _ hoff => hs.read_frame hw (hoff _ rfl)⟩

theorem Leaves.read32 (h : Leaves config R m m') {a : Word}
    (hoff : ∀ r ∈ R, r.Off config (a, 4)) : m'.read32 a = m.read32 a := h.frame .w32 a hoff

theorem Leaves.read16 (h : Leaves config R m m') {a : Word}
    (hoff : ∀ r ∈ R, r.Off config (a, 2)) : m'.read16 a = m.read16 a := h.frame .w16 a hoff

end

/-! ## Routines that store to ranges -/

/-- The routine returns, and stores to the ranges only. -/
def StoresIn {α : Type} (config : List RegionConfig) (R : Set MemRange) (x : OS α) : Prop :=
  ∀ s : Machine Memory, Serves config s.mem →
    ∃ a m, x s = .ret a (s.withMem m) ∧ Leaves config R s.mem m

section

variable {config : List RegionConfig} {R : Set MemRange} {α β : Type}

theorem storesIn_pure (a : α) : StoresIn config R (pure a : OS α) :=
  fun s hs => ⟨a, s.mem, rfl, .refl hs⟩

theorem StoresIn.mono {R' : Set MemRange} {x : OS α} (hx : StoresIn config R x) (hsub : R ⊆ R') :
    StoresIn config R' x := by
  intro s hs
  obtain ⟨a, m, hrun, hm⟩ := hx s hs
  exact ⟨a, m, hrun, hm.mono hsub⟩

theorem storesIn_bind {x : OS α} {f : α → OS β} (hx : StoresIn config R x)
    (hf : ∀ a, StoresIn config R (f a)) : StoresIn config R (x >>= f) := by
  intro s hs
  obtain ⟨a, m, hrun, hm⟩ := hx s hs
  obtain ⟨b, m', hrun', hm'⟩ := hf a (s.withMem m) hm.serves
  refine ⟨b, m', ?_, hm.trans hm'⟩
  rw [Routine.bind_of hrun, hrun']
  rfl

theorem storesIn_getGpr (cpu : CpuPtr) (i : Fin 32) : StoresIn config R (getGpr cpu i) :=
  fun s hs => ⟨_, s.mem, rfl, .refl hs⟩

theorem storesIn_ite {c : Prop} [Decidable c] {x y : OS α} (hx : c → StoresIn config R x)
    (hy : ¬ c → StoresIn config R y) : StoresIn config R (if c then x else y) := by
  by_cases hc : c
  · rw [if_pos hc]
    exact hx hc
  · rw [if_neg hc]
    exact hy hc

theorem storesIn_onlyIf {b : Bool} {x : OS Unit} (hx : b = true → StoresIn config R x) :
    StoresIn config R (onlyIf b x) := by
  cases b with
  | false => exact storesIn_pure ()
  | true => exact hx rfl

theorem storesIn_read32 {a : Word} (hin : MemRange.Mapped config (a, 4)) :
    StoresIn config R (read32 a) := by
  intro s hs
  obtain ⟨x, hx⟩ := hs.read32_some hin
  exact ⟨x, s.mem, read32_ret hx, .refl hs⟩

theorem storesIn_read16 {a : Word} (hin : MemRange.Mapped config (a, 2)) :
    StoresIn config R (read16 a) := by
  intro s hs
  obtain ⟨x, hx⟩ := hs.read16_some hin
  exact ⟨x, s.mem, read16_ret hx, .refl hs⟩

theorem storesIn_write32 {a : Word} (hin : MemRange.Mapped config (a, 4)) (hmem : (a, 4) ∈ R)
    (x : Word) : StoresIn config R (write32 a x) := by
  intro s hs
  obtain ⟨m, hw⟩ := hs.write32_some hin x
  have hleaves : Leaves config {(a, 4)} s.mem m := .write (k := .w32) hs hw
  exact ⟨(), m, write32_ret hw, hleaves.mono (Set.singleton_subset_iff.mpr hmem)⟩

theorem storesIn_write16 {a : Word} (hin : MemRange.Mapped config (a, 2)) (hmem : (a, 2) ∈ R)
    (x : Half) : StoresIn config R (write16 a x) := by
  intro s hs
  obtain ⟨m, hw⟩ := hs.write16_some hin x
  have hleaves : Leaves config {(a, 2)} s.mem m := .write (k := .w16) hs hw
  exact ⟨(), m, write16_ret hw, hleaves.mono (Set.singleton_subset_iff.mpr hmem)⟩

/-- What follows a check knows its outcome. -/
theorem storesIn_checked {a : Word} {n : Nat} {f : Bool → OS α} (hn : 0 < n)
    (hn' : n ≤ 0x100000000)
    (hf : ∀ b, (b = true → MemRange.Mapped config (a, n)) → StoresIn config R (f b)) :
    StoresIn config R (contains a (BitVec.ofNat 64 n) >>= f) := by
  intro s hs
  rw [Routine.bind_of (contains_apply a _ s)]
  exact hf _ (hs.contains_iff a hn hn').mp s hs

end

/-! ## Lists of stores -/

namespace GuestStore

/-- The range that a store writes. -/
def range : GuestStore → MemRange
  | half address _ => (address, 2)
  | word address _ => (address, 4)

/-- The memory has the value of the store. -/
def Shown (m : Memory) : GuestStore → Prop
  | half address value => m.read16 address = some value
  | word address value => m.read32 address = some value

end GuestStore

section

variable {config : List RegionConfig} {R : Set MemRange} {m m' : Memory} {e : GuestStore}

theorem GuestStore.Shown.of_leaves (h : e.Shown m) (hm : Leaves config R m m')
    (hoff : ∀ r ∈ R, r.Off config e.range) : e.Shown m' := by
  cases e with
  | half address value => exact (hm.read16 hoff).trans h
  | word address value => exact (hm.read32 hoff).trans h

theorem store_runs {s : Machine Memory} (hs : Serves config s.mem) (hin : e.range.Mapped config) :
    ∃ m, store e s = .ret () (s.withMem m) ∧ Leaves config {e.range} s.mem m ∧ e.Shown m := by
  cases e with
  | half address value =>
    obtain ⟨m, hw⟩ := hs.write16_some hin value
    exact ⟨m, write16_ret hw, .write (k := .w16) hs hw, hs.read_written (k := .w16) hw⟩
  | word address value =>
    obtain ⟨m, hw⟩ := hs.write32_some hin value
    exact ⟨m, write32_ret hw, .write (k := .w32) hs hw, hs.read_written (k := .w32) hw⟩

/-- Stores to mapped ranges of `R`. -/
theorem storesIn_storeAll {stores : List GuestStore}
    (h : ∀ e ∈ stores, e.range.Mapped config ∧ e.range ∈ R) :
    StoresIn config R (storeAll stores) := by
  induction stores with
  | nil => exact storesIn_pure ()
  | cons e rest ih =>
    apply storesIn_bind
    · intro s hs
      obtain ⟨hin, hmem⟩ := h e List.mem_cons_self
      obtain ⟨m, hrun, hm, _⟩ := store_runs hs hin
      exact ⟨(), m, hrun, hm.mono (Set.singleton_subset_iff.mpr hmem)⟩
    · exact fun _ => ih fun e' he' => h e' (List.mem_cons_of_mem _ he')

/-- Stores to ranges apart from each other leave all their values. -/
theorem storeAll_shown {stores : List GuestStore} {s : Machine Memory} (hs : Serves config s.mem)
    (hin : ∀ e ∈ stores, e.range.Mapped config)
    (hapart : stores.Pairwise fun e e' => e'.range.Off config e.range) :
    ∃ m, storeAll stores s = .ret () (s.withMem m) ∧
      Leaves config {r | ∃ e ∈ stores, e.range = r} s.mem m ∧
      ∀ e ∈ stores, e.Shown m := by
  induction stores generalizing s with
  | nil => exact ⟨s.mem, rfl, .refl hs, by simp⟩
  | cons e rest ih =>
    rw [List.pairwise_cons] at hapart
    obtain ⟨m, hrun, hm, hshown⟩ := store_runs hs (hin e List.mem_cons_self)
    obtain ⟨m', hrun', hm', hshown'⟩ := ih (s := s.withMem m) hm.serves
      (fun e' he' => hin e' (List.mem_cons_of_mem _ he')) hapart.2
    refine ⟨m', ?_, (hm.mono ?_).trans (hm'.mono ?_), ?_⟩
    · rw [storeAll, Routine.bind_of hrun, hrun']
      rfl
    · exact Set.singleton_subset_iff.mpr ⟨e, List.mem_cons_self, rfl⟩
    · rintro r ⟨e', he', rfl⟩
      exact ⟨e', List.mem_cons_of_mem _ he', rfl⟩
    · intro e' he'
      rcases List.mem_cons.mp he' with rfl | he'
      · apply hshown.of_leaves hm'
        rintro r ⟨e'', he'', rfl⟩
        exact hapart.1 e'' he''
      · exact hshown' e' he'

end

end wii_switch
