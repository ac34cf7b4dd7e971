-- What a successful initialization of the backing gives: each request has its
-- own place in the section of its key, and no two sections share a host block.
import WiiSwitch.GuestFlat
import Mathlib.Data.List.Forall2
import Mathlib.Data.List.Nodup
import Mathlib.Data.List.Pairwise

namespace wii_switch

/-! ## The arithmetic of one request -/

theorem and_low29 (x : Word) : (x &&& 0x1FFFFFFF#32).toNat = x.toNat % 0x20000000 := by
  rw [BitVec.toNat_and]
  exact Nat.and_two_pow_sub_one_eq_mod x.toNat 29

theorem roundUpPage_toNat (v : Word64) (h : v.toNat ≤ 0x100000000) :
    (roundUpPage v).toNat = (v.toNat + 0xFFF) / 0x1000 * 0x1000 := by
  have h1 : kGuestPageSize - 1#64 = BitVec.ofNat 64 (2 ^ 12 - 1) := rfl
  rw [roundUpPage, h1, Bytes.toNat_and_not_low]
  simp only [BitVec.toNat_add, BitVec.toNat_ofNat]
  omega

/-- Where the request starts in its section. -/
def foldOf (r : RegionRequest) : Nat :=
  match r.backing with
  | .owned => 0
  | .mem1 => r.base.toNat % 0x20000000
  | .mem2 => r.base.toNat % 0x20000000 - 0x10000000

/-- A request that stays between two multiples of `0x20000000`, and above the
MEM2 window when it is a MEM2 request. -/
structure Fits (r : RegionRequest) : Prop where
  size_ne : r.size ≠ 0#64
  inside : r.base.toNat % 0x20000000 + r.size.toNat ≤ 0x20000000
  mem2 : r.backing = .mem2 → 0x10000000 ≤ r.base.toNat % 0x20000000

theorem Fits.end_le {r : RegionRequest} (h : Fits r) :
    r.base.toNat + r.size.toNat ≤ 0x100000000 := by
  have := h.inside
  have := r.base.isLt
  omega

theorem Fits.fold_le {r : RegionRequest} (h : Fits r) :
    foldOf r + r.size.toNat ≤ 0x20000000 := by
  have := h.inside
  unfold foldOf
  split <;> omega

theorem Fits.backingOffset {r : RegionRequest} (h : Fits r) :
    ∃ o, backingOffset r = some o ∧ o.toNat = foldOf r := by
  have h29 : ((r.base &&& 0x1FFFFFFF#32).setWidth 64).toNat = r.base.toNat % 0x20000000 := by
    rw [BitVec.toNat_setWidth, and_low29]
    omega
  unfold wii_switch.backingOffset foldOf
  rcases hb : r.backing with _ | _ | _
  · exact ⟨_, rfl, rfl⟩
  · exact ⟨_, rfl, h29⟩
  · have hm := h.mem2 hb
    have hlt : ¬ (r.base &&& 0x1FFFFFFF#32).setWidth 64 < 0x10000000#64 := by
      rw [BitVec.lt_def, h29]
      simp only [BitVec.toNat_ofNat]
      omega
    refine ⟨(r.base &&& 0x1FFFFFFF#32).setWidth 64 - 0x10000000#64, if_neg hlt, ?_⟩
    rw [BitVec.toNat_sub, h29]
    simp only [BitVec.toNat_ofNat]
    omega

/-! ## The section table -/

/-- What decides the section of a request. -/
def RegionRequest.key (r : RegionRequest) : Backing × Word := (r.backing, sectionOwnedBase r)

def Section.key (s : Section) : Backing × Word := (s.backing, s.ownedBase)

theorem sameSectionKey_iff (s : Section) (r : RegionRequest) :
    sameSectionKey s r = true ↔ s.key = r.key := by
  simp [sameSectionKey, Section.key, RegionRequest.key]

/-- The keys of the sections, each at most once. -/
def DistinctKeys (sections : List Section) : Prop := (sections.map Section.key).Nodup

theorem DistinctKeys.index_eq {sections : List Section} (h : DistinctKeys sections) {i j : Nat}
    {s t : Section} (hi : sections[i]? = some s) (hj : sections[j]? = some t)
    (hk : s.key = t.key) : i = j := by
  have hi' : (sections.map Section.key)[i]? = some s.key := by simp [hi]
  have hj' : (sections.map Section.key)[j]? = some s.key := by simp [hj, hk]
  obtain ⟨hlt, _⟩ := List.getElem?_eq_some_iff.mp hi'
  exact (List.getElem?_inj hlt h).mp (hi'.trans hj'.symm)

/-- The table entry `m` gives the request `r` its place. -/
structure Placed (sections : List Section) (r : RegionRequest) (m : RegionMap) : Prop where
  base : m.base = r.base
  size : m.size = r.size
  offset : m.sectionOffset.toNat = foldOf r
  room : ∃ s, sections[m.sectionIndex]? = some s ∧ s.key = r.key ∧
    foldOf r + r.size.toNat ≤ s.size.toNat

theorem Placed.append {sections more : List Section} {r : RegionRequest} {m : RegionMap}
    (h : Placed sections r m) : Placed (sections ++ more) r m := by
  obtain ⟨h1, h2, h3, s, hs, hk, hle⟩ := h
  refine ⟨h1, h2, h3, s, ?_, hk, hle⟩
  have hlt : m.sectionIndex < sections.length := (List.getElem?_eq_some_iff.mp hs).1
  rw [List.getElem?_append_left hlt, hs]

@[simp] theorem growSection_key (n : Word64) (s : Section) : (growSection n s).key = s.key := by
  unfold growSection
  split <;> rfl

theorem le_growSection (n : Word64) (s : Section) :
    s.size.toNat ≤ (growSection n s).size.toNat ∧ n.toNat ≤ (growSection n s).size.toNat := by
  unfold growSection
  split
  · rename_i h
    exact ⟨Nat.le_of_lt h, Nat.le_refl _⟩
  · rename_i h
    exact ⟨Nat.le_refl _, Nat.le_of_not_lt h⟩

theorem Placed.grow {sections : List Section} {r : RegionRequest} {m : RegionMap} (i : Nat)
    (n : Word64) (h : Placed sections r m) :
    Placed (sections.modify i (growSection n)) r m := by
  obtain ⟨h1, h2, h3, s, hs, hk, hle⟩ := h
  refine ⟨h1, h2, h3, ?_⟩
  by_cases hi : i = m.sectionIndex
  · subst hi
    refine ⟨growSection n s, by simp [hs], by simpa using hk, ?_⟩
    exact Nat.le_trans hle (le_growSection n s).1
  · exact ⟨s, by rw [List.getElem?_modify_ne _ _ hi, hs], hk, hle⟩

theorem distinctKeys_grow {sections : List Section} (i : Nat) (n : Word64)
    (h : DistinctKeys sections) : DistinctKeys (sections.modify i (growSection n)) := by
  have : (sections.modify i (growSection n)).map Section.key = sections.map Section.key := by
    apply List.ext_getElem?
    intro j
    rw [List.getElem?_map, List.getElem?_modify, List.getElem?_map]
    rcases sections[j]? with _ | s
    · rfl
    · simp only [Option.map_eq_map, Option.map_some]
      split
      · rw [growSection_key]
      · rfl
  rw [DistinctKeys, this]
  exact h

/-- `findOrCreateSection` keeps the sections that are there, and gives the index
of the one section of the request. -/
theorem findOrCreateSection_spec {sections : List Section} (r : RegionRequest)
    (hd : DistinctKeys sections) (hn : sections.length < kMaxSections) :
    ∃ i more, findOrCreateSection sections r = some (i, sections ++ more) ∧
    more.length ≤ 1 ∧
      DistinctKeys (sections ++ more) ∧ ∃ s, (sections ++ more)[i]? = some s ∧
      s.key = r.key := by
  unfold findOrCreateSection
  rcases hf : sections.findIdx? fun s => sameSectionKey s r with _ | i
  · have hnone : ∀ s ∈ sections, s.key ≠ r.key := by
      intro s hs hk
      have := List.findIdx?_eq_none_iff.mp hf s hs
      rw [(sameSectionKey_iff s r).mpr hk] at this
      cases this
    rw [if_neg (by omega)]
    refine ⟨_, _, rfl,
      by simp, ?_, ⟨r.backing, sectionOwnedBase r, 0#64, none⟩, by simp, rfl⟩
    rw [DistinctKeys, List.map_append, List.nodup_append]
    refine ⟨hd, by simp, ?_⟩
    rintro a ha b hb rfl
    obtain ⟨s, hs, rfl⟩ := List.mem_map.mp ha
    simp only [List.map_cons, List.map_nil, List.mem_singleton] at hb
    exact hnone s hs hb
  · obtain ⟨hlt, hsame, _⟩ := List.findIdx?_eq_some_iff_getElem.mp hf
    refine ⟨i, [], by simp, by simp, by simpa using hd, sections[i], by simp [hlt], ?_⟩
    exact (sameSectionKey_iff _ r).mp hsame

/-! ## The request loop -/

/-- What the request loop has built from the non-empty requests `rs`. -/
structure Built (rs : List RegionRequest) (st : FlatState) : Prop where
  keys : DistinctKeys st.sections
  places : List.Forall₂ (Placed st.sections) rs st.regions
  few : st.sections.length ≤ rs.length

theorem addRegion_empty (st : FlatState) (r : RegionRequest) (h : r.size = 0#64) :
    addRegion st r = .ok st := if_pos h

theorem addRegion_fits {rs : List RegionRequest} {st : FlatState} {r : RegionRequest}
    (hb : Built rs st) (hr : Fits r) (hn : rs.length < 32) :
    ∃ sections regions,
    addRegion st r = .ok { st with sections := sections, regions := regions } ∧
      Built (rs ++ [r]) { st with sections := sections, regions := regions } := by
  obtain ⟨o, ho, hov⟩ := hr.backingOffset
  have hfold := hr.fold_le
  have hpos : 0 < r.size.toNat := by
    have := hr.size_ne
    rw [Ne, ← BitVec.toNat_inj] at this
    simp only [BitVec.toNat_ofNat] at this
    omega
  have hlen : st.regions.length = rs.length := hb.places.length_eq.symm
  obtain ⟨i, more, hfind, hmore, hkeys, s, hs, hk⟩ :=
    findOrCreateSection_spec r hb.keys (by have := hb.few; unfold kMaxSections; omega)
  have hend := hr.end_le
  have h1 : ¬ kGuestSpaceSize < r.base.setWidth 64 + r.size := by
    rw [BitVec.lt_def, kGuestSpaceSize]
    simp only [BitVec.toNat_add, BitVec.toNat_setWidth, BitVec.toNat_ofNat]
    omega
  have hsum : (o + r.size).toNat = foldOf r + r.size.toNat := by
    rw [BitVec.toNat_add, hov]
    omega
  have h2 : ¬ kGuestSpaceSize < o + r.size := by
    rw [BitVec.lt_def, kGuestSpaceSize, hsum]
    simp only [BitVec.toNat_ofNat]
    omega
  have hround := roundUpPage_toNat (o + r.size) (by omega)
  rw [hsum] at hround
  have h3 :
      ¬ (roundUpPage (o + r.size) = 0#64 ∨ kGuestSpaceSize < roundUpPage (o + r.size)) := by
    rw [BitVec.lt_def, kGuestSpaceSize, ← BitVec.toNat_inj, hround]
    simp only [BitVec.toNat_ofNat]
    omega
  refine ⟨(st.sections ++ more).modify i (growSection (roundUpPage (o + r.size))),
    st.regions ++ [⟨r.base, r.size, o, i⟩], ?_, ?_, ?_, ?_⟩
  · unfold addRegion
    rw [if_neg hr.size_ne, if_neg h1, ho]
    simp only [if_neg h2, hfind, if_neg h3]
    rw [if_neg (by unfold kMaxRegions; omega)]
  · exact distinctKeys_grow i _ hkeys
  · refine List.rel_append (hb.places.imp fun _ _ hp => hp.append.grow i _) ?_
    refine List.Forall₂.cons
      ⟨rfl, rfl, hov, growSection (roundUpPage (o + r.size)) s, ?_, ?_, ?_⟩
      List.Forall₂.nil
    · simp [hs]
    · simpa using hk
    · have := (le_growSection (roundUpPage (o + r.size)) s).2
      omega
  · have := hb.few
    simp only [List.length_modify, List.length_append, List.length_cons, List.length_nil]
    omega

theorem foldlM_addRegion_fits {rs reqs : List RegionRequest} {st : FlatState} (hb : Built rs st)
    (hr : ∀ r ∈ reqs, r.size ≠ 0#64 → Fits r) (hn : rs.length + reqs.length ≤ 32) :
    ∃ sections regions,
      reqs.foldlM addRegion st = .ok { st with sections := sections, regions := regions } ∧
      Built (rs ++ reqs.filter fun r => r.size ≠ 0#64)
        { st with sections := sections, regions := regions } := by
  induction reqs generalizing rs st with
  | nil => exact ⟨st.sections, st.regions, rfl, by simpa using hb⟩
  | cons r reqs ih =>
    have hrest : ∀ q ∈ reqs, q.size ≠ 0#64 → Fits q := fun q hq =>
      hr q (List.mem_cons_of_mem _ hq)
    simp only [List.length_cons] at hn
    rw [List.foldlM_cons]
    by_cases hz : r.size = 0#64
    · obtain ⟨sections, regions, heq, hbuilt⟩ := ih hb hrest (by omega)
      refine ⟨sections, regions, by rw [addRegion_empty st r hz]; exact heq, ?_⟩
      simpa [hz] using hbuilt
    · obtain ⟨sec1, reg1, heq1, hb1⟩ := addRegion_fits hb (hr r (by simp) hz) (by omega)
      obtain ⟨sections, regions, heq, hbuilt⟩ := ih hb1 hrest (by simp; omega)
      refine ⟨sections, regions, by rw [heq1]; exact heq, ?_⟩
      simpa [hz] using hbuilt

/-! ## The allocation -/

/-- The host views of the sections: one block each, in order from `first`. -/
def viewFrom (first : Nat) : List Section → List Section
  | [] => []
  | s :: rest => { s with hostView := some ⟨first, 0⟩ } :: viewFrom (first + 1) rest

theorem viewFrom_getElem? (sections : List Section) (first i : Nat) :
    (viewFrom first sections)[i]? =
      (sections[i]?).map fun s => { s with hostView := some ⟨first + i, 0⟩ } := by
  induction sections generalizing first i with
  | nil => simp [viewFrom]
  | cons s rest ih =>
    cases i with
    | zero => simp [viewFrom]
    | succ i =>
      have : first + 1 + i = first + (i + 1) := by omega
      simp [viewFrom, ih, this]

theorem viewFrom_keys (sections : List Section) (first : Nat) :
    (viewFrom first sections).map Section.key = sections.map Section.key := by
  induction sections generalizing first with
  | nil => rfl
  | cons s rest ih =>
    rw [viewFrom, List.map_cons, List.map_cons, ih]
    rfl

theorem allocSections_ok {callocOk : Nat → Bool} {i : Nat} {sections : List Section} {h : Host}
    (hok : (allocSections callocOk i sections h).1 = true) :
    ∃ h', allocSections callocOk i sections h = (true, viewFrom h.next sections, h') ∧
      (∀ b < h.next, h'.blocks b = h.blocks b) ∧
      ∀ j s, sections[j]? = some s →
        h'.blocks (h.next + j) = some ⟨s.size.toNat, fun _ => 0⟩ := by
  induction sections generalizing i h with
  | nil => exact ⟨h, rfl, fun _ _ => rfl, by simp⟩
  | cons s rest ih =>
    have hci : callocOk i = true := by
      by_contra hne
      simp [allocSections, Host.calloc, hne] at hok
    simp only [allocSections, Host.calloc, hci, if_true] at hok
    obtain ⟨h', heq, hold, hnew⟩ := ih hok
    refine ⟨h', ?_, ?_, ?_⟩
    · simp only [allocSections, Host.calloc, hci, if_true, heq, viewFrom]
    · intro b hb
      rw [hold b (by simp only; omega)]
      simp only [Function.update_of_ne (Nat.ne_of_lt hb)]
    · intro j t hj
      cases j with
      | zero =>
        simp only [List.getElem?_cons_zero, Option.some.injEq] at hj
        subst hj
        rw [Nat.add_zero, hold _ (by simp)]
        exact Function.update_self ..
      | succ j =>
        have hidx : h.next + (j + 1) = h.next + 1 + j := by omega
        rw [hidx]
        exact hnew j t (by simpa using hj)

/-- The allocation goes through when the host grants a block for each section. -/
theorem allocSections_iff (callocOk : Nat → Bool) (i : Nat) (sections : List Section) (h : Host) :
    (allocSections callocOk i sections h).1 = true ↔
      ∀ j < sections.length, callocOk (i + j) = true := by
  induction sections generalizing i h with
  | nil => exact iff_of_true rfl fun j hj => absurd hj (Nat.not_lt_zero j)
  | cons s rest ih =>
    cases hci : callocOk i with
    | false =>
      simp only [allocSections, Host.calloc, hci, Bool.false_eq_true, if_false, false_iff]
      exact fun hall => Bool.false_ne_true (hci.symm.trans (hall 0 (Nat.succ_pos _)))
    | true =>
      simp only [allocSections, Host.calloc, hci, if_true]
      rw [ih]
      constructor
      · intro hrest j hj
        cases j with
        | zero => exact hci
        | succ j =>
          have hgranted := hrest j (Nat.lt_of_succ_lt_succ hj)
          rwa [Nat.add_right_comm] at hgranted
      · intro hall j hj
        rw [Nat.add_right_comm]
        exact hall (j + 1) (Nat.succ_lt_succ hj)

/-! ## The whole initialization -/

/-- The host grants everything that an initialization asks for. -/
structure HostEnv.Grants (env : HostEnv) : Prop where
  window : env.findAslr.isSome
  reserve : env.addReservation.isSome
  calloc : ∀ i, env.callocOk i = true

/-- The module state after a successful initialization for the non-empty
requests `rs`: section `i` owns the block `first + i`, full of zeros. -/
structure Ready (rs : List RegionRequest) (first : Nat) (st : FlatState) (h : Host) : Prop where
  active : st.active = true
  keys : DistinctKeys st.sections
  places : List.Forall₂ (Placed st.sections) rs st.regions
  view : ∀ i s, st.sections[i]? = some s → s.hostView = some ⟨first + i, 0⟩ ∧
    h.blocks (first + i) = some ⟨s.size.toNat, fun _ => 0⟩

theorem Placed.view {sections : List Section} {r : RegionRequest} {m : RegionMap} (first : Nat)
    (h : Placed sections r m) : Placed (viewFrom first sections) r m := by
  obtain ⟨h1, h2, h3, s, hs, hk, hle⟩ := h
  refine ⟨h1, h2, h3, { s with hostView := some ⟨first + m.sectionIndex, 0⟩ }, ?_, hk, hle⟩
  rw [viewFrom_getElem?, hs]
  rfl

/-- What a successful initialization has done after the request loop: section `i` got the
block `first + i`. -/
structure Allocated (built : FlatState) (first : Nat) (out : InitOutcome) : Prop where
  active : out.state.active = true
  sections : out.state.sections = viewFrom first built.sections
  regions : out.state.regions = built.regions
  blocks : ∀ i s, built.sections[i]? = some s →
    out.host.blocks (first + i) = some ⟨s.size.toNat, fun _ => 0⟩

theorem reserveWindow_keeps (env : HostEnv) (st : FlatState) (h : Host) :
    (reserveWindow env st h).1.sections = st.sections ∧
      (reserveWindow env st h).1.regions = st.regions ∧
      (reserveWindow env st h).2.next = h.next := by
  unfold reserveWindow
  cases env.findAslr with
  | none => exact ⟨rfl, rfl, rfl⟩
  | some g => cases env.addReservation <;> exact ⟨rfl, rfl, rfl⟩

/-- A successful initialization went through the request loop, and the host granted a block
for each section. -/
theorem initializeGuestFlat_ok {env : HostEnv} {reqs : List RegionRequest} {st : FlatState}
    {h : Host} (hok : (initializeGuestFlat env reqs st h).ok = true) :
    reqs.length ≤ 32 ∧ ∃ built, reqs.foldlM addRegion st = .ok built ∧
      Allocated built h.next (initializeGuestFlat env reqs st h) := by
  unfold initializeGuestFlat at hok ⊢
  by_cases huse : st.active ∨ st.guestBase.isSome ∨ st.guestReservation.isSome
  · rw [if_pos huse] at hok
    cases hok
  rw [if_neg huse] at hok ⊢
  by_cases hcount : kMaxRegions < reqs.length
  · rw [if_pos hcount] at hok
    cases hok
  rw [if_neg hcount] at hok ⊢
  have hlen : reqs.length ≤ 32 := Nat.le_of_not_lt hcount
  cases hloop : reqs.foldlM addRegion st with
  | error e =>
    rw [hloop] at hok
    cases hok
  | ok built =>
    simp only [hloop] at hok ⊢
    obtain ⟨hsections, hregions, hnext⟩ := reserveWindow_keeps env built h
    -- each of the host's refusals ends the initialization
    by_cases hbase : (reserveWindow env built h).1.guestBase.isNone
    · rw [if_pos hbase] at hok
      cases hok
    by_cases hreserved : (reserveWindow env built h).1.guestReservation.isNone
    · rw [if_neg hbase, if_pos hreserved] at hok
      cases hok
    rw [if_neg hbase, if_neg hreserved] at hok ⊢
    cases halloc : (allocSections env.callocOk 0 (reserveWindow env built h).1.sections
        (reserveWindow env built h).2).1 with
    | false =>
      rw [halloc] at hok
      cases hok
    | true =>
      obtain ⟨h', heq, _, hblocks⟩ := allocSections_ok halloc
      rw [hsections, hnext] at hblocks
      simp only [heq, if_true]
      refine ⟨hlen, built, rfl, rfl, ?_, hregions, hblocks⟩
      rw [hsections, hnext]

theorem initializeGuestFlat_fits {env : HostEnv} {reqs : List RegionRequest} {h : Host}
    (hr : ∀ r ∈ reqs, r.size ≠ 0#64 → Fits r) (hn : reqs.length ≤ 32)
    (hok : (initializeGuestFlat env reqs .fresh h).ok = true) :
    ∃ report st h', initializeGuestFlat env reqs .fresh h = ⟨true, report, st, h'⟩ ∧
      Ready (reqs.filter fun r => r.size ≠ 0#64) h.next st h' := by
  have hb : Built [] FlatState.fresh :=
    ⟨List.nodup_nil, List.Forall₂.nil, by simp [FlatState.fresh]⟩
  obtain ⟨sections, regions, heq, hbuilt⟩ := foldlM_addRegion_fits hb hr (by simpa using hn)
  rw [List.nil_append] at hbuilt
  obtain ⟨_, built, hloop, halloc⟩ := initializeGuestFlat_ok hok
  obtain rfl : _ = built := Except.ok.inj (heq.symm.trans hloop)
  generalize initializeGuestFlat env reqs .fresh h = out at hok halloc
  obtain ⟨ok, report, st, h'⟩ := out
  obtain rfl : ok = true := hok
  refine ⟨report, st, h', rfl, halloc.active, ?_, ?_, ?_⟩
  · rw [show st.sections = _ from halloc.sections, DistinctKeys, viewFrom_keys]
    exact hbuilt.keys
  · rw [show st.sections = _ from halloc.sections, show st.regions = _ from halloc.regions]
    exact hbuilt.places.imp fun _ _ hp => hp.view _
  · intro i s hs
    rw [show st.sections = _ from halloc.sections, viewFrom_getElem?] at hs
    obtain ⟨t, ht, rfl⟩ := Option.map_eq_some_iff.mp hs
    exact ⟨rfl, halloc.blocks i t ht⟩

/-- Behind the request loop it is the host that decides. -/
theorem initializeGuestFlat_iff {env : HostEnv} {reqs : List RegionRequest}
    {sections : List Section} {regions : List RegionMap}
    (hloop : reqs.foldlM addRegion .fresh =
      .ok { FlatState.fresh with sections := sections, regions := regions })
    (hn : reqs.length ≤ 32) (h : Host) :
    (initializeGuestFlat env reqs .fresh h).ok = true ↔ env.findAslr.isSome ∧
      env.addReservation.isSome ∧ ∀ i < sections.length, env.callocOk i = true := by
  have hcount : ¬ kMaxRegions < reqs.length := by unfold kMaxRegions; omega
  have huse : ¬((FlatState.fresh.active = true ∨ FlatState.fresh.guestBase.isSome = true ∨
      FlatState.fresh.guestReservation.isSome = true)) := by decide
  unfold initializeGuestFlat
  rw [if_neg huse, if_neg hcount, hloop]
  cases hwindow : env.findAslr with
  | none => simp [reserveWindow, hwindow, FlatState.fresh, failInit]
  | some candidate =>
    cases hreserve : env.addReservation with
    | none => simp [reserveWindow, hwindow, hreserve, failInit]
    | some reservation =>
      have halloc := allocSections_iff env.callocOk 0 sections
        { h with reservations := reservation :: h.reservations }
      simp only [Nat.zero_add] at halloc
      simp only [reserveWindow, hwindow, hreserve, Option.isNone_some, Bool.false_eq_true, if_false,
        Option.isSome_some, true_and, ← halloc]
      split
      · rename_i hok
        simp [hok]
      · rename_i hok
        simp [hok, failInit]

theorem initializeGuestFlat_granted {env : HostEnv} {reqs : List RegionRequest} {h : Host}
    (he : env.Grants) (hr : ∀ r ∈ reqs, r.size ≠ 0#64 → Fits r) (hn : reqs.length ≤ 32) :
    (initializeGuestFlat env reqs .fresh h).ok = true := by
  have hb : Built [] FlatState.fresh :=
    ⟨List.nodup_nil, List.Forall₂.nil, by simp [FlatState.fresh]⟩
  obtain ⟨sections, regions, heq, _⟩ := foldlM_addRegion_fits hb hr (by simpa using hn)
  exact (initializeGuestFlat_iff heq hn h).mpr ⟨he.window, he.reserve, fun i _ => he.calloc i⟩

/-! ## The host view of an address -/

def RegionRequest.Has (r : RegionRequest) (a : Nat) : Prop :=
  r.base.toNat ≤ a ∧ a < r.base.toNat + r.size.toNat

/-- The block of a key: the one of the first section with that key. -/
def blockOfKey (first : Nat) (sections : List Section) (k : Backing × Word) : Nat :=
  first + sections.findIdx fun s => s.key = k

theorem blockOfKey_eq {first : Nat} {sections : List Section} (h : DistinctKeys sections)
    {i : Nat} {s : Section} (hs : sections[i]? = some s) :
    blockOfKey first sections s.key = first + i := by
  have hex : ∃ t ∈ sections, decide (t.key = s.key) = true :=
    ⟨s, List.mem_of_getElem? hs, by simp⟩
  have hlt := List.findIdx_lt_length.mpr hex
  have hkey := List.findIdx_getElem (w := hlt)
  simp only [decide_eq_true_eq] at hkey
  rw [blockOfKey, h.index_eq (List.getElem?_eq_getElem hlt) hs hkey]

theorem covers_iff {r : RegionRequest} {m : RegionMap} (hbase : m.base = r.base)
    (hsize : m.size = r.size) (a : Word) : m.covers a = true ↔ r.Has a.toNat := by
  have ha := a.isLt
  have hb := r.base.isLt
  rw [RegionMap.covers, hbase, hsize, RegionRequest.Has]
  simp only [Bool.and_eq_true, decide_eq_true_eq, BitVec.le_def, BitVec.lt_def, BitVec.toNat_sub,
    BitVec.toNat_setWidth]
  constructor
  · rintro ⟨h1, h2⟩
    omega
  · rintro ⟨h1, h2⟩
    omega

theorem hostPointer_ready {rs : List RegionRequest} {first : Nat} {st : FlatState} {h : Host}
    (hr : Ready rs first st h) (hd : rs.Pairwise fun r s => ∀ x, ¬ (r.Has x ∧ s.Has x))
    {r : RegionRequest} (hmem : r ∈ rs) {a : Word} (ha : r.Has a.toNat) :
    hostPointer st a =
      some ⟨blockOfKey first st.sections r.key, foldOf r + (a.toNat - r.base.toNat)⟩ := by
  -- some entry covers the address, and each that does is the entry of `r`
  obtain ⟨m, hm, hpl⟩ : ∃ m ∈ st.regions, Placed st.sections r m := by
    obtain ⟨i, hi, rfl⟩ := List.getElem_of_mem hmem
    have hi' : i < st.regions.length := hr.places.length_eq ▸ hi
    exact ⟨st.regions[i], List.getElem_mem hi', hr.places.get hi hi'⟩
  rcases hf : st.regions.find? fun m => m.covers a with _ | m'
  · have := List.find?_eq_none.mp hf m hm
    exact absurd ((covers_iff hpl.base hpl.size a).mpr ha) this
  · have hcov : m'.covers a = true := by simpa using List.find?_some hf
    obtain ⟨j, hj, hjm⟩ := List.getElem_of_mem (List.mem_of_find?_eq_some hf)
    have hj' : j < rs.length := hr.places.length_eq ▸ hj
    have hpl' : Placed st.sections rs[j] m' := hjm ▸ hr.places.get hj' hj
    have hsame : r = rs[j] := by
      by_contra hne
      have : Std.Symm fun r s : RegionRequest => ∀ x, ¬ (r.Has x ∧ s.Has x) :=
        ⟨fun _ _ h x hx => h x hx.symm⟩
      exact hd.forall hmem (List.getElem_mem hj') hne a.toNat
        ⟨ha, (covers_iff hpl'.base hpl'.size a).mp hcov⟩
    rw [← hsame] at hpl'
    obtain ⟨s, hs, hk, _⟩ := hpl'.room
    have hview := (hr.view _ _ hs).1
    have hrel : (a.setWidth 64 - m'.base.setWidth 64).toNat = a.toNat - r.base.toNat := by
      have h1 := ha.1
      have h2 := a.isLt
      rw [hpl'.base]
      simp only [BitVec.toNat_sub, BitVec.toNat_setWidth]
      omega
    simp only [hostPointer, hr.active, if_true, hf, hs, hview, Option.map_some, HostPtr.add,
      Nat.zero_add, hpl'.offset, hrel, ← hk, blockOfKey_eq hr.keys hs]

end wii_switch
