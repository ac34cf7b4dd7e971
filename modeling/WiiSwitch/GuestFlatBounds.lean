-- The bounds of accepted regions. The request loop checks the ends of a request in 64-bit
-- sums, and a size near 2^64 wraps around: the region then covers every address from its
-- base on, but its section has only the pages of the wrapped end.
import WiiSwitch.GuestFlatRuns

namespace wii_switch

/-! ## What the loop has checked -/

instance RegionRequest.decidableHas (r : RegionRequest) (a : Nat) : Decidable (r.Has a) :=
  inferInstanceAs (Decidable (_ ∧ _))

/-- The size that the loop asks of the section, from its 64-bit sum. -/
def neededSize (r : RegionRequest) : Nat :=
  ((foldOf r + r.size.toNat) % 2 ^ 64 + 0xFFF) / 0x1000 * 0x1000

/-- The end of the request wraps around in 64 bits. -/
def RegionRequest.Wraps (r : RegionRequest) : Prop := 2 ^ 64 ≤ r.base.toNat + r.size.toNat

/-- The checks of a request that the loop took. -/
structure Checked (r : RegionRequest) : Prop where
  size_ne : r.size ≠ 0#64
  ends : (r.base.toNat + r.size.toNat) % 2 ^ 64 ≤ 2 ^ 32
  mem2 : r.backing = .mem2 → 0x10000000 ≤ r.base.toNat % 0x20000000
  fits : (foldOf r + r.size.toNat) % 2 ^ 64 ≤ 2 ^ 32

theorem foldOf_le (r : RegionRequest) : foldOf r ≤ r.base.toNat := by
  have := r.base.isLt
  unfold foldOf
  split <;> omega

/-- A request that does not wrap ends in the guest space. -/
theorem Checked.end_le {r : RegionRequest} (h : Checked r) (hr : ¬ r.Wraps) :
    r.base.toNat + r.size.toNat ≤ 2 ^ 32 := by
  have hends := h.ends
  unfold RegionRequest.Wraps at hr
  rwa [Nat.mod_eq_of_lt (by omega)] at hends

/-- Its section has room for all of it. -/
theorem Checked.room {r : RegionRequest} (h : Checked r) (hr : ¬ r.Wraps) :
    foldOf r + r.size.toNat ≤ neededSize r := by
  have hend := h.end_le hr
  have hfold := foldOf_le r
  unfold neededSize
  rw [Nat.mod_eq_of_lt (by omega)]
  omega

/-- What `backingOffset` gives. -/
theorem backingOffset_some {r : RegionRequest} {o : Word64} (h : backingOffset r = some o) :
    o.toNat = foldOf r ∧ (r.backing = .mem2 → 0x10000000 ≤ r.base.toNat % 0x20000000) := by
  have h29 : ((r.base &&& 0x1FFFFFFF#32).setWidth 64).toNat = r.base.toNat % 0x20000000 := by
    rw [BitVec.toNat_setWidth, and_low29]
    omega
  unfold backingOffset at h
  unfold foldOf
  cases hb : r.backing with
  | owned =>
    simp only [hb, Option.some.injEq] at h
    subst h
    exact ⟨rfl, by simp⟩
  | mem1 =>
    simp only [hb, Option.some.injEq] at h
    subst h
    exact ⟨h29, by simp⟩
  | mem2 =>
    simp only [hb] at h
    split at h
    · cases h
    · rename_i hlt
      rw [BitVec.lt_def, h29, Nat.not_lt] at hlt
      simp only [BitVec.toNat_ofNat] at hlt
      obtain rfl := Option.some.inj h
      refine ⟨?_, fun _ => hlt⟩
      rw [BitVec.toNat_sub, h29]
      simp only [BitVec.toNat_ofNat]
      omega

/-- A new section is empty, and no other one has its key. -/
theorem findOrCreateSection_mem {sections found : List Section} {r : RegionRequest} {i : Nat}
    (h : findOrCreateSection sections r = some (i, found)) {s : Section} (hs : s ∈ found) :
    s ∈ sections ∨ s.size = 0#64 ∧ ∀ t ∈ sections, t.key ≠ s.key := by
  unfold findOrCreateSection at h
  cases hf : sections.findIdx? fun s => sameSectionKey s r with
  | some j =>
    rw [hf] at h
    obtain ⟨rfl, rfl⟩ := Prod.mk.inj (Option.some.inj h)
    exact Or.inl hs
  | none =>
    simp only [hf] at h
    split at h
    · cases h
    obtain ⟨rfl, rfl⟩ := Prod.mk.inj (Option.some.inj h)
    rcases List.mem_append.mp hs with hs | hs
    · exact Or.inl hs
    refine Or.inr ?_
    obtain rfl := List.mem_singleton.mp hs
    refine ⟨rfl, fun t ht hk => ?_⟩
    have hnot := List.findIdx?_eq_none_iff.mp hf t ht
    rw [(sameSectionKey_iff t r).mpr hk] at hnot
    cases hnot

/-- What one turn of the loop does with a request that is not empty. -/
theorem addRegion_ok {st st' : FlatState} {r : RegionRequest} (h : addRegion st r = .ok st')
    (hne : r.size ≠ 0#64) : Checked r ∧ ∃ o i sections n,
      findOrCreateSection st.sections r = some (i, sections) ∧ o.toNat = foldOf r ∧
      n.toNat = neededSize r ∧
      st' = { st with sections := sections.modify i (growSection n),
                      regions := st.regions ++ [⟨r.base, r.size, o, i⟩] } := by
  unfold addRegion at h
  rw [if_neg hne] at h
  split at h
  · cases h
  rename_i hend
  cases ho : backingOffset r with
  | none =>
    rw [ho] at h
    cases h
  | some o =>
    simp only [ho] at h
    obtain ⟨hov, hmem2⟩ := backingOffset_some ho
    split at h
    · cases h
    rename_i hfit
    cases hfind : findOrCreateSection st.sections r with
    | none =>
      rw [hfind] at h
      cases h
    | some found =>
      obtain ⟨i, sections⟩ := found
      simp only [hfind] at h
      split at h
      · cases h
      split at h
      · cases h
      have hsum : (o + r.size).toNat = (foldOf r + r.size.toNat) % 2 ^ 64 := by
        rw [BitVec.toNat_add, hov]
      rw [BitVec.lt_def, kGuestSpaceSize, hsum] at hfit
      rw [BitVec.lt_def, kGuestSpaceSize, BitVec.toNat_add, BitVec.toNat_setWidth] at hend
      simp only [BitVec.toNat_ofNat] at hfit hend
      have hbase := r.base.isLt
      have hround := roundUpPage_toNat (o + r.size) (by omega)
      rw [hsum] at hround
      refine ⟨⟨hne, by omega, hmem2, by omega⟩, o, i, sections,
        roundUpPage (o + r.size), rfl, hov,
        hround, ?_⟩
      exact (Except.ok.inj h).symm

/-! ## The sections of an accepted list -/

/-- The size of the section of a key: the most that a request of the key needs. -/
def roomOf (rs : List RegionRequest) (k : Backing × Word) : Nat :=
  (rs.filter fun r => r.size ≠ 0#64 ∧ r.key = k).foldl (fun n r => max n (neededSize r)) 0

theorem roomOf_append (rs : List RegionRequest) (r : RegionRequest) (hne : r.size ≠ 0#64)
    (k : Backing × Word) :
    roomOf (rs ++ [r]) k = if r.key = k then max (roomOf rs k) (neededSize r) else roomOf rs k := by
  unfold roomOf
  rw [List.filter_append]
  split
  · rename_i hk
    simp [hne, hk]
  · rename_i hk
    simp [hk]

theorem roomOf_filter (rs : List RegionRequest) (k : Backing × Word) :
    roomOf (rs.filter fun r => r.size ≠ 0#64) k = roomOf rs k := by
  unfold roomOf
  rw [List.filter_filter]
  congr 2
  funext r
  by_cases h : r.size = 0#64 <;> simp [h]

/-- No request of the key, no room. -/
theorem roomOf_eq_zero {rs : List RegionRequest} {k : Backing × Word}
    (h : ∀ r ∈ rs, r.key ≠ k) :
    roomOf rs k = 0 := by
  unfold roomOf
  rw [List.filter_eq_nil_iff.mpr]
  · rfl
  · intro r hr
    simp [h r hr]

theorem le_roomOf {rs : List RegionRequest} {r : RegionRequest} (hr : r ∈ rs)
    (hne : r.size ≠ 0#64) :
    neededSize r ≤ roomOf rs r.key := by
  have hmem : r ∈ rs.filter fun q => q.size ≠ 0#64 ∧ q.key = r.key := by
    simp [hr, hne]
  have hfold : ∀ (qs : List RegionRequest) (n : Nat), (r ∈ qs ∨ neededSize r ≤ n) →
      neededSize r ≤ qs.foldl (fun n r => max n (neededSize r)) n := by
    intro qs
    induction qs with
    | nil => simp
    | cons q qs ih =>
      intro n hn
      apply ih
      rcases hn with hn | hn
      · rcases List.mem_cons.mp hn with rfl | hn
        · exact Or.inr (Nat.le_max_right _ _)
        · exact Or.inl hn
      · exact Or.inr (Nat.le_trans hn (Nat.le_max_left _ _))
  exact hfold _ 0 (Or.inl hmem)

/-- The table entry of a request. -/
structure Entered (sections : List Section) (r : RegionRequest) (m : RegionMap) : Prop where
  base : m.base = r.base
  size : m.size = r.size
  offset : m.sectionOffset.toNat = foldOf r
  section_key : ∃ s, sections[m.sectionIndex]? = some s ∧ s.key = r.key

/-- What the loop has built from the requests `rs`, none of them empty. -/
structure Accepted (rs : List RegionRequest) (st : FlatState) : Prop where
  keys : DistinctKeys st.sections
  checked : ∀ r ∈ rs, Checked r
  entries : List.Forall₂ (Entered st.sections) rs st.regions
  sizes : ∀ s ∈ st.sections, s.size.toNat = roomOf rs s.key
  few : st.sections.length ≤ rs.length

theorem Entered.append {sections more : List Section} {r : RegionRequest} {m : RegionMap}
    (h : Entered sections r m) : Entered (sections ++ more) r m := by
  obtain ⟨s, hs, hk⟩ := h.section_key
  refine ⟨h.base, h.size, h.offset, s, ?_, hk⟩
  have hlt : m.sectionIndex < sections.length := (List.getElem?_eq_some_iff.mp hs).1
  rw [List.getElem?_append_left hlt, hs]

theorem Entered.grow {sections : List Section} {r : RegionRequest} {m : RegionMap} (i : Nat)
    (n : Word64) (h : Entered sections r m) :
    Entered (sections.modify i (growSection n)) r m := by
  obtain ⟨s, hs, hk⟩ := h.section_key
  refine ⟨h.base, h.size, h.offset, ?_⟩
  by_cases hi : i = m.sectionIndex
  · subst hi
    exact ⟨growSection n s, by simp [hs], by simpa using hk⟩
  · exact ⟨s, by rw [List.getElem?_modify_ne _ _ hi, hs], hk⟩

theorem growSection_size (n : Word64) (s : Section) :
    (growSection n s).size.toNat = max s.size.toNat n.toNat := by
  unfold growSection
  split
  · rename_i h
    exact (Nat.max_eq_right (Nat.le_of_lt h)).symm
  · rename_i h
    exact (Nat.max_eq_left (Nat.le_of_not_lt h)).symm

/-- One request more. -/
theorem Accepted.add {rs : List RegionRequest} {st st' : FlatState} {r : RegionRequest}
    (ha : Accepted rs st) (hn : rs.length < 32) (hne : r.size ≠ 0#64)
    (h : addRegion st r = .ok st') : Accepted (rs ++ [r]) st' := by
  obtain ⟨hcheck, o, i, sections, n, hfind, ho, hneed, rfl⟩ := addRegion_ok h hne
  obtain ⟨i', more, hfind', hmore, hkeys, s, hs, hk⟩ :=
    findOrCreateSection_spec r ha.keys (by have := ha.few; unfold kMaxSections; omega)
  obtain ⟨rfl, rfl⟩ := Prod.mk.inj (Option.some.inj (hfind.symm.trans hfind'))
  have hold : ∀ t ∈ st.sections ++ more, t.size.toNat = roomOf rs t.key := by
    intro t ht
    rcases findOrCreateSection_mem hfind ht with ht | ⟨hzero, hnew⟩
    · exact ha.sizes t ht
    · rw [hzero, roomOf_eq_zero]
      · rfl
      intro q hq hkq
      obtain ⟨m, _, hm⟩ : ∃ m ∈ st.regions, Entered st.sections q m := by
        obtain ⟨j, hj, rfl⟩ := List.getElem_of_mem hq
        have hj' : j < st.regions.length := ha.entries.length_eq ▸ hj
        exact ⟨st.regions[j], List.getElem_mem hj', ha.entries.get hj hj'⟩
      obtain ⟨u, hu, huk⟩ := hm.section_key
      exact hnew u (List.mem_of_getElem? hu) (huk.trans hkq)
  refine ⟨distinctKeys_grow i n hkeys, ?_, ?_, ?_, ?_⟩
  · intro q hq
    rcases List.mem_append.mp hq with hq | hq
    · exact ha.checked q hq
    · exact List.mem_singleton.mp hq ▸ hcheck
  · refine List.rel_append (ha.entries.imp fun _ _ he => he.append.grow i n) ?_
    refine .cons ⟨rfl, rfl, ho, growSection n s, ?_, ?_⟩ .nil
    · simp [hs]
    · simpa using hk
  · intro t ht
    obtain ⟨j, hj⟩ := List.mem_iff_getElem?.mp ht
    rw [roomOf_append rs r hne]
    by_cases hij : i = j
    · subst hij
      simp only [List.getElem?_modify_eq, hs, Option.map_eq_map, Option.map_some,
        Option.some.injEq] at hj
      subst hj
      rw [growSection_key, if_pos hk.symm, growSection_size, hneed,
        hold s (List.mem_of_getElem? hs)]
    · rw [List.getElem?_modify_ne _ _ hij] at hj
      rw [if_neg, hold t (List.mem_of_getElem? hj)]
      intro hkt
      exact hij (hkeys.index_eq hs hj (hk.trans hkt))
  · have := ha.few
    simp only [List.length_modify, List.length_append, List.length_cons, List.length_nil]
    omega

/-- The loop over a list that it takes. -/
theorem Accepted.foldlM {rs reqs : List RegionRequest} {st st' : FlatState} (ha : Accepted rs st)
    (hn : rs.length + reqs.length ≤ 32) (h : reqs.foldlM addRegion st = .ok st') :
    Accepted (rs ++ reqs.filter fun r => r.size ≠ 0#64) st' := by
  induction reqs generalizing rs st with
  | nil =>
    obtain rfl := Except.ok.inj h
    simpa using ha
  | cons r reqs ih =>
    rw [List.length_cons] at hn
    rw [List.foldlM_cons] at h
    by_cases hz : r.size = 0#64
    · rw [addRegion_empty st r hz] at h
      have hrest := ih ha (by omega) h
      simpa [hz] using hrest
    · cases hr : addRegion st r with
      | error e =>
        rw [hr] at h
        cases h
      | ok st₁ =>
        rw [hr] at h
        have hrest := ih (ha.add (by omega) hz hr) (by simp; omega) h
        simpa [hz] using hrest

/-! ## The lookup -/

/-- The first request that contains the address. -/
def firstWith (requests : List RegionRequest) (a : Word) : Option RegionRequest :=
  requests.find? fun r => r.Has a.toNat

theorem firstWith_filter (requests : List RegionRequest) (a : Word) :
    firstWith (requests.filter fun r => r.size ≠ 0#64) a = firstWith requests a := by
  unfold firstWith
  rw [List.find?_filter]
  congr 1
  funext r
  by_cases h : r.size = 0#64
  · simp [h, RegionRequest.Has]
  · simp [h]

theorem has_of_firstWith {requests : List RegionRequest} {a : Word} {r : RegionRequest}
    (h : firstWith requests a = some r) : r.Has a.toNat := by
  have hr := List.find?_some h
  exact of_decide_eq_true hr

/-- The first entries of related lists that pass related tests are related. -/
theorem find?_related {α β : Type} {R : α → β → Prop} {p : α → Bool} {q : β → Bool}
    {xs : List α} {ys : List β} (h : List.Forall₂ R xs ys)
    (hpq : ∀ x y, R x y → p x = q y) :
    Option.Rel R (xs.find? p) (ys.find? q) := by
  induction h with
  | nil => exact .none
  | @cons x y xs ys hxy _ ih =>
    rw [List.find?_cons, List.find?_cons, ← hpq x y hxy]
    cases p x with
    | true => exact .some hxy
    | false => exact ih

/-- The pointer is to a byte of a live block. -/
def InBlock (h : Host) (p : HostPtr) : Prop := ∃ b, h.blocks p.block = some b ∧ p.off < b.size

/-- The pointer of the address is in the block of the section of the region that the lookup
finds, and the region is a part of the guest space that contains the address. -/
structure RegionGives (st : FlatState) (h : Host) (a : Word) (p : HostPtr) (m : RegionMap)
    (s : Section) : Prop where
  found : st.regions.find? (fun m => m.covers a) = some m
  section_eq : st.sections[m.sectionIndex]? = some s
  view : s.hostView = some ⟨p.block, 0⟩
  inside : InBlock h p
  contains : m.base.toNat ≤ a.toNat ∧ a.toNat < m.base.toNat + m.size.toNat
  in_space : m.base.toNat + m.size.toNat ≤ 2 ^ 32

section

variable {st : FlatState} {h : Host} {env : HostEnv} {requests : List RegionRequest} {a : Word}
  {p : HostPtr}

/-- The module after an initialization that took the requests `rs`. -/
structure Allotted (rs : List RegionRequest) (st : FlatState) (h : Host) : Prop where
  active : st.active = true
  checked : ∀ r ∈ rs, Checked r
  entries : List.Forall₂ (Entered st.sections) rs st.regions
  views : ∀ s ∈ st.sections, ∃ i, s.hostView = some ⟨i, 0⟩ ∧
    h.blocks i = some ⟨roomOf rs s.key, fun _ => 0⟩

theorem initializeGuestFlat_allotted (hrun : FlatRun st h)
    (hok : (initializeGuestFlat env requests st h).ok = true) :
    Allotted (requests.filter fun r => r.size ≠ 0#64)
      (initializeGuestFlat env requests st h).state
      (initializeGuestFlat env requests st h).host := by
  obtain ⟨_, rfl | hold⟩ := hrun.sound
  · obtain ⟨hlen, built, hloop, halloc⟩ := initializeGuestFlat_ok hok
    have hstart : Accepted [] FlatState.fresh := by
      refine ⟨List.nodup_nil, by simp, .nil, by simp [FlatState.fresh],
        by simp [FlatState.fresh]⟩
    have hbuilt := hstart.foldlM (by simpa using hlen) hloop
    rw [List.nil_append] at hbuilt
    refine ⟨halloc.active, hbuilt.checked, ?_, fun s hs => ?_⟩
    · rw [halloc.regions, halloc.sections]
      refine hbuilt.entries.imp fun r m he => ⟨he.base, he.size, he.offset, ?_⟩
      obtain ⟨s, hs, hk⟩ := he.section_key
      refine ⟨{ s with hostView := some ⟨h.next + m.sectionIndex, 0⟩ }, ?_, hk⟩
      rw [viewFrom_getElem?, hs]
      rfl
    · rw [halloc.sections] at hs
      obtain ⟨i, hi⟩ := List.mem_iff_getElem?.mp hs
      rw [viewFrom_getElem?] at hi
      obtain ⟨t, ht, rfl⟩ := Option.map_eq_some_iff.mp hi
      refine ⟨h.next + i, rfl, ?_⟩
      rw [halloc.blocks i t ht, hbuilt.sizes t (List.mem_of_getElem? ht)]
      rfl
  · rw [initialize_holding hold] at hok
    cases hok

/-- The region that the lookup finds is the entry of the first request with the address. -/
theorem Allotted.lookup {rs : List RegionRequest} (ht : Allotted rs st h) :
    Option.Rel (Entered st.sections) (firstWith rs a) (st.regions.find? fun m => m.covers a) := by
  refine find?_related ht.entries fun r m he => ?_
  rw [Bool.eq_iff_iff, covers_iff he.base he.size a, decide_eq_true_eq]

/-- The lookup gives a pointer where a request contains the address: into a block as large as
the room of the request's section, as far in as the address is behind the section's start. -/
theorem Allotted.hostPointer_iff {rs : List RegionRequest} (ht : Allotted rs st h) :
    hostPointer st a = some p ↔ ∃ r m s, firstWith rs a = some r ∧
      st.regions.find? (fun m => m.covers a) = some m ∧ Entered st.sections r m ∧
      st.sections[m.sectionIndex]? = some s ∧ s.hostView = some ⟨p.block, 0⟩ ∧
      h.blocks p.block = some ⟨roomOf rs r.key, fun _ => 0⟩ ∧
      p.off = foldOf r + (a.toNat - r.base.toNat) := by
  have hrel := ht.lookup (a := a)
  unfold hostPointer
  rw [if_pos ht.active]
  revert hrel
  generalize hr : firstWith rs a = fr
  generalize hm : (st.regions.find? fun m => m.covers a) = fm
  intro hrel
  cases hrel with
  | none => simp
  | @some r m he =>
    obtain ⟨s, hs, hk⟩ := he.section_key
    obtain ⟨i, hview, hblock⟩ := ht.views s (List.mem_of_getElem? hs)
    have hhas := has_of_firstWith hr
    have hrel : (a.setWidth 64 - m.base.setWidth 64).toNat = a.toNat - r.base.toNat := by
      have h1 := hhas.1
      have h2 := a.isLt
      rw [he.base]
      simp only [BitVec.toNat_sub, BitVec.toNat_setWidth]
      omega
    simp only [hs, hview, Option.map_some, HostPtr.add, Nat.zero_add, he.offset, hrel,
      Option.some.injEq]
    constructor
    · rintro rfl
      exact ⟨r, m, s, rfl, rfl, he, hs, hview, hk ▸ hblock, rfl⟩
    · rintro ⟨r', m', s', rfl, rfl, _, hs', hview', _, hoff⟩
      obtain rfl : s = s' := Option.some.inj (hs.symm.trans hs')
      rw [hview, Option.some.injEq, HostPtr.mk.injEq] at hview'
      rw [hview'.1, ← hoff]

/-- Where a request contains an address, the lookup gives a pointer. -/
theorem Allotted.exists_pointer {rs : List RegionRequest} (ht : Allotted rs st h)
    {r : RegionRequest} (hr : firstWith rs a = some r) : ∃ p, hostPointer st a = some p ∧
      h.blocks p.block = some ⟨roomOf rs r.key, fun _ => 0⟩ ∧
      p.off = foldOf r + (a.toNat - r.base.toNat) := by
  have hrel := ht.lookup (a := a)
  rw [hr] at hrel
  generalize hm : (st.regions.find? fun m => m.covers a) = fm at hrel
  cases hrel with
  | @some _ m he =>
    obtain ⟨s, hs, hk⟩ := he.section_key
    obtain ⟨i, hview, hblock⟩ := ht.views s (List.mem_of_getElem? hs)
    rw [hk] at hblock
    have hp : hostPointer st a = some ⟨i, foldOf r + (a.toNat - r.base.toNat)⟩ :=
      ht.hostPointer_iff.mpr ⟨r, m, s, hr, hm, he, hs, hview, hblock, rfl⟩
    exact ⟨_, hp, hblock, rfl⟩

/-- Of every accepted list: all pointers are in bounds exactly when no request that wraps
around is the first one with an address. The pointers alone are in their blocks exactly when
the sections of such requests have the room for those addresses. -/
theorem accepted_regions_are_in_bounds_unless_a_size_wraps (hrun : FlatRun st h)
    (hok : (initializeGuestFlat env requests st h).ok = true) :
    let out := initializeGuestFlat env requests st h
    ((∀ a p, hostPointer out.state a = some p → ∃ m s,
      RegionGives out.state out.host a p m s) ↔
      ∀ a r, firstWith requests a = some r → ¬ r.Wraps) ∧
    ((∀ a p, hostPointer out.state a = some p → InBlock out.host p) ↔
      ∀ a r, firstWith requests a = some r → r.Wraps →
        foldOf r + (a.toNat - r.base.toNat) < roomOf requests r.key) := by
  intro out
  have ht : Allotted (requests.filter fun r => r.size ≠ 0#64) out.state out.host :=
    initializeGuestFlat_allotted hrun hok
  have hchecked : ∀ {a r}, firstWith requests a = some r → Checked r := by
    intro a r hr
    rw [← firstWith_filter] at hr
    exact ht.checked r (List.mem_of_find?_eq_some hr)
  have hroom : ∀ {a r}, firstWith requests a = some r → ¬ r.Wraps →
      foldOf r + (a.toNat - r.base.toNat) < roomOf requests r.key := by
    intro a r hr hw
    have hmem : r ∈ requests := List.mem_of_find?_eq_some hr
    have hneed := (hchecked hr).room hw
    have hle := le_roomOf hmem (hchecked hr).size_ne
    have hhas := has_of_firstWith hr
    unfold RegionRequest.Has at hhas
    omega
  have hpointer : ∀ {a r}, firstWith requests a = some r → ∃ p,
    hostPointer out.state a = some p ∧
      (InBlock out.host p → foldOf r + (a.toNat - r.base.toNat) < roomOf requests r.key) := by
    intro a r hr
    rw [← firstWith_filter] at hr
    obtain ⟨p, hp, hblock, hoff⟩ := ht.exists_pointer hr
    rw [roomOf_filter] at hblock
    refine ⟨p, hp, ?_⟩
    rintro ⟨b, hb, hlt⟩
    obtain rfl := Option.some.inj (hblock.symm.trans hb)
    rwa [hoff] at hlt
  have hgives : ∀ {a p}, hostPointer out.state a = some p → ∃ r m s,
      firstWith requests a = some r ∧ out.state.regions.find? (fun m => m.covers a) = some m ∧
      Entered out.state.sections r m ∧ out.state.sections[m.sectionIndex]? = some s ∧
      s.hostView = some ⟨p.block, 0⟩ ∧
      (foldOf r + (a.toNat - r.base.toNat) < roomOf requests r.key →
        InBlock out.host p) := by
    intro a p hp
    obtain ⟨r, m, s, hr, hm, he, hs, hview, hblock, hoff⟩ := ht.hostPointer_iff.mp hp
    rw [firstWith_filter] at hr
    rw [roomOf_filter] at hblock
    exact ⟨r, m, s, hr, hm, he, hs, hview, fun hlt => ⟨_, hblock, hoff ▸ hlt⟩⟩
  refine ⟨⟨fun hall a r hr hw => ?_, fun hall a p hp => ?_⟩, fun hall a r hr _ => ?_,
    fun hall a p hp => ?_⟩
  · obtain ⟨p, hp, _⟩ := hpointer hr
    obtain ⟨m, s, hg⟩ := hall a p hp
    obtain ⟨r', m', _, hr', hm', he, _⟩ := hgives hp
    obtain rfl : r = r' := Option.some.inj (hr.symm.trans hr')
    obtain rfl : m = m' := Option.some.inj (hg.found.symm.trans hm')
    have hspace := hg.in_space
    rw [he.base, he.size] at hspace
    unfold RegionRequest.Wraps at hw
    omega
  · obtain ⟨r, m, s, hr, hm, he, hs, hview, hin⟩ := hgives hp
    have hw := hall a r hr
    have hhas := has_of_firstWith hr
    refine ⟨m, s, hm, hs, hview, hin (hroom hr hw), ?_, ?_⟩
    · rw [he.base, he.size]
      exact hhas
    · rw [he.base, he.size]
      exact (hchecked hr).end_le hw
  · obtain ⟨p, hp, hlt⟩ := hpointer hr
    exact hlt (hall a p hp)
  · obtain ⟨r, m, s, hr, _, _, _, _, hin⟩ := hgives hp
    by_cases hw : r.Wraps
    · exact hin (hall a r hr hw)
    · exact hin (hroom hr hw)

end

/-! ## A region that wraps around -/

/-- A region of MEM1 from its second page on, with a size near 2^64. -/
def wrappedRequest : RegionRequest := ⟨0x80001000#32, 0xFFFFFFFFFFFFF001#64, .mem1⟩

/-- The law for that region. -/
theorem the_wrapped_region_is_not_in_bounds :
    ¬ ∀ a p,
      hostPointer (initializeGuestFlat grantingEnv [wrappedRequest] .fresh emptyHost).state a =
        some p →
      InBlock (initializeGuestFlat grantingEnv [wrappedRequest] .fresh emptyHost).host p := by
  have hok : (initializeGuestFlat grantingEnv [wrappedRequest] .fresh emptyHost).ok = true := by
    decide
  rw [(accepted_regions_are_in_bounds_unless_a_size_wraps emptyHost_run hok).2]
  intro hall
  have hwraps : wrappedRequest.Wraps := by
    unfold RegionRequest.Wraps
    decide
  have hroom := hall 0x80002000#32 wrappedRequest rfl hwraps
  exact absurd hroom (by decide)

/-- The list is accepted, and the lookup points behind the block. -/
theorem an_accepted_region_points_outside_its_block :
    ¬ ∀ st h, FlatRun st h → ∀ env requests,
    (initializeGuestFlat env requests st h).ok = true →
      ∀ a p, hostPointer (initializeGuestFlat env requests st h).state a = some p →
        ∃ m s, RegionGives (initializeGuestFlat env requests st h).state
          (initializeGuestFlat env requests st h).host a p m s := by
  intro hall
  have hpointer : hostPointer
      (initializeGuestFlat grantingEnv [wrappedRequest] .fresh emptyHost).state 0x80002000#32 =
        some ⟨0, 0x2000⟩ := by decide
  obtain ⟨_, _, hgives⟩ := hall .fresh emptyHost emptyHost_run grantingEnv [wrappedRequest]
    (by decide) _ _ hpointer
  obtain ⟨b, hb, hlt⟩ := hgives.inside
  have hsize : ((initializeGuestFlat grantingEnv [wrappedRequest] .fresh emptyHost).host.blocks
      0).map Block.size = some 0x1000 := by decide
  rw [hb, Option.map_some, Option.some.injEq] at hsize
  rw [hsize] at hlt
  exact absurd hlt (by decide)

end wii_switch
