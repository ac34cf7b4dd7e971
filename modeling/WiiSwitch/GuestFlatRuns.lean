-- Runs of the backing module. Calls of initialize and shutdown come in any order,
-- with any answers of the host, and the rest of the process works on the same heap
-- in between. A module that is not active is fresh, so a failed initialization has
-- nothing to keep and gives back all that it took.
import WiiSwitch.GuestFlatLaws

namespace wii_switch

/-! ## Releases that must succeed -/

namespace Host

/-- No block exists above the last one that was made. -/
def Good (h : Host) : Prop := ∀ b, h.next ≤ b → h.blocks b = none

/-- `free`, when the pointer is null or the start of a live block. -/
def freeLive (p : Option HostPtr) (h : Host) : Option Host :=
  match p with
  | none => some h
  | some q => if q.off = 0 ∧ (h.blocks q.block).isSome then some (h.free p) else none

/-- `virtmemRemoveReservation`, when the reservation is there. -/
def removeLive (r : Option Nat) (h : Host) : Option Host :=
  match r with
  | none => some h
  | some r => if r ∈ h.reservations then some (h.removeReservation r) else none

/-- The frees of `shutdownInternal`, from the last section to the first. -/
def freeSections : List Section → Host → Option Host
  | [], h => some h
  | s :: rest, h => (freeSections rest h).bind (freeLive s.hostView)

end Host

/-- `shutdownInternal`, when each release is of something that is live: no block and no
reservation is released twice. -/
def releaseOnce (st : FlatState) (h : Host) : Option Host :=
  (Host.freeSections st.sections h).bind (Host.removeLive st.guestReservation)

theorem freeLive_eq {p : Option HostPtr} {h h' : Host} (hf : Host.freeLive p h = some h') :
    h' = h.free p := by
  cases p with
  | none => exact (Option.some.inj hf).symm
  | some q =>
    simp only [Host.freeLive, Option.ite_none_right_eq_some, Option.some.injEq] at hf
    exact hf.2.symm

theorem freeSections_eq {sections : List Section} {h h' : Host}
    (hf : Host.freeSections sections h = some h') :
    h' = sections.foldr (fun s h => h.free s.hostView) h := by
  induction sections generalizing h' with
  | nil => exact (Option.some.inj hf).symm
  | cons s rest ih =>
    obtain ⟨h₁, hrest, hs⟩ := Option.bind_eq_some_iff.mp hf
    rw [freeLive_eq hs, ih hrest, List.foldr_cons]

/-- What is released once is what shutdown releases. -/
theorem releaseOnce_eq {st : FlatState} {h h' : Host} (hr : releaseOnce st h = some h') :
    shutdownInternal st h = (.fresh, h') := by
  obtain ⟨h₁, hf, hres⟩ := Option.bind_eq_some_iff.mp hr
  unfold shutdownInternal
  rw [← freeSections_eq hf]
  cases hg : st.guestReservation with
  | none =>
    rw [hg] at hres
    rw [Option.some.inj hres]
  | some r =>
    rw [hg] at hres
    simp only [Host.removeLive, Option.ite_none_right_eq_some, Option.some.injEq] at hres
    rw [← hres.2]

/-- The same blocks and the same reservations. -/
def SameHeap (h h' : Host) : Prop := h'.blocks = h.blocks ∧ h'.reservations = h.reservations

/-! ## The request loop -/

/-- The request loop has changed the tables alone, and no section has a block. -/
structure Unallocated (st : FlatState) : Prop where
  views : ∀ s ∈ st.sections, s.hostView = none
  base : st.guestBase = none
  reservation : st.guestReservation = none
  active : st.active = false

theorem Unallocated.fresh : Unallocated .fresh :=
  ⟨fun _ hs => absurd hs List.not_mem_nil, rfl, rfl, rfl⟩

theorem findOrCreateSection_views {sections found : List Section} {r : RegionRequest} {i : Nat}
    (h : findOrCreateSection sections r = some (i, found))
    (hv : ∀ s ∈ sections, s.hostView = none) : ∀ s ∈ found, s.hostView = none := by
  unfold findOrCreateSection at h
  split at h
  · obtain ⟨-, rfl⟩ := Prod.mk.inj (Option.some.inj h)
    exact hv
  · split at h
    · cases h
    · obtain ⟨-, rfl⟩ := Prod.mk.inj (Option.some.inj h)
      intro s hs
      rcases List.mem_append.mp hs with hs | hs
      · exact hv s hs
      · rw [List.mem_singleton.mp hs]

theorem growSection_hostView (n : Word64) (s : Section) :
    (growSection n s).hostView = s.hostView := by
  unfold growSection
  split <;> rfl

theorem modify_views {sections : List Section} (i : Nat) (n : Word64)
    (hv : ∀ s ∈ sections, s.hostView = none) :
    ∀ s ∈ sections.modify i (growSection n), s.hostView = none := by
  intro s hs
  obtain ⟨j, hj⟩ := List.mem_iff_getElem?.mp hs
  rw [List.getElem?_modify] at hj
  obtain ⟨t, ht, rfl⟩ := Option.map_eq_some_iff.mp hj
  have htv := hv t (List.mem_of_getElem? ht)
  split
  · rw [growSection_hostView, htv]
  · exact htv

/-- One request keeps it, also where it fails. -/
theorem Unallocated.addRegion {st : FlatState} (h : Unallocated st) (r : RegionRequest) :
    (∀ st', addRegion st r = .ok st' → Unallocated st') ∧
      ∀ e a st', addRegion st r = .error (e, a, st') → Unallocated st' := by
  unfold wii_switch.addRegion
  split
  · exact ⟨fun st' he => Except.ok.inj he ▸ h, fun _ _ _ he => by cases he⟩
  split
  · exact ⟨fun _ he => (by cases he), fun _ _ _ he => by cases he; exact h⟩
  split
  · exact ⟨fun _ he => (by cases he), fun _ _ _ he => by cases he; exact h⟩
  split
  · exact ⟨fun _ he => (by cases he), fun _ _ _ he => by cases he; exact h⟩
  split
  · exact ⟨fun _ he => (by cases he), fun _ _ _ he => by cases he; exact h⟩
  rename_i index sections hfind
  have hviews := findOrCreateSection_views hfind h.views
  dsimp only
  split
  · refine ⟨fun _ he => (by cases he), fun _ _ _ he => ?_⟩
    cases he
    exact ⟨hviews, h.base, h.reservation, h.active⟩
  split
  · refine ⟨fun _ he => (by cases he), fun _ _ _ he => ?_⟩
    cases he
    exact ⟨modify_views _ _ hviews, h.base, h.reservation, h.active⟩
  · refine ⟨fun _ he => ?_, fun _ _ _ he => by cases he⟩
    cases he
    exact ⟨modify_views _ _ hviews, h.base, h.reservation, h.active⟩

theorem Unallocated.foldlM {st : FlatState} (h : Unallocated st) (rs : List RegionRequest) :
    (∀ st', rs.foldlM wii_switch.addRegion st = .ok st' → Unallocated st') ∧
      ∀ e a st', rs.foldlM wii_switch.addRegion st = .error (e, a, st') → Unallocated st' := by
  induction rs generalizing st with
  | nil => exact ⟨fun st' he => Except.ok.inj he ▸ h, fun _ _ _ he => by cases he⟩
  | cons r rs ih =>
    rw [List.foldlM_cons]
    cases hadd : wii_switch.addRegion st r with
    | ok st₁ => exact ih ((h.addRegion r).1 st₁ hadd)
    | error x =>
      refine ⟨fun _ he => (by cases he), fun e a st' he => ?_⟩
      cases he
      exact (h.addRegion r).2 _ _ _ hadd

theorem freeSections_unallocated {sections : List Section}
    (hv : ∀ s ∈ sections, s.hostView = none)
    (h : Host) : Host.freeSections sections h = some h := by
  induction sections with
  | nil => rfl
  | cons s rest ih =>
    rw [Host.freeSections, ih fun t ht => hv t (List.mem_cons_of_mem s ht), Option.bind_some,
      hv s List.mem_cons_self]
    rfl

/-- There is nothing to release yet. -/
theorem Unallocated.releaseOnce {st : FlatState} (hst : Unallocated st) (h : Host) :
    releaseOnce st h = some h := by
  rw [wii_switch.releaseOnce, freeSections_unallocated hst.views, Option.bind_some, hst.reservation]
  rfl

/-! ## Owned blocks -/

/-- The sections have blocks of their own, each live. -/
structure Owned (sections : List Section) (h : Host) : Prop where
  live : ∀ s ∈ sections, ∀ p, s.hostView = some p → p.off = 0 ∧ (h.blocks p.block).isSome
  distinct : sections.Pairwise fun s t =>
    ∀ p q, s.hostView = some p → t.hostView = some q → p.block ≠ q.block

/-- The block is the one of a section. -/
def OwnBlock (sections : List Section) (b : Nat) : Prop :=
  ∃ s ∈ sections, ∃ p, s.hostView = some p ∧ p.block = b

theorem ownBlock_cons {s : Section} {rest : List Section} {b : Nat} :
    OwnBlock (s :: rest) b ↔ (∃ p, s.hostView = some p ∧ p.block = b) ∨
    OwnBlock rest b := by
  simp [OwnBlock]

theorem not_ownBlock {sections : List Section}
    (hv : ∀ s ∈ sections, s.hostView = none) (b : Nat) :
    ¬ OwnBlock sections b := by
  rintro ⟨s, hs, p, hp, -⟩
  rw [hv s hs] at hp
  cases hp

/-- Owned blocks can be released once each; the rest of the heap stays. -/
theorem Owned.freeSections {sections : List Section} {h : Host} (ho : Owned sections h) :
    ∃ h', Host.freeSections sections h = some h' ∧ h'.next = h.next ∧
      h'.reservations = h.reservations ∧ (∀ b, OwnBlock sections b → h'.blocks b = none) ∧
      ∀ b, ¬ OwnBlock sections b → h'.blocks b = h.blocks b := by
  induction sections with
  | nil => exact ⟨h, rfl, rfl, rfl, fun b hb => (by simp [OwnBlock] at hb), fun _ _ => rfl⟩
  | cons s rest ih =>
    have hrest : Owned rest h :=
      ⟨fun t ht => ho.live t (List.mem_cons_of_mem s ht), (List.pairwise_cons.mp ho.distinct).2⟩
    obtain ⟨h₁, heq, hnext, hres, hgone, hkept⟩ := ih hrest
    rw [Host.freeSections, heq, Option.bind_some]
    cases hv : s.hostView with
    | none =>
      refine ⟨h₁, rfl, hnext, hres, fun b hb => ?_, fun b hb => ?_⟩
      · refine hgone b ((ownBlock_cons.mp hb).resolve_left ?_)
        simp [hv]
      · exact hkept b fun hr => hb (ownBlock_cons.mpr (Or.inr hr))
    | some p =>
      obtain ⟨hoff, hlive⟩ := ho.live s List.mem_cons_self p hv
      have hown : ¬ OwnBlock rest p.block := by
        rintro ⟨t, ht, q, hq, hqp⟩
        exact (List.pairwise_cons.mp ho.distinct).1 t ht p q hv hq hqp.symm
      refine ⟨h₁.free (some p), ?_, hnext, hres, fun b hb => ?_, fun b hb => ?_⟩
      · rw [Host.freeLive, if_pos ⟨hoff, by rwa [hkept _ hown]⟩]
      · show Function.update h₁.blocks p.block none b = none
        rw [Function.update_apply]
        split
        · rfl
        · rename_i hne
          refine hgone b ((ownBlock_cons.mp hb).resolve_left ?_)
          rintro ⟨q, hq, rfl⟩
          rw [hv] at hq
          exact hne (by rw [Option.some.inj hq])
      · have hne : b ≠ p.block := fun hbp =>
          hb (ownBlock_cons.mpr (Or.inl ⟨p, hv, hbp.symm⟩))
        show Function.update h₁.blocks p.block none b = h.blocks b
        rw [Function.update_of_ne hne]
        exact hkept b fun hr => hb (ownBlock_cons.mpr (Or.inr hr))

/-- What an allocation gives, all of the sections or some: new blocks for them, and
nothing else. -/
structure AllocGives (h : Host) (sections : List Section) (h' : Host) : Prop where
  good : h'.Good
  le : h.next ≤ h'.next
  reservations : h'.reservations = h.reservations
  owned : Owned sections h'
  new : ∀ b, OwnBlock sections b → h.next ≤ b
  others : ∀ b, ¬ OwnBlock sections b → h'.blocks b = h.blocks b

theorem AllocGives.none {h : Host} (hg : h.Good) {sections : List Section}
    (hv : ∀ s ∈ sections, s.hostView = none) : AllocGives h sections h where
  good := hg
  le := Nat.le_refl _
  reservations := rfl
  owned := by
    refine ⟨fun s hs p hp => ?_, List.pairwise_iff_forall_sublist.mpr fun {s t} hst p q hp =>
      ?_⟩
    · rw [hv s hs] at hp
      cases hp
    · rw [hv s (hst.subset List.mem_cons_self)] at hp
      cases hp
  new := fun b hb => absurd hb (not_ownBlock hv b)
  others := fun _ _ => rfl

theorem calloc_good {h : Host} (hg : h.Good) (size : Word64) : (h.calloc true size).2.Good := by
  intro b hb
  have hb : h.next + 1 ≤ b := hb
  show Function.update h.blocks h.next _ b = none
  rw [Function.update_of_ne (by omega)]
  exact hg b (by omega)

/-- One more section has its block. -/
theorem AllocGives.cons {h h' : Host} {sections : List Section} {s : Section}
    (ha : AllocGives (h.calloc true s.size).2 sections h') :
    AllocGives h ({ s with hostView := some ⟨h.next, 0⟩ } :: sections) h' := by
  have hle : h.next + 1 ≤ h'.next := ha.le
  have hnot : ¬ OwnBlock sections h.next := fun hb => by
    have : h.next + 1 ≤ h.next := ha.new _ hb
    omega
  have hlive : (h'.blocks h.next).isSome := by
    rw [ha.others _ hnot]
    show (Function.update h.blocks h.next _ h.next).isSome
    rw [Function.update_self]
    rfl
  refine ⟨ha.good, Nat.le_of_succ_le hle, ha.reservations, ⟨fun t ht p hp => ?_, ?_⟩,
    fun b hb => ?_, fun b hb => ?_⟩
  · rcases List.mem_cons.mp ht with rfl | ht
    · obtain rfl := Option.some.inj hp
      exact ⟨rfl, hlive⟩
    · exact ha.owned.live t ht p hp
  · refine List.pairwise_cons.mpr ⟨fun t ht p q hp hq hpq => ?_, ha.owned.distinct⟩
    obtain rfl := Option.some.inj hp
    exact hnot ⟨t, ht, q, hq, hpq.symm⟩
  · rcases ownBlock_cons.mp hb with ⟨p, hp, rfl⟩ | hb
    · rw [← Option.some.inj hp]
    · exact Nat.le_of_succ_le (ha.new b hb)
  · rw [ownBlock_cons, not_or] at hb
    rw [ha.others b hb.2]
    show Function.update h.blocks h.next _ b = h.blocks b
    exact Function.update_of_ne (fun hbn => hb.1 ⟨_, rfl, hbn.symm⟩) ..

theorem allocSections_gives (callocOk : Nat → Bool) {sections : List Section}
    (hv : ∀ s ∈ sections, s.hostView = none) (i : Nat) {h : Host} (hg : h.Good) :
    AllocGives h (allocSections callocOk i sections h).2.1
      (allocSections callocOk i sections h).2.2 ∧
      ((allocSections callocOk i sections h).1 = true →
        ∀ s ∈ (allocSections callocOk i sections h).2.1, s.hostView.isSome) := by
  induction sections generalizing i h with
  | nil => exact ⟨.none hg hv, fun _ _ hs => absurd hs List.not_mem_nil⟩
  | cons s rest ih =>
    have hrest : ∀ t ∈ rest, t.hostView = none := fun t ht => hv t (List.mem_cons_of_mem s ht)
    cases hok : callocOk i with
    | false =>
      simp only [allocSections, hok, Host.calloc, Bool.false_eq_true, if_false]
      refine ⟨.none hg fun t ht => ?_, fun hf => hf.elim⟩
      rcases List.mem_cons.mp ht with rfl | ht
      · rfl
      · exact hrest t ht
    | true =>
      obtain ⟨hgives, hall⟩ := ih hrest (i + 1) (calloc_good hg s.size)
      simp only [allocSections, hok, Host.calloc, if_true] at hgives hall ⊢
      refine ⟨hgives.cons, fun hok t ht => ?_⟩
      rcases List.mem_cons.mp ht with rfl | ht
      · rfl
      · exact hall hok t ht

/-- The blocks that an allocation gave can be released once each, and the heap is then as
before. -/
theorem AllocGives.freeSections {h h' : Host} {sections : List Section} (hg : h.Good)
    (ha : AllocGives h sections h') :
    ∃ h₁, Host.freeSections sections h' = some h₁ ∧ h₁.Good ∧ h.next ≤ h₁.next ∧
    SameHeap h h₁ := by
  obtain ⟨h₁, heq, hnext, hres, hgone, hkept⟩ := ha.owned.freeSections
  have hblocks : ∀ b, h₁.blocks b = h.blocks b := by
    intro b
    by_cases hb : OwnBlock sections b
    · rw [hgone b hb, hg b (ha.new b hb)]
    · rw [hkept b hb, ha.others b hb]
  have hle := ha.le
  refine ⟨h₁, heq, fun b hb => ?_, by omega, funext hblocks, hres.trans ha.reservations⟩
  rw [hblocks]
  exact hg b (by omega)

/-! ## One initialization -/

/-- An active module with what it holds: live blocks of its own, one for each section,
and a reservation that is there. -/
structure Holding (st : FlatState) (h : Host) : Prop where
  active : st.active = true
  owned : Owned st.sections h
  views : ∀ s ∈ st.sections, s.hostView.isSome
  reserved : ∃ r, st.guestReservation = some r ∧ r ∈ h.reservations

/-- What an initialization of a fresh module leaves. -/
structure Settles (h : Host) (out : InitOutcome) : Prop where
  good : out.host.Good
  le : h.next ≤ out.host.next
  failed : out.ok = false → out.state = .fresh ∧ SameHeap h out.host
  active : out.ok = true → Holding out.state out.host
  release : out.ok = true → ∃ h', releaseOnce out.state out.host = some h' ∧ SameHeap h h'

/-- A failure gives back what there is. -/
theorem settles_failInit {st : FlatState} {h h₁ h' : Host} (hr : releaseOnce st h₁ = some h')
    (hg : h'.Good) (hle : h.next ≤ h'.next) (hs : SameHeap h h') (result address : Word) :
    Settles h (failInit result address st h₁) := by
  have hdown := releaseOnce_eq hr
  refine ⟨?_, ?_, fun _ => ⟨?_, ?_⟩, fun hf => (by cases hf), fun hf => (by cases hf)⟩
  · simp only [failInit, hdown]
    exact hg
  · simp only [failInit, hdown]
    exact hle
  · simp only [failInit, hdown]
  · simp only [failInit, hdown]
    exact hs

theorem initialize_settles {h : Host} (hg : h.Good) (env : HostEnv)
    (requests : List RegionRequest) :
    Settles h (initializeGuestFlat env requests .fresh h) := by
  have hloop := Unallocated.fresh.foldlM requests
  unfold initializeGuestFlat
  simp only [FlatState.fresh, Option.isSome_none, Bool.false_eq_true, or_self, if_false]
  simp only [FlatState.fresh] at hloop
  split
  · exact ⟨hg, Nat.le_refl _, fun _ => ⟨rfl, rfl, rfl⟩, fun hf => (by cases hf),
      fun hf => (by cases hf)⟩
  cases hfold : requests.foldlM addRegion ⟨[], [], none, none, false⟩ with
  | error x =>
    obtain ⟨result, address, st⟩ := x
    exact settles_failInit ((hloop.2 _ _ _ hfold).releaseOnce h) hg (Nat.le_refl _)
      ⟨rfl, rfl⟩ _ _
  | ok st =>
    have hst := hloop.1 st hfold
    cases hfind : env.findAslr with
    | none =>
      simp only [reserveWindow, hfind, hst.base, Option.isNone_none, if_true]
      exact settles_failInit (hst.releaseOnce h) hg (Nat.le_refl _) ⟨rfl, rfl⟩ _ _
    | some base =>
      cases hadd : env.addReservation with
      | none =>
        simp only [reserveWindow, hfind, hadd, Option.isNone_some, Option.isNone_none,
          Bool.false_eq_true, if_false, if_true]
        refine settles_failInit ?_ hg (Nat.le_refl _) ⟨rfl, rfl⟩ _ _
        rw [releaseOnce, freeSections_unallocated hst.views, Option.bind_some]
        rfl
      | some r =>
        simp only [reserveWindow, hfind, hadd, Option.isNone_some, Bool.false_eq_true, if_false]
        have hg' : Host.Good { h with reservations := r :: h.reservations } := hg
        obtain ⟨hgives, hall⟩ := allocSections_gives env.callocOk hst.views 0 hg'
        generalize allocSections env.callocOk 0 st.sections _ = out at hgives hall ⊢
        obtain ⟨ok, sections, h₁⟩ := out
        obtain ⟨h₂, hfree, hgood, hle, hblocks, hres⟩ := hgives.freeSections hg'
        dsimp only at hgives hall hfree hres hblocks hle ⊢
        -- releasing the blocks and the reservation gives the first heap back
        have hrelease : ∀ a, releaseOnce ⟨sections, st.regions, some base, some r, a⟩ h₁ =
            some (h₂.removeReservation r) := by
          intro a
          rw [releaseOnce, hfree, Option.bind_some, Host.removeLive,
            if_pos (by rw [hres]; exact List.mem_cons_self)]
        have hsame : SameHeap h (h₂.removeReservation r) := by
          refine ⟨hblocks, ?_⟩
          show h₂.reservations.erase r = h.reservations
          rw [hres, List.erase_cons_head]
        cases ok with
        | false => exact settles_failInit (hrelease _) hgood hle hsame _ _
        | true =>
          refine ⟨hgives.good, hgives.le, fun hf => (by cases hf), fun _ => ?_, fun _ => ?_⟩
          · refine ⟨rfl, hgives.owned, hall rfl, r, rfl, ?_⟩
            show r ∈ h₁.reservations
            rw [hgives.reservations]
            exact List.mem_cons_self
          · exact ⟨_, hrelease true, hsame⟩

/-! ## Runs -/

/-- The rest of the process works on the heap, but not on what the module holds. -/
structure Spares (st : FlatState) (h h' : Host) : Prop where
  good : h'.Good
  le : h.next ≤ h'.next
  blocks : ∀ b, OwnBlock st.sections b → (h'.blocks b).isSome = (h.blocks b).isSome
  reservation : ∀ r, st.guestReservation = some r → r ∈ h.reservations →
    r ∈ h'.reservations

/-- The states of the module that calls of initialize and shutdown reach. -/
inductive FlatRun : FlatState → Host → Prop
  | start {h : Host} : h.Good → FlatRun .fresh h
  | init {st : FlatState} {h : Host} (env : HostEnv) (requests : List RegionRequest) :
    FlatRun st h → FlatRun (initializeGuestFlat env requests st h).state
      (initializeGuestFlat env requests st h).host
  | shutdown {st : FlatState} {h : Host} :
    FlatRun st h → FlatRun (shutdownInternal st h).1 (shutdownInternal st h).2
  | other {st : FlatState} {h h' : Host} : FlatRun st h → Spares st h h' → FlatRun st h'

/-- The module is as it should be after every call: fresh, or active. -/
def FlatSound (st : FlatState) (h : Host) : Prop := h.Good ∧ (st = .fresh ∨ Holding st h)

/-- Everything that the module holds is released, each once, and nothing else. -/
structure Releases (st : FlatState) (h h' : Host) : Prop where
  once : releaseOnce st h = some h'
  down : shutdownInternal st h = (.fresh, h')
  gone : ∀ b, OwnBlock st.sections b → h'.blocks b = none
  kept : ∀ b, ¬ OwnBlock st.sections b → h'.blocks b = h.blocks b
  reservations : h'.reservations = st.guestReservation.elim h.reservations h.reservations.erase

theorem FlatSound.releases {st : FlatState} {h : Host} (hs : FlatSound st h) :
    ∃ h', Releases st h h' ∧ h'.Good := by
  obtain ⟨hg, rfl | hold⟩ := hs
  · have hrel := Unallocated.fresh.releaseOnce h
    refine ⟨h, ⟨hrel, releaseOnce_eq hrel, fun b hb => ?_, fun _ _ => rfl, rfl⟩, hg⟩
    exact absurd hb (not_ownBlock Unallocated.fresh.views b)
  · obtain ⟨r, hr, hmem⟩ := hold.reserved
    obtain ⟨h₁, hfree, hnext, hres, hgone, hkept⟩ := hold.owned.freeSections
    have hrel : releaseOnce st h = some (h₁.removeReservation r) := by
      rw [releaseOnce, hfree, Option.bind_some, hr, Host.removeLive, if_pos (hres ▸ hmem)]
    refine ⟨_, ⟨hrel, releaseOnce_eq hrel, hgone, hkept, ?_⟩, fun b hb => ?_⟩
    · rw [hr]
      show h₁.reservations.erase r = h.reservations.erase r
      rw [hres]
    · show h₁.blocks b = none
      by_cases hown : OwnBlock st.sections b
      · exact hgone b hown
      · rw [hkept b hown]
        exact hg b (by rw [← hnext]; exact hb)

/-- A module that is in use refuses, and nothing changes. -/
theorem initialize_holding {st : FlatState} {h : Host} (hold : Holding st h) (env : HostEnv)
    (requests : List RegionRequest) :
    initializeGuestFlat env requests st h =
      ⟨false, { InitReport.empty with result := kErrorAlreadyActive }, st, h⟩ := by
  unfold initializeGuestFlat
  rw [if_pos (Or.inl hold.active)]

theorem FlatRun.sound {st : FlatState} {h : Host} (hrun : FlatRun st h) : FlatSound st h := by
  induction hrun with
  | start hg => exact ⟨hg, Or.inl rfl⟩
  | @init st h env requests _ ih =>
    obtain ⟨hg, rfl | hold⟩ := ih
    · have hset := initialize_settles hg env requests
      refine ⟨hset.good, ?_⟩
      cases hok : (initializeGuestFlat env requests .fresh h).ok with
      | false => exact Or.inl (hset.failed hok).1
      | true => exact Or.inr (hset.active hok)
    · rw [initialize_holding hold]
      exact ⟨hg, Or.inr hold⟩
  | shutdown _ ih =>
    obtain ⟨h', hrel, hg⟩ := ih.releases
    rw [hrel.down]
    exact ⟨hg, Or.inl rfl⟩
  | other _ hspares ih =>
    refine ⟨hspares.good, ih.2.imp_right fun hold =>
      ⟨hold.active, ⟨fun s hs p hp => ?_, ?_⟩,
      hold.views, ?_⟩⟩
    · obtain ⟨hoff, hlive⟩ := hold.owned.live s hs p hp
      exact ⟨hoff, (hspares.blocks p.block ⟨s, hs, p, hp, rfl⟩).trans hlive⟩
    · exact hold.owned.distinct
    · obtain ⟨r, hr, hmem⟩ := hold.reserved
      exact ⟨r, hr, hspares.reservation r hr hmem⟩

/-- An initialization that fails leaves the module and the heap as they were; if the
module was not in use, the next one starts from a fresh module. One that succeeds leaves
an active module with a host view for each section, and shutdown then gives the heap
back. From every state of a run, shutdown releases what the module holds, each once. -/
theorem initialization_is_all_or_nothing {st : FlatState} {h : Host} (hrun : FlatRun st h)
    (env : HostEnv) (requests : List RegionRequest) :
    let out := initializeGuestFlat env requests st h
    (out.ok = false → out.state = st ∧ SameHeap h out.host ∧
      (st.active = false → ∀ env' requests' h',
        initializeGuestFlat env' requests' out.state h' =
        initializeGuestFlat env' requests' .fresh h')) ∧
    (out.ok = true → out.state.active = true ∧
      (∀ s ∈ out.state.sections, s.hostView.isSome) ∧
      ∃ h', Releases out.state out.host h' ∧ SameHeap h h') ∧
    ∃ h', Releases st h h' := by
  intro out
  have hsound := hrun.sound
  obtain ⟨h', hrel, -⟩ := hsound.releases
  obtain ⟨hg, rfl | hold⟩ := hsound
  · have hset := initialize_settles hg env requests
    refine ⟨fun hok => ?_, fun hok => ?_, h', hrel⟩
    · obtain ⟨hst, hsame⟩ := hset.failed hok
      exact ⟨hst, hsame, fun _ env' requests' h' => by rw [show out.state = .fresh from hst]⟩
    · have hold := hset.active hok
      obtain ⟨h₁, hrel₁, -⟩ := (show FlatSound out.state out.host from
        ⟨hset.good, Or.inr hold⟩).releases
      obtain ⟨h₂, honce, hsame⟩ := hset.release hok
      obtain rfl : h₁ = h₂ := Option.some.inj (hrel₁.once.symm.trans honce)
      exact ⟨hold.active, hold.views, h₁, hrel₁, hsame⟩
  · have hout : out = _ := initialize_holding hold env requests
    rw [hout]
    refine ⟨fun _ => ⟨rfl, ⟨rfl, rfl⟩, fun hf => ?_⟩, fun hok =>
      (by cases hok), h', hrel⟩
    rw [hold.active] at hf
    cases hf

/-! ## A module in use -/

/-- A host without blocks that grants everything. -/
def emptyHost : Host := ⟨fun _ => none, 0, []⟩

def grantingEnv : HostEnv := ⟨some 0x10000000, some 0, fun _ => true⟩

theorem emptyHost_run : FlatRun .fresh emptyHost := .start fun _ _ => rfl

/-- The law on an empty host, which grants an initialization without regions. -/
theorem the_empty_initialization_is_all_or_nothing :
    (initializeGuestFlat grantingEnv [] .fresh emptyHost).state.active = true ∧
      ∃ h', Releases (initializeGuestFlat grantingEnv [] .fresh emptyHost).state
        (initializeGuestFlat grantingEnv [] .fresh emptyHost).host h' ∧
        SameHeap emptyHost h' := by
  obtain ⟨_, hok, _⟩ := initialization_is_all_or_nothing emptyHost_run grantingEnv []
  obtain ⟨hactive, _, hrel⟩ := hok rfl
  exact ⟨hactive, hrel⟩

/-- A module in use refuses an initialization, and it goes on to refuse: the next one does
not behave as on a fresh module. -/
theorem a_module_in_use_is_not_fresh :
    ¬ ∀ st h, FlatRun st h → ∀ env requests,
      (initializeGuestFlat env requests st h).ok = false → ∀ env' requests' h',
      initializeGuestFlat env' requests' (initializeGuestFlat env requests st h).state h' =
        initializeGuestFlat env' requests' .fresh h' := by
  intro hall
  have hrun := emptyHost_run.init grantingEnv []
  have := congrArg InitOutcome.ok (hall _ _ hrun grantingEnv [] rfl grantingEnv [] emptyHost)
  exact absurd this (by decide)

end wii_switch
