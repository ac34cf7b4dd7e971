-- The laws of the record table of the guest fibers (source/switch_guest_fiber.cpp). A thread
-- has one record at most; `create` and `register_current` change one record, and these are
-- all their outcomes.
import WiiSwitch.ThreadStart

namespace wii_switch

open OS Routine

/-! ## The record of a thread -/

namespace GuestFibers

variable {f : GuestFibers} {t u : Word} {i j : Fin 64} {r : GuestFiberRecord}

/-- The record is in use. -/
def Used (f : GuestFibers) (i : Fin 64) : Prop := (f.records i).state ≠ .empty

/-- The records in use are of different threads, and none is of thread 0. -/
structure Distinct (f : GuestFibers) : Prop where
  thread_ne : ∀ i, f.Used i → (f.records i).guestThread ≠ 0#32
  one : ∀ i j, f.Used i → f.Used j → (f.records i).guestThread = (f.records j).guestThread →
    i = j

theorem find_spec (h : f.find t = some i) :
    t ≠ 0#32 ∧ f.Used i ∧ (f.records i).guestThread = t := by
  unfold find at h
  by_cases ht : t = 0#32
  · rw [if_pos ht] at h
    cases h
  rw [if_neg ht] at h
  have hi := List.find?_some h
  simp only [decide_eq_true_eq] at hi
  exact ⟨ht, hi.1, hi.2⟩

theorem find_none (h : f.find t = none) (ht : t ≠ 0#32) (hi : f.Used i) :
    (f.records i).guestThread ≠ t := by
  intro hthread
  unfold find at h
  rw [if_neg ht] at h
  have hnot := List.find?_eq_none.mp h i (List.mem_finRange i)
  apply hnot
  simp only [decide_eq_true_eq]
  exact ⟨hi, hthread⟩

/-- `Find` gives the one record of the thread. -/
theorem Distinct.find_iff (hf : f.Distinct) :
    f.find t = some i ↔ f.Used i ∧ (f.records i).guestThread = t := by
  constructor
  · intro h
    exact (find_spec h).2
  · rintro ⟨hi, hthread⟩
    have ht : t ≠ 0#32 := hthread ▸ hf.thread_ne i hi
    cases h : f.find t with
    | none => exact absurd hthread (find_none h ht hi)
    | some j =>
      obtain ⟨_, hj, hjt⟩ := find_spec h
      rw [hf.one j i hj hi (hjt.trans hthread.symm)]

/-- `Find` looks at the threads of the records in use. -/
theorem find_congr {f' : GuestFibers} (hused : ∀ i, f'.Used i ↔ f.Used i)
    (hthread : ∀ i, (f'.records i).guestThread = (f.records i).guestThread) :
    f'.find t = f.find t := by
  unfold find
  split
  · rfl
  · congr 1
    funext i
    have hi : (f'.records i).state ≠ .empty ↔ (f.records i).state ≠ .empty := hused i
    rw [hthread i, decide_eq_decide, hi]

/-! ## A record is set -/

@[simp] theorem setRecord_self (f : GuestFibers) (i : Fin 64) (r : GuestFiberRecord) :
    (f.setRecord i r).records i = r := Function.update_self ..

theorem setRecord_other (f : GuestFibers) (r : GuestFiberRecord) (h : j ≠ i) :
    (f.setRecord i r).records j = f.records j := Function.update_of_ne h ..

theorem used_setRecord_self : (f.setRecord i r).Used i ↔ r.state ≠ .empty := by
  unfold Used
  rw [setRecord_self]

theorem used_setRecord_other (h : j ≠ i) : (f.setRecord i r).Used j ↔ f.Used j := by
  unfold Used
  rw [setRecord_other f r h]

/-- A record in use is an old one, or the one that is set. -/
theorem setRecord_used {f' : GuestFibers} (hrecords : f'.records = (f.setRecord i r).records)
    (j : Fin 64) (hj : f'.Used j) :
    (j ≠ i ∧ f.Used j ∧ f'.records j = f.records j) ∨
      (j = i ∧ r.state ≠ .empty ∧ f'.records j = r) := by
  unfold Used at hj
  rw [hrecords] at hj ⊢
  by_cases hji : j = i
  · rw [hji, setRecord_self] at hj ⊢
    exact Or.inr ⟨rfl, hj, rfl⟩
  · exact Or.inl ⟨hji, (used_setRecord_other hji).mp hj, setRecord_other f r hji⟩

/-- A slot for the thread: its own, or an empty one when it has none. -/
def Slot (f : GuestFibers) (t : Word) (i : Fin 64) : Prop :=
  f.find t = some i ∨ (f.find t = none ∧ (f.records i).state = .empty)

/-- No other record is of the thread of a slot. -/
theorem Distinct.slot_other (hf : f.Distinct) (ht : t ≠ 0#32) (h : f.Slot t i) (hij : j ≠ i)
    (hj : f.Used j) : (f.records j).guestThread ≠ t := by
  rcases h with h | ⟨h, _⟩
  · intro hthread
    obtain ⟨_, hi, hit⟩ := find_spec h
    exact hij (hf.one j i hj hi (hthread.trans hit.symm))
  · exact find_none h ht hj

/-- A record of the thread in its slot. -/
theorem Distinct.setRecord (hf : f.Distinct) (ht : t ≠ 0#32) (h : f.Slot t i)
    (hr : r.guestThread = t) : (f.setRecord i r).Distinct := by
  have hused : ∀ j, j ≠ i → (f.setRecord i r).Used j →
      f.Used j ∧ ((f.setRecord i r).records j).guestThread = (f.records j).guestThread :=
    fun j hj hu => ⟨(used_setRecord_other hj).mp hu, by rw [setRecord_other f r hj]⟩
  constructor
  · intro j hj
    by_cases hji : j = i
    · rw [hji, setRecord_self, hr]
      exact ht
    · obtain ⟨hu, hthread⟩ := hused j hji hj
      rw [hthread]
      exact hf.thread_ne j hu
  · intro j k hj hk heq
    by_cases hji : j = i
    · by_cases hki : k = i
      · rw [hji, hki]
      · obtain ⟨hu, hthread⟩ := hused k hki hk
        rw [hji, setRecord_self, hr, hthread] at heq
        exact absurd heq.symm (hf.slot_other ht h hki hu)
    · obtain ⟨hu, hthread⟩ := hused j hji hj
      by_cases hki : k = i
      · rw [hki, setRecord_self, hr, hthread] at heq
        exact absurd heq (hf.slot_other ht h hji hu)
      · obtain ⟨hu', hthread'⟩ := hused k hki hk
        rw [hthread, hthread'] at heq
        exact hf.one j k hu hu' heq

/-- A slot of one thread is no slot of another. -/
theorem Distinct.find_setRecord_other (hf : f.Distinct) (hf' : (f.setRecord i r).Distinct)
    (h : f.Slot t i) (hr : r.state ≠ .empty → r.guestThread = t) (hu : u ≠ t) :
    (f.setRecord i r).find u = f.find u := by
  apply Option.ext
  intro j
  rw [hf'.find_iff, hf.find_iff]
  by_cases hji : j = i
  · subst hji
    rw [used_setRecord_self, setRecord_self]
    apply iff_of_false
    · rintro ⟨hstate, hthread⟩
      exact hu (hthread.symm.trans (hr hstate))
    · rintro ⟨hused, hthread⟩
      rcases h with h | ⟨_, hempty⟩
      · exact hu (hthread.symm.trans (find_spec h).2.2)
      · exact hused hempty
  · rw [used_setRecord_other hji, setRecord_other f r hji]

/-- A slot is cleared. -/
theorem Distinct.clear (hf : f.Distinct) : (f.setRecord i .none).Distinct := by
  have hused : ∀ j, (f.setRecord i .none).Used j →
      f.Used j ∧ (f.setRecord i .none).records j = f.records j := by
    intro j hj
    have hji : j ≠ i := by
      rintro rfl
      exact used_setRecord_self.mp hj rfl
    exact ⟨(used_setRecord_other hji).mp hj, setRecord_other f .none hji⟩
  constructor
  · intro j hj
    rw [(hused j hj).2]
    exact hf.thread_ne j (hused j hj).1
  · intro j k hj hk heq
    rw [(hused j hj).2, (hused k hk).2] at heq
    exact hf.one j k (hused j hj).1 (hused k hk).1 heq

/-- The slot that `Allocate` gives, and what a record set there makes of the table. -/
theorem allocate_slot {f' : GuestFibers} (h : f.allocate t = some (i, f')) :
    f.Slot t i ∧ (∀ r, f'.setRecord i r = f.setRecord i r) ∧
      (f.find t = none → f'.records i = { GuestFiberRecord.none with guestThread := t }) ∧
      (f.find t = some i → f' = f) := by
  unfold allocate at h
  cases hfind : f.find t with
  | some j =>
    rw [hfind] at h
    cases h
    refine ⟨Or.inl hfind, fun _ => rfl, ?_, fun _ => rfl⟩
    intro h
    cases h
  | none =>
    rw [hfind] at h
    obtain ⟨j, hj, heq⟩ := Option.map_eq_some_iff.mp h
    cases heq
    have hempty := List.find?_some hj
    simp only [decide_eq_true_eq] at hempty
    refine ⟨Or.inr ⟨hfind, hempty⟩, fun r => ?_, fun _ => setRecord_self .., ?_⟩
    · simp [GuestFibers.setRecord]
    · intro h
      cases h

end GuestFibers

/-! ## The host contexts -/

namespace HostContexts

/-- The contexts behind `Destroy`. -/
def destroy (h : HostContexts) (context : Handle) : HostContexts :=
  if context = 0 ∨ context = h.current then h
  else { h with live := Function.update h.live context false }

/-- The contexts behind a `Create` that the host refuses. -/
def spend (h : HostContexts) : HostContexts := { h with next := h.next + 1 }

/-- The contexts behind a `Create`. -/
def create (h : HostContexts) (argument : Word) : HostContexts :=
  { h.spend with
    argument := Function.update h.argument h.next argument
    live := Function.update h.live h.next true }

@[simp] theorem destroy_current (h : HostContexts) (c : Handle) :
    (h.destroy c).current = h.current := by
  unfold destroy
  split <;> rfl

@[simp] theorem destroy_next (h : HostContexts) (c : Handle) : (h.destroy c).next = h.next := by
  unfold destroy
  split <;> rfl

@[simp] theorem destroy_argument (h : HostContexts) (c : Handle) :
    (h.destroy c).argument = h.argument := by
  unfold destroy
  split <;> rfl

@[simp] theorem destroy_grants (h : HostContexts) (c : Handle) :
    (h.destroy c).grants = h.grants := by
  unfold destroy
  split <;> rfl

theorem destroy_live (h : HostContexts) {c k : Handle} (hk : k = h.current ∨ k ≠ c) :
    (h.destroy c).live k = h.live k := by
  unfold destroy
  split
  · rfl
  · rename_i hc
    apply Function.update_of_ne
    rcases hk with rfl | hk
    · exact fun h => hc (Or.inr h.symm)
    · exact hk

end HostContexts

@[simp] theorem Machine.withHosts_hosts (s : Machine Memory) (h : HostContexts) :
    (s.withHosts h).hosts = h := rfl

@[simp] theorem Machine.withHosts_fibers (s : Machine Memory) (h : HostContexts) :
    (s.withHosts h).fibers = s.fibers := rfl

@[simp] theorem Machine.withFibers_hosts (s : Machine Memory) (f : GuestFibers) :
    (s.withFibers f).hosts = s.hosts := rfl

@[simp] theorem Machine.withFibers_fibers (s : Machine Memory) (f : GuestFibers) :
    (s.withFibers f).fibers = f := rfl

theorem hostDestroy_apply (c : Handle) (s : Machine Memory) :
    hostDestroy c s = .ret () (s.withHosts (s.hosts.destroy c)) := by
  unfold hostDestroy HostContexts.destroy
  rw [bind_of (gets_apply ..), Routine.ite_apply]
  split <;> rfl

theorem hostCreate_apply (argument : Word) {s : Machine Memory} (hcurrent : s.hosts.current ≠ 0) :
    hostCreate argument s =
      if s.hosts.grants s.hosts.next then .ret s.hosts.next (s.withHosts (s.hosts.create argument))
      else .ret 0 (s.withHosts s.hosts.spend) := by
  unfold hostCreate
  rw [bind_of (gets_apply ..), Routine.ite_apply, if_neg hcurrent, bind_of (modify_apply ..),
    Routine.ite_apply]
  split <;> rfl

/-! ## What `create` does -/

/-- The machine behind `initialize_from_current_host`. -/
def Machine.scheduled (s : Machine Memory) : Machine Memory :=
  s.withFibers { s.fibers with
    schedulerHost := if s.fibers.schedulerHost = 0 then s.hosts.current
      else s.fibers.schedulerHost }

theorem ensureSchedulerHost_apply (s : Machine Memory) : ∃ b,
    ensureSchedulerHost s = .ret b s.scheduled ∧
      (b = true → s.scheduled.fibers.schedulerHost ≠ 0) := by
  unfold ensureSchedulerHost initializeFromCurrentHost Machine.scheduled
  rw [bind_of (getFibers_apply s), Routine.ite_apply]
  by_cases hhost : s.fibers.schedulerHost = 0
  · rw [if_neg (not_not.mpr hhost), bind_of (gets_apply ..), bind_of (getFibers_apply s),
      Routine.ite_apply, if_neg (not_not.mpr hhost), bind_of (modify_apply ..), if_pos hhost]
    exact ⟨decide (s.hosts.current ≠ 0), rfl, fun h => of_decide_eq_true h⟩
  · rw [if_pos hhost, if_neg hhost]
    exact ⟨true, rfl, fun _ => hhost⟩

/-- The host that `create` destroys, or 0. -/
def GuestFibers.replaced (f : GuestFibers) (t : Word) (i : Fin 64) : Handle :=
  if f.find t = some i ∧ (f.records i).schedulerHost = false then (f.records i).host else 0

/-- The outcomes of `create`: it refuses, it clears the slot when the host has no room, or it
makes a record on a new host stack. -/
inductive Machine.Creates (s : Machine Memory) (t entry arg top : Word) (seed : CpuPtr) :
    Bool → Machine Memory → Prop
  | refused : Creates s t entry arg top seed false s.scheduled
  | cleared (i : Fin 64) : t ≠ 0#32 → s.fibers.Slot t i →
    s.scheduled.fibers.schedulerHost ≠ 0 →
    Creates s t entry arg top seed false
      ((s.withFibers (s.scheduled.fibers.setRecord i .none)).withHosts
        (s.hosts.destroy (s.fibers.replaced t i)).spend)
  | made (i : Fin 64) (hid2 : Word) : t ≠ 0#32 → s.fibers.Slot t i →
    s.scheduled.fibers.schedulerHost ≠ 0 → s.hosts.grants s.hosts.next = true →
    Creates s t entry arg top seed true
      ((s.withFibers (s.scheduled.fibers.setRecord i
        ⟨t, s.hosts.next, entry, arg, seededCpu entry arg top hid2, .waiting, false⟩)).withHosts
          ((s.hosts.destroy (s.fibers.replaced t i)).create t))

theorem Machine.Creates.mem {s s' : Machine Memory} {t entry arg top : Word} {seed : CpuPtr}
    {b : Bool} (h : s.Creates t entry arg top seed b s') : s'.mem = s.mem := by
  cases h <;> rfl

/-- `create` destroys the host of the record that it takes over. -/
theorem destroyReplaced_apply {f f' : GuestFibers} {t : Word} {i : Fin 64}
    (h : f.allocate t = some (i, f')) (s : Machine Memory) :
    onlyIf ((f'.records i).host ≠ 0 ∧ (f'.records i).schedulerHost = false)
      (hostDestroy (f'.records i).host) s =
      .ret () (s.withHosts (s.hosts.destroy (f.replaced t i))) := by
  obtain ⟨hslot, _, hfresh, hsame⟩ := GuestFibers.allocate_slot h
  have hkeep : s.withHosts (s.hosts.destroy 0) = s := by
    rw [HostContexts.destroy, if_pos (Or.inl rfl)]
    rfl
  rw [onlyIf_apply, hostDestroy_apply]
  unfold GuestFibers.replaced
  rcases hslot with hfind | ⟨hfind, _⟩
  · rw [hsame hfind]
    cases hflag : (f.records i).schedulerHost with
    | false =>
      by_cases hhost : (f.records i).host = 0
      · simp [hfind, hhost, hkeep]
      · simp [hfind, hhost]
    | true => simp [hkeep]
  · rw [hfresh hfind]
    simp [hfind, GuestFiberRecord.none, hkeep]

theorem createFiber_cases {s s' : Machine Memory} {t entry arg top : Word} {seed : CpuPtr}
    {b : Bool} (hnext : s.hosts.next ≠ 0) (h : createFiber t entry arg top seed s = .ret b s') :
    s.Creates t entry arg top seed b s' := by
  obtain ⟨b₀, hensure, hready⟩ := ensureSchedulerHost_apply s
  unfold createFiber at h
  rw [bind_of hensure, Routine.ite_apply] at h
  by_cases hb : b₀ = true
  · rw [if_pos hb, bind_of (gets_apply ..), Routine.ite_apply] at h
    by_cases havailable : s.scheduled.fibersAvailable = true
    · have hcurrent : s.hosts.current ≠ 0 := by
        simp only [Machine.fibersAvailable, decide_eq_true_eq] at havailable
        exact havailable.2
      rw [if_pos havailable, Routine.ite_apply] at h
      by_cases hnull : t = 0#32 ∨ entry = 0#32
      · rw [if_pos hnull] at h
        cases h
        exact .refused
      rw [if_neg hnull, bind_of (getFibers_apply _)] at h
      have ht : t ≠ 0#32 := fun h => hnull (Or.inl h)
      cases halloc : s.scheduled.fibers.allocate t with
      | none =>
        simp only [halloc] at h
        cases h
        exact .refused
      | some slot =>
        obtain ⟨i, f'⟩ := slot
        simp only [halloc] at h
        obtain ⟨hslot, hset, _, _⟩ := GuestFibers.allocate_slot halloc
        have hfibers : setFibers f' s.scheduled = .ret () (s.withFibers f') := rfl
        have hhosts : (s.withFibers f').hosts = s.hosts := rfl
        have hreplaced : s.scheduled.fibers.replaced t i = s.fibers.replaced t i := rfl
        rw [bind_of hfibers, bind_of (destroyReplaced_apply halloc _), hhosts,
          hreplaced] at h
        have hcreated := hostCreate_apply t
          (s := (s.withFibers f').withHosts (s.hosts.destroy (s.fibers.replaced t i)))
          (by simpa using hcurrent)
        simp only [Machine.withHosts_hosts, HostContexts.destroy_next,
          HostContexts.destroy_grants] at hcreated
        by_cases hgrants : s.hosts.grants s.hosts.next = true
        · rw [if_pos hgrants] at hcreated
          rw [bind_of hcreated, Routine.ite_apply, if_neg hnext, seedHid2,
            bind_of (gets_apply ..), setFiberRecord, bind_of (modify_apply ..)] at h
          cases h
          change s.Creates t entry arg top seed true ((s.withFibers (f'.setRecord i _)).withHosts
            ((s.hosts.destroy (s.fibers.replaced t i)).create t))
          rw [hset]
          exact .made i _ ht hslot (hready hb) hgrants
        · rw [if_neg hgrants] at hcreated
          rw [bind_of hcreated, Routine.ite_apply, if_pos rfl, setFiberRecord,
            bind_of (modify_apply ..)] at h
          cases h
          change s.Creates t entry arg top seed false ((s.withFibers (f'.setRecord i _)).withHosts
            (s.hosts.destroy (s.fibers.replaced t i)).spend)
          rw [hset]
          exact .cleared i ht hslot (hready hb)
    · rw [if_neg havailable] at h
      cases h
      exact .refused
  · rw [if_neg hb] at h
    cases h
    exact .refused

/-! ## What `register_current` does -/

/-- The record that `register_current` leaves for the thread in the slot. -/
structure GuestFiberRecord.RunsOn (r : GuestFiberRecord) (t : Word) (host : Handle)
    (registers : CpuContext) : Prop where
  thread : r.guestThread = t
  host_eq : r.host = host
  savedCpu : r.savedCpu = registers
  state : r.state = .running
  flag : r.schedulerHost = true

/-- The outcomes of `register_current`: it refuses, or it makes the record of the thread that
runs on the first host stack. -/
inductive Machine.Registers (s : Machine Memory) (t : Word) (c : CpuPtr) :
    Bool → Machine Memory → Prop
  | refused : Registers s t c false s
  | made (i : Fin 64) (r : GuestFiberRecord) : t ≠ 0#32 → s.fibers.Slot t i →
    s.fibers.schedulerHost ≠ 0 → s.hosts.current = s.fibers.schedulerHost →
    (s.fibers.find t = some i →
      (s.fibers.records i).host = 0 ∨ (s.fibers.records i).host = s.fibers.schedulerHost) →
    r.RunsOn t s.fibers.schedulerHost (if c ≠ 0 then s.cpus c else .zero) →
    Registers s t c true (s.withFibers
      { s.fibers.setRecord i r with currentGuestThread := t, activeCpu := c })

theorem registerCurrent_cases {s s' : Machine Memory} {t : Word} {c : CpuPtr} {b : Bool}
    (h : registerCurrent t c s = .ret b s') : s.Registers t c b s' := by
  unfold registerCurrent at h
  rw [bind_of (gets_apply ..), Routine.ite_apply] at h
  by_cases havailable : s.fibersAvailable = true
  · have hhost : s.fibers.schedulerHost ≠ 0 := by
      simp only [Machine.fibersAvailable, decide_eq_true_eq] at havailable
      exact havailable.1
    rw [if_pos havailable, bind_of (gets_apply ..), bind_of (getFibers_apply s),
      Routine.ite_apply] at h
    by_cases hnot : t = 0#32 ∨ s.hosts.current ≠ s.fibers.schedulerHost
    · rw [if_pos hnot] at h
      cases h
      exact .refused
    rw [if_neg hnot, bind_of (getFibers_apply s)] at h
    rw [not_or, not_not] at hnot
    cases halloc : s.fibers.allocate t with
    | none =>
      simp only [halloc] at h
      cases h
      exact .refused
    | some slot =>
      obtain ⟨i, f'⟩ := slot
      simp only [halloc] at h
      obtain ⟨hslot, hset, hfresh, hsame⟩ := GuestFibers.allocate_slot halloc
      have hfibers : setFibers f' s = .ret () (s.withFibers f') := rfl
      rw [bind_of hfibers, Routine.ite_apply] at h
      by_cases hother : (f'.records i).host ≠ 0 ∧ (f'.records i).host ≠ s.fibers.schedulerHost
      · rw [if_pos hother] at h
        rcases hslot with hfind | ⟨hfind, _⟩
        · rw [hsame hfind] at h
          cases h
          exact .refused
        · rw [hfresh hfind] at hother
          exact absurd rfl hother.1
      · rw [if_neg hother, bind_of (gets_apply ..), setFibers, bind_of (modify_apply ..)] at h
        cases h
        rw [not_and_or, not_not, not_not] at hother
        change s.Registers t c true (s.withFibers
          { f'.setRecord i _ with currentGuestThread := t, activeCpu := c })
        rw [hset]
        apply Machine.Registers.made i _ hnot.1 hslot hhost hnot.2
        · intro hfind
          rw [hsame hfind] at hother
          exact hother
        · exact ⟨rfl, rfl, rfl, rfl, rfl⟩
  · rw [if_neg havailable] at h
    cases h
    exact .refused

/-! ## What `suspend` and `resume` do -/

/-- A change of the state of one record, and of nothing else in the table. -/
theorem setState_cases (f : GuestFibers) (t : Word) (state : FiberState) :
    f.setState t state = f ∨ ∃ i, f.find t = some i ∧
      f.setState t state = f.setRecord i { f.records i with state := state } := by
  unfold GuestFibers.setState
  cases h : f.find t with
  | none => exact Or.inl rfl
  | some i => exact Or.inr ⟨i, rfl, rfl⟩

/-- The records stay in use, and only the state of one changes. -/
theorem setState_same (f : GuestFibers) (t : Word) {state : FiberState}
    (hstate : state ≠ .empty) :
    (f.setState t state).schedulerHost = f.schedulerHost ∧
    (f.setState t state).currentGuestThread = f.currentGuestThread ∧
    ∀ j, ((f.setState t state).Used j ↔ f.Used j) ∧
      ∃ state', (f.setState t state).records j = { f.records j with state := state' } := by
  rcases setState_cases f t state with hsame | ⟨i, hfind, hset⟩
  · rw [hsame]
    exact ⟨rfl, rfl, fun j => ⟨Iff.rfl, (f.records j).state, rfl⟩⟩
  · rw [hset]
    refine ⟨rfl, rfl, fun j => ?_⟩
    by_cases hji : j = i
    · rw [hji, GuestFibers.used_setRecord_self, GuestFibers.setRecord_self]
      exact ⟨iff_of_true hstate (GuestFibers.find_spec hfind).2.1, state, rfl⟩
    · rw [GuestFibers.used_setRecord_other hji, GuestFibers.setRecord_other _ _ hji]
      exact ⟨Iff.rfl, (f.records j).state, rfl⟩

end wii_switch
