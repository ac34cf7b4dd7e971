-- Views of guest memory, and routines seen through them. `Runs` says that a routine
-- ends and gives the new view; `Goes` says what holds on every way that a routine
-- takes under a contract. Both come with a rule for each operation.
import WiiSwitch.Layout

namespace wii_switch

/-! ## Views -/

/-- The words of the cells, and the states of the threads. -/
@[ext] structure View where
  word : Cell → Word
  state : Word → Half

namespace View

def put (v : View) (c : Cell) (x : Word) : View := { v with word := Function.update v.word c x }

def putState (v : View) (t : Word) (x : Half) : View :=
  { v with state := Function.update v.state t x }

@[simp] theorem put_word (v : View) (c d : Cell) (x : Word) :
    (v.put c x).word d = if d = c then x else v.word d := by
  simp [put, Function.update_apply]

@[simp] theorem put_state (v : View) (c : Cell) (x : Word) : (v.put c x).state = v.state := rfl

@[simp] theorem putState_word (v : View) (t : Word) (x : Half) :
    (v.putState t x).word = v.word := rfl

@[simp] theorem putState_state (v : View) (t u : Word) (x : Half) :
    (v.putState t x).state u = if u = t then x else v.state u := by
  simp [putState, Function.update_apply]

end View

/-- The memory has the layout, and its cells and states read as the view says. -/
structure Represents (L : Layout) (m : Memory) (v : View) : Prop where
  sound : L.Sound
  serves : Serves L.config m
  words : ∀ c, L.HasCell c → m.read32 c.address = some (v.word c)
  states : ∀ t ∈ L.threads, m.read16 (t + kThreadStateOffset) = some (v.state t)

/-- What a memory shows of all cells. -/
def viewOf (m : Memory) : View :=
  ⟨fun c => (m.read32 c.address).getD 0#32, fun t =>
    (m.read16 (t + kThreadStateOffset)).getD 0#16⟩

theorem viewOf_word {m : Memory} {c : Cell} {x : Word} (h : m.read32 c.address = some x) :
    (viewOf m).word c = x := by simp [viewOf, h]

theorem represents_viewOf {L : Layout} {m : Memory} (hL : L.Sound) (hm : Serves L.config m) :
    Represents L m (viewOf m) := by
  refine ⟨hL, hm, fun c hc => ?_, fun t ht => ?_⟩
  · obtain ⟨x, hx⟩ := hm.read32_some (hL.cell_mapped hc)
    simp [viewOf, hx]
  · obtain ⟨x, hx⟩ := hm.read16_some (hL.state_mapped ht)
    simp [viewOf, hx]

namespace Represents

variable {L : Layout} {m m' : Memory} {v : View}

theorem viewOf_word (h : Represents L m v) {c : Cell} (hc : L.HasCell c) :
    (viewOf m).word c = v.word c := by simp [viewOf, h.words c hc]

theorem viewOf_state (h : Represents L m v) {t : Word} (ht : t ∈ L.threads) :
    (viewOf m).state t = v.state t := by simp [viewOf, h.states t ht]

theorem initialized (h : Represents L m v) : m.initialized = true := h.serves.initialized

theorem mapped_cell (h : Represents L m v) {c : Cell} (hc : L.HasCell c) :
    m.contains c.address 4#64 = true := by
  rw [h.serves.contains32, h.words c hc]
  rfl

theorem mapped_state (h : Represents L m v) {t : Word} (ht : t ∈ L.threads) :
    m.contains (t + kThreadStateOffset) 2#64 = true := by
  rw [h.serves.contains16, h.states t ht]
  rfl

/-- A write to a cell. -/
theorem write (h : Represents L m v) {c : Cell} (hc : L.HasCell c) (x : Word) :
    ∃ m', m.write32 c.address x = some m' ∧ Represents L m' (v.put c x) := by
  obtain ⟨m', hw⟩ := h.serves.write32_some (h.sound.cell_mapped hc) x
  refine ⟨m', hw, h.sound, h.serves.write32 hw, fun d hd => ?_, fun t ht => ?_⟩
  · rw [View.put_word]
    split
    · subst d
      exact h.serves.read_written (k := .w32) hw
    · rename_i hne
      rw [h.serves.frame32 (k := .w32) hw (h.sound.cells_apart hc hd (Ne.symm hne))]
      exact h.words d hd
  · rw [h.serves.frame16 (k := .w32) hw (h.sound.state_cell_apart ht hc).symm]
    exact h.states t ht

/-- A write to the state of a thread. -/
theorem writeState (h : Represents L m v) {t : Word} (ht : t ∈ L.threads) (x : Half) :
    ∃ m', m.write16 (t + kThreadStateOffset) x = some m' ∧
    Represents L m' (v.putState t x) := by
  obtain ⟨m', hw⟩ := h.serves.write16_some (h.sound.state_mapped ht) x
  refine ⟨m', hw, h.sound, h.serves.write16 hw, fun d hd => ?_, fun u hu => ?_⟩
  · rw [h.serves.frame32 (k := .w16) hw (h.sound.state_cell_apart ht hd)]
    exact h.words d hd
  · rw [View.putState_state]
    split
    · subst u
      exact h.serves.read_written (k := .w16) hw
    · rename_i hne
      rw [h.serves.frame16 (k := .w16) hw (h.sound.states_apart ht hu (Ne.symm hne))]
      exact h.states u hu

/-- A write outside the cells and the states leaves the view. -/
theorem write_clear (h : Represents L m v) {k : Width} {a : Word} {x : BitVec k.bits}
    (hclear : L.Clear a.toNat k.bytes) (hw : m.write k a x = some m') : Represents L m' v := by
  refine ⟨h.sound, h.serves.write hw, fun d hd => ?_, fun u hu => ?_⟩
  · rw [h.serves.frame32 hw (hclear.cells d hd)]
    exact h.words d hd
  · rw [h.serves.frame16 hw (hclear.states u hu)]
    exact h.states u hu

theorem write32_clear (h : Represents L m v) {a : Word} (hclear : L.Clear a.toNat 4) (x : Word) :
    ∃ m', m.write32 a x = some m' ∧ Represents L m' v := by
  obtain ⟨m', hw⟩ := h.serves.write32_some hclear.mapped x
  exact ⟨m', hw, h.write_clear (k := .w32) hclear hw⟩

theorem write16_clear (h : Represents L m v) {a : Word} (hclear : L.Clear a.toNat 2) (x : Half) :
    ∃ m', m.write16 a x = some m' ∧ Represents L m' v := by
  obtain ⟨m', hw⟩ := h.serves.write16_some hclear.mapped x
  exact ⟨m', hw, h.write_clear (k := .w16) hclear hw⟩

end Represents

/-! ## Routines that end -/

open OS Routine

/-- From every machine whose memory represents `v`, the routine ends with `a`. It
changes the memory alone, and the memory then represents `w`. -/
def Runs {α : Type} (L : Layout) (x : OS α) (v : View) (a : α) (w : View) : Prop :=
  ∀ s, Represents L s.mem v → ∃ m, x s = .ret a (s.withMem m) ∧ Represents L m w

/-! ### Routines that only look -/

/-- From every machine whose memory represents `v`, the routine ends with `a` and
changes nothing. -/
def Sees {α : Type} (L : Layout) (x : OS α) (v : View) (a : α) : Prop :=
  ∀ s, Represents L s.mem v → x s = .ret a s

section Sees

variable {L : Layout} {α β : Type} {v : View}

theorem Sees.runs {x : OS α} {a : α} (h : Sees L x v a) : Runs L x v a v := fun s hs =>
  ⟨s.mem, h s hs, hs⟩

theorem sees_pure (a : α) : Sees L (pure a) v a := fun _ _ => rfl

theorem sees_bind {x : OS α} {y : α → OS β} {a : α} {b : β} (hx : Sees L x v a)
    (hy : Sees L (y a) v b) : Sees L (x >>= y) v b := fun s h => (bind_of (hx s h)).trans (hy s h)

theorem sees_read {c : Cell} (hc : L.HasCell c) {a : Word} (ha : a = c.address) :
    Sees L (read32 a) v (v.word c) := fun _ h => read32_ret (ha ▸ h.words c hc)

theorem sees_global {a : Word} (ha : a ∈ kernelWords) :
    Sees L (read32 a) v (v.word (.global a)) :=
  sees_read (c := .global a) ha rfl

theorem sees_read_state {t : Word} (ht : t ∈ L.threads) :
    Sees L (read16 (t + kThreadStateOffset)) v (v.state t) := fun _ h =>
  read16_ret (h.states t ht)

theorem sees_mapped {c : Cell} (hc : L.HasCell c) {a : Word} (ha : a = c.address) :
    Sees L (mapped32 a) v true := fun s h => by
  rw [mapped32_ret h.initialized, ha, h.mapped_cell hc]

theorem sees_mapped_state {t : Word} (ht : t ∈ L.threads) :
    Sees L (mapped16 (t + kThreadStateOffset)) v true := fun s h => by
  rw [mapped16_ret h.initialized, h.mapped_state ht]

theorem sees_mapped16_clear {a : Word} (hclear : L.Clear a.toNat 2) :
    Sees L (mapped16 a) v true := fun s h => by
  rw [mapped16_ret h.initialized, h.serves.contains16, (h.serves.read16_isSome a).mpr hclear.mapped]

/-- Every word of the list is a cell. -/
theorem sees_allMapped {as : List Word} (h : ∀ a ∈ as, ∃ c, L.HasCell c ∧ a = c.address) :
    Sees L (allMapped32 as) v true := by
  induction as with
  | nil => exact sees_pure true
  | cons a as ih =>
    obtain ⟨c, hc, ha⟩ := h a List.mem_cons_self
    exact sees_bind (sees_mapped hc ha) (ih fun b hb => h b (List.mem_cons_of_mem a hb))

end Sees

section Runs

variable {L : Layout} {α β : Type} {v w u : View}

theorem runs_pure (a : α) : Runs L (pure a) v a v := fun s h => ⟨s.mem, rfl, h⟩

theorem Runs.to {x : OS α} {a : α} {w' : View} (h : Runs L x v a w) (hw : w = w') :
    Runs L x v a w' := hw ▸ h

theorem runs_bind {x : OS α} {y : α → OS β} {a : α} {b : β} (hx : Runs L x v a w)
    (hy : Runs L (y a) w b u) : Runs L (x >>= y) v b u := by
  intro s h
  obtain ⟨m, hxs, hm⟩ := hx s h
  obtain ⟨m', hys, hm'⟩ := hy (s.withMem m) hm
  exact ⟨m', (bind_of hxs).trans hys, hm'⟩

theorem runs_read {c : Cell} (hc : L.HasCell c) {a : Word} (ha : a = c.address) :
    Runs L (read32 a) v (v.word c) v := (sees_read hc ha).runs

theorem runs_write {c : Cell} (hc : L.HasCell c) {a : Word} (ha : a = c.address) (x : Word) :
    Runs L (write32 a x) v () (v.put c x) := fun s h => by
  obtain ⟨m, hw, hm⟩ := h.write hc x
  exact ⟨m, write32_ret (ha ▸ hw), hm⟩

theorem runs_read_state {t : Word} (ht : t ∈ L.threads) :
    Runs L (read16 (t + kThreadStateOffset)) v (v.state t) v := (sees_read_state ht).runs

theorem runs_write_state {t : Word} (ht : t ∈ L.threads) (x : Half) :
    Runs L (write16 (t + kThreadStateOffset) x) v () (v.putState t x) := fun s h => by
  obtain ⟨m, hw, hm⟩ := h.writeState ht x
  exact ⟨m, write16_ret hw, hm⟩

theorem runs_write_clear {a : Word} (hclear : L.Clear a.toNat 4) (x : Word) :
    Runs L (write32 a x) v () v := fun s h => by
  obtain ⟨m, hw, hm⟩ := h.write32_clear hclear x
  exact ⟨m, write32_ret hw, hm⟩

theorem runs_write16_clear {a : Word} (hclear : L.Clear a.toNat 2) (x : Half) :
    Runs L (write16 a x) v () v := fun s h => by
  obtain ⟨m, hw, hm⟩ := h.write16_clear hclear x
  exact ⟨m, write16_ret hw, hm⟩

theorem runs_mapped {c : Cell} (hc : L.HasCell c) {a : Word} (ha : a = c.address) :
    Runs L (mapped32 a) v true v := (sees_mapped hc ha).runs

theorem runs_contains_state {t : Word} (ht : t ∈ L.threads) :
    Runs L (contains (t + kThreadStateOffset) 2#64) v true v := fun s h =>
  ⟨s.mem, by rw [contains_apply, h.mapped_state ht]; rfl, h⟩

theorem runs_contains {c : Cell} (hc : L.HasCell c) {a : Word} (ha : a = c.address) :
    Runs L (contains a 4#64) v true v := fun s h =>
  ⟨s.mem, by rw [contains_apply, ha, h.mapped_cell hc]; rfl, h⟩

theorem runs_contains32_clear {a : Word} (hclear : L.Clear a.toNat 4) :
    Runs L (contains a 4#64) v true v := fun s h =>
  ⟨s.mem,
    by rw [contains_apply, h.serves.contains32, (h.serves.read32_isSome a).mpr hclear.mapped]
       rfl, h⟩

theorem runs_contains16_clear {a : Word} (hclear : L.Clear a.toNat 2) :
    Runs L (contains a 2#64) v true v := fun s h =>
  ⟨s.mem,
    by rw [contains_apply, h.serves.contains16, (h.serves.read16_isSome a).mpr hclear.mapped]
       rfl, h⟩

theorem runs_allMapped {as : List Word} (h : ∀ a ∈ as, ∃ c, L.HasCell c ∧ a = c.address) :
    Runs L (allMapped32 as) v true v := (sees_allMapped h).runs

theorem runs_onlyIf {c : Bool} {x : OS Unit} (hx : c = true → Runs L x v () w)
    (hv : c = false → w = v) : Runs L (onlyIf c x) v () w := by
  cases c with
  | true => exact hx rfl
  | false => rw [hv rfl]; exact runs_pure ()

end Runs

/-! ## Every way of a routine -/

/-- From every machine whose memory represents `v`, each way of the routine under the
contract ends with a memory that represents some view, as `Q` says. -/
def Goes {α : Type} (L : Layout) (C : Coop.Contract (Machine Memory) Stop Away) (x : OS α)
    (v : View) (Q : α → View → Prop) : Prop :=
  ∀ s, Represents L s.mem v → (x s).Meets C fun a t => ∃ w, Represents L t.mem w ∧ Q a w

section Goes

variable {L : Layout} {C : Coop.Contract (Machine Memory) Stop Away} {α β : Type} {v w : View}
  {Q : β → View → Prop}

theorem goes_pure {b : β} (h : Q b v) : Goes L C (pure b) v Q := fun _ hs => ⟨v, hs, h⟩

theorem goes_bind {x : OS α} {y : α → OS β} {R : α → View → Prop} (hx : Goes L C x v R)
    (hy : ∀ a w, R a w → Goes L C (y a) w Q) : Goes L C (x >>= y) v Q := by
  intro s hs
  refine Coop.meets_bind.mpr ((hx s hs).mono ?_)
  rintro a t ⟨w, hw, hR⟩
  exact hy a w hR t hw

theorem Goes.mono {x : OS β} {R : β → View → Prop} (hx : Goes L C x v R)
    (h : ∀ b w, R b w → Q b w) : Goes L C x v Q := by
  intro s hs
  refine (hx s hs).mono ?_
  rintro a t ⟨w, hw, hR⟩
  exact ⟨w, hw, h a w hR⟩

theorem Runs.goes {x : OS β} {b : β} (hx : Runs L x v b w) (h : Q b w) : Goes L C x v Q := by
  intro s hs
  obtain ⟨m, hxs, hm⟩ := hx s hs
  rw [hxs]
  exact ⟨w, hm, h⟩

theorem Runs.then {x : OS α} {y : α → OS β} {a : α} (hx : Runs L x v a w)
    (hy : Goes L C (y a) w Q) : Goes L C (x >>= y) v Q := by
  intro s hs
  obtain ⟨m, hxs, hm⟩ := hx s hs
  rw [bind_of hxs]
  exact hy _ hm

/-- The registers and the fibers are not in the view. -/
theorem goes_gets (f : Machine Memory → α) : Goes L C (Routine.gets f) v fun _ w => w = v :=
  fun _ hs => ⟨v, hs, rfl⟩

theorem goes_modify {f : Machine Memory → Machine Memory} (hf : ∀ s, (f s).mem = s.mem) :
    Goes L C (Routine.modify f) v fun _ w => w = v :=
  fun s hs => ⟨v, (hf s).symm ▸ hs, rfl⟩

theorem goes_stop {e : Stop} (h : ∀ s, Represents L s.mem v → C.stops e s) :
    Goes L C (Routine.stop e : OS β) v Q := fun s hs => h s hs

/-- A read at an unknown address. -/
theorem goes_read_any (hstop : ∀ e s, Represents L s.mem v → C.stops e s) (a : Word) :
    Goes L C (read32 a) v fun _ w => w = v := by
  intro s hs
  unfold read32
  split
  · exact hstop _ s hs
  · exact ⟨v, hs, rfl⟩

/-- A read outside the cells, where memory is mapped. -/
theorem goes_read32_clear {a : Word} (h : L.Clear a.toNat 4) :
    Goes L C (read32 a) v fun _ w => w = v := by
  intro s hs
  obtain ⟨x, hx⟩ := hs.serves.read32_some h.mapped
  rw [read32_ret hx]
  exact ⟨v, hs, rfl⟩

theorem goes_read16_clear {a : Word} (h : L.Clear a.toNat 2) :
    Goes L C (read16 a) v fun _ w => w = v := by
  intro s hs
  obtain ⟨x, hx⟩ := hs.serves.read16_some h.mapped
  rw [read16_ret hx]
  exact ⟨v, hs, rfl⟩

end Goes

/-! ## The interrupt state -/

namespace View

/-- `OSCurrentContext`. -/
def currentContext (v : View) : Word := v.word (.global kOSCurrentContextAddr)

/-- `OSRunningContext`. -/
def runningContext (v : View) : Word := v.word (.global kOSRunningContextAddr)

/-- The function that is called before a switch of threads. -/
def callback (v : View) : Word := v.word (.global kSwitchThreadCallbackPtrAddr)

end View

/-- The mode halfword of a context is no part of the view, or no context has one. -/
def Layout.ContextClear (L : Layout) (context : Word) : Prop :=
  context = 0#32 ∨ ¬ InOneRegion L.config (context + kContextModeFlagsOffset).toNat 2 ∨
    L.Clear (context + kContextModeFlagsOffset).toNat 2

section Interrupts

variable {L : Layout} {C : Coop.Contract (Machine Memory) Stop Away} {v : View}

theorem Layout.Sound.contextClear (hL : L.Sound) {t : Word} (ht : t ∈ L.threads) :
    L.ContextClear t := Or.inr (Or.inr (hL.clear_modeFlags ht))

theorem currentContext_mem : kOSCurrentContextAddr ∈ kernelWords := by simp [kernelWords]

theorem runningContext_mem : kOSRunningContextAddr ∈ kernelWords := by simp [kernelWords]

/-- The mirror of the interrupt flag is outside the view. -/
theorem runs_updateFlag (hc : L.ContextClear v.currentContext) (enabled : Bool) :
    Runs L (updateCurrentContextInterruptFlag enabled) v () v := by
  have hcell : L.HasCell (.global kOSCurrentContextAddr) := currentContext_mem
  unfold updateCurrentContextInterruptFlag
  refine runs_bind (runs_mapped hcell rfl) ?_
  rw [if_pos rfl]
  refine runs_bind (runs_read hcell rfl) ?_
  change Runs L (if v.currentContext = 0#32 then _ else _) v () v
  by_cases h0 : v.currentContext = 0#32
  · rw [if_pos h0]
    exact runs_pure ()
  rw [if_neg h0]
  intro s hs
  rcases hc.resolve_left h0 with hunmapped | hclear
  · have hfalse : s.mem.contains (v.currentContext + kContextModeFlagsOffset) 2#64 = false := by
      rw [hs.serves.contains16, Option.isSome_eq_false_iff, Option.isNone_iff_eq_none,
        ← Option.not_isSome_iff_eq_none, hs.serves.read16_isSome]
      exact hunmapped
    refine ⟨s.mem, (bind_of (contains_apply ..)).trans ?_, hs⟩
    exact (congrFun (if_neg (ne_true_of_eq_false hfalse)) s).trans rfl
  · obtain ⟨x, hx⟩ := hs.serves.read16_some hclear.mapped
    have htrue : s.mem.contains (v.currentContext + kContextModeFlagsOffset) 2#64 = true := by
      rw [hs.serves.contains16, hx]
      rfl
    obtain ⟨m, hm, hrep⟩ := runs_onlyIf (c := withInterruptBit enabled x ≠ x)
      (fun _ => runs_write16_clear (v := v) hclear (withInterruptBit enabled x)) (fun _ => rfl) s hs
    refine ⟨m, (bind_of (contains_apply ..)).trans ?_, hrep⟩
    refine (congrFun (if_pos htrue) s).trans ((bind_of (read16_ret hx)).trans hm)

theorem goes_setGpr (cpu : CpuPtr) (i : Fin 32) (x : Word) :
    Goes L C (setGpr cpu i x) v fun _ w => w = v := goes_modify fun _ => rfl

theorem goes_exchangeInterrupts (hc : L.ContextClear v.currentContext) (cpu : CpuPtr)
    (enabled : Bool) : Goes L C (exchangeInterrupts cpu enabled) v fun _ w => w = v := by
  refine goes_bind (goes_gets _) ?_
  rintro previous _ rfl
  refine goes_bind (goes_modify fun _ => rfl) ?_
  rintro _ _ rfl
  refine (runs_updateFlag hc enabled).then ?_
  unfold onlyIf
  split
  · exact goes_setGpr cpu 3 _
  · exact goes_pure rfl

theorem goes_osRestoreInterrupts (hc : L.ContextClear v.currentContext) (cpu : CpuPtr) :
    Goes L C (osRestoreInterrupts cpu) v fun _ w => w = v := by
  refine goes_bind (goes_gets _) ?_
  rintro r3 _ rfl
  exact goes_exchangeInterrupts hc cpu _

theorem goes_restoreInterrupts (hc : L.ContextClear v.currentContext) (cpu : CpuPtr)
    (state : Word) : Goes L C (restoreInterrupts cpu state) v fun _ w => w = v := by
  unfold restoreInterrupts
  split
  · exact goes_pure rfl
  · refine goes_bind (goes_setGpr cpu 3 state) ?_
    rintro _ _ rfl
    exact goes_osRestoreInterrupts hc cpu

theorem goes_queryInterruptsEnabled (hc : L.ContextClear v.currentContext) (cpu : CpuPtr) :
    Goes L C (queryInterruptsEnabled cpu) v fun _ w => w = v := by
  unfold queryInterruptsEnabled
  split
  · exact goes_pure rfl
  refine goes_bind (goes_gets _) ?_
  rintro savedR3 _ rfl
  refine goes_bind (goes_exchangeInterrupts hc cpu false) ?_
  rintro _ _ rfl
  refine goes_bind (goes_gets _) ?_
  rintro r3 _ rfl
  refine goes_bind (goes_setGpr cpu 3 _) ?_
  rintro _ _ rfl
  refine goes_bind (goes_osRestoreInterrupts hc cpu) ?_
  rintro _ _ rfl
  refine goes_bind (goes_setGpr cpu 3 _) ?_
  rintro _ _ rfl
  exact goes_pure rfl

/-- The flags of a context of a thread are outside the view. -/
theorem goes_mirrorContext (hL : L.Sound) {t : Word} (ht : t ∈ L.threads)
    (hcur : v.currentContext = t) (cpu : CpuPtr) :
    Goes L C (mirrorContext cpu t) v fun _ w => w = v := by
  have hexc : L.HasCell (.global kOSExceptionContextAddr) := by
    show kOSExceptionContextAddr ∈ kernelWords
    simp [kernelWords]
  have hstate : L.Clear (t + kContextStateFlagsOffset).toNat 4 :=
    hL.clear_offset ht (by decide) (by decide) (by unfold OffThreadFields; decide)
  have hmode := hL.clear_modeFlags ht
  unfold mirrorContext
  refine (runs_contains hexc rfl).then ?_
  rw [if_pos rfl]
  refine (runs_contains32_clear hstate).then ?_
  rw [if_pos rfl]
  refine (runs_contains16_clear hmode).then ?_
  rw [if_pos rfl]
  refine (runs_read hexc rfl).then ?_
  refine goes_bind (goes_read32_clear hstate) ?_
  rintro flags _ rfl
  refine (runs_write_clear hstate _).then ?_
  refine goes_bind (goes_read16_clear hmode) ?_
  rintro mode _ rfl
  refine goes_bind (goes_queryInterruptsEnabled (hcur ▸ hL.contextClear ht) cpu) ?_
  rintro enabled _ rfl
  exact (runs_write16_clear hmode _).goes rfl

end Interrupts

end wii_switch
