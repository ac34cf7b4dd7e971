-- The mirror of the interrupt flag in the current guest context, over every run
-- of the calls that touch the flag, the context or the pointer to it.
import WiiSwitch.Interrupts
import WiiSwitch.MemoryFrames

namespace wii_switch

open Bytes

/-! ## The calls and their runs -/

/-- The six calls that write the flag, the mode flags or the context pointer. -/
inductive ContextCall where
  | disableInterrupts
  | enableInterrupts
  | restoreInterrupts
  | interruptInit
  | setCurrentContext
  | clearContext
deriving DecidableEq

def ContextCall.code : ContextCall → CpuPtr → OS Unit
  | .disableInterrupts => OS.osDisableInterrupts
  | .enableInterrupts => OS.osEnableInterrupts
  | .restoreInterrupts => OS.osRestoreInterrupts
  | .interruptInit => OS.osInterruptInit
  | .setCurrentContext => OS.osSetCurrentContext
  | .clearContext => OS.osClearContext

/-- The whole OSContext at the address is mapped. -/
def MappedContext (config : List RegionConfig) (context : Word) : Prop :=
  InOneRegion config context.toNat 0x2C8

/-- One call of a run: the guest code sets the registers, and calls. -/
structure ContextEvent where
  cpus : CpuPtr → CpuContext
  call : ContextCall
  cpu : CpuPtr

namespace ContextEvent

/-- The argument of the call. -/
def r3 (e : ContextEvent) : Word := (e.cpus e.cpu).gpr 3

/-- The context that the call is given, when it is given one, is mapped. -/
def OnMapped (config : List RegionConfig) (e : ContextEvent) : Prop :=
  e.call = .setCurrentContext ∨ e.call = .clearContext → e.r3 = 0#32 ∨
    MappedContext config e.r3

def run (e : ContextEvent) (s : Machine Memory) : Coop (Machine Memory) Stop Away Unit :=
  e.call.code e.cpu { s with cpus := e.cpus }

end ContextEvent

/-- The states that calls on mapped contexts lead to, each call within `P`. -/
inductive Calls (config : List RegionConfig) (P : Machine Memory → ContextEvent → Prop)
    (s₀ : Machine Memory) : Machine Memory → Prop
  | start : Calls config P s₀ s₀
  | call {s s' : Machine Memory} {e : ContextEvent} : Calls config P s₀ s →
    e.OnMapped config →
      P s e → e.run s = .ret () s' → Calls config P s₀ s'

/-- If there is a current context, bit 1 of its mode flags is the interrupt flag. -/
def Mirror (s : Machine Memory) : Prop :=
  ∀ c, s.mem.read32 kOSCurrentContextAddr = some c → c ≠ 0#32 →
    ∃ h, s.mem.read16 (c + kContextModeFlagsOffset) = some h ∧
      (h.getLsbD 1 = true ↔ s.interruptsEnabled = true)

/-! ## The addresses of a context -/

theorem MappedContext.toNat_add {config : List RegionConfig} (hc : Admissible config) {c : Word}
    (h : MappedContext config c) {off : Word} (hoff : off.toNat < 0x2C8) :
    (c + off).toNat = c.toNat + off.toNat := by
  obtain ⟨r, hr, h1, h2⟩ := h
  have := hc.end_le hr
  rw [BitVec.toNat_add]
  omega

theorem MappedContext.inside {config : List RegionConfig} (hc : Admissible config) {c : Word}
    (h : MappedContext config c) (off : Word) (n : Nat) (hn : 0 < n)
    (hoff : off.toNat + n ≤ 0x2C8) : InOneRegion config (c + off).toNat n := by
  rw [h.toNat_add hc (by omega)]
  obtain ⟨r, hr, h1, h2⟩ := h
  exact ⟨r, hr, by omega, by omega⟩

/-- The flags of a mapped context lie above the low-memory globals of every window. -/
theorem MappedContext.apart_low {config : List RegionConfig} (hc : Admissible config) {c : Word}
    (h : MappedContext config c) {off : Word} {n : Nat} (hlow : 0x19C ≤ off.toNat)
    (hoff : off.toNat + n ≤ 0x2C8) {g k : Nat} (hg : g % 0x20000000 + k ≤ 0x19C) :
    Apart config (c + off).toNat n g k := by
  intro i hi j hj hs
  have hmod := hs.mod_eq
  rw [h.toNat_add hc (by omega)] at hmod
  obtain ⟨r, hr, h1, h2⟩ := h
  have := hc.mod_add_le hr
  omega

theorem withInterruptBit_bit (e : Bool) (h : Half) :
    (OS.withInterruptBit e h).getLsbD 1 = e := by
  unfold OS.withInterruptBit kInterruptsEnabledBit
  cases e with
  | false => simp
  | true => simp

/-- Setting the bit to what it was undoes any setting of it. -/
theorem withInterruptBit_restore (e e' : Bool) (h : Half) (he : h.getLsbD 1 = e) :
    OS.withInterruptBit e (OS.withInterruptBit e' h) = h := by
  apply BitVec.eq_of_getLsbD_eq
  intro i hi
  by_cases h1 : i = 1
  · subst h1
    rw [withInterruptBit_bit, he]
  · have hbit : kInterruptsEnabledBit.getLsbD i = false := by
      have : ∀ j : Fin 16, j.val ≠ 1 → kInterruptsEnabledBit.getLsbD j = false := by decide
      exact this ⟨i, hi⟩ h1
    unfold OS.withInterruptBit
    cases e <;> cases e' <;>
      simp only [Bool.false_eq_true, if_true, if_false, BitVec.getLsbD_or, BitVec.getLsbD_and,
        BitVec.getLsbD_not, hbit, hi, decide_true, Bool.not_false, Bool.and_true, Bool.or_false]

/-! ## The mirror through one call -/

/-- The current context, when there is one, is mapped. -/
def CurrentMapped (config : List RegionConfig) (m : Memory) : Prop :=
  ∀ c, m.read32 kOSCurrentContextAddr = some c → c ≠ 0#32 → MappedContext config c

/-- The memory with the interrupt bit of the current context as given. -/
structure Flagged (config : List RegionConfig) (enabled : Bool) (m m' : Memory) : Prop where
  serves : Serves config m'
  pointer : m'.read32 kOSCurrentContextAddr = m.read32 kOSCurrentContextAddr
  bit : ∀ c, m.read32 kOSCurrentContextAddr = some c → c ≠ 0#32 →
    ∃ h, m.read16 (c + kContextModeFlagsOffset) = some h ∧ ∀ block f,
    Holds config block m f →
      Holds config block m' fun b =>
        (Store.mk .w16 (c + kContextModeFlagsOffset) (OS.withInterruptBit enabled h)).apply config b
          (f b)
  none : (∀ c, m.read32 kOSCurrentContextAddr = some c → c = 0#32) → m' = m

theorem updateCurrentContextInterruptFlag_spec {config : List RegionConfig} {s : Machine Memory}
    (hs : Serves config s.mem) (hc : CurrentMapped config s.mem) (enabled : Bool) :
    ∃ m', OS.updateCurrentContextInterruptFlag enabled s = .ret () (s.withMem m') ∧
      Flagged config enabled s.mem m' := by
  unfold OS.updateCurrentContextInterruptFlag
  simp only [Routine.bind_apply, OS.mapped32_ret hs.initialized, Coop.bind_ret, hs.contains32]
  rcases hcur : s.mem.read32 kOSCurrentContextAddr with _ | c
  · refine ⟨s.mem, by simp, hs, rfl, ?_, fun _ => rfl⟩
    intro c h
    rw [hcur] at h
    cases h
  simp only [Option.isSome_some, if_true, Routine.bind_apply, OS.read32_ret hcur, Coop.bind_ret]
  by_cases hz : c = 0#32
  · subst hz
    refine ⟨s.mem, by simp, hs, rfl, ?_, fun _ => rfl⟩
    intro c h hne
    rw [hcur, Option.some.injEq] at h
    exact absurd h.symm hne
  have hctx := hc c hcur hz
  have hmode : InOneRegion config (c + kContextModeFlagsOffset).toNat 2 :=
    hctx.inside hs.admissible _ _ (by omega) (by decide)
  obtain ⟨h, hh⟩ := hs.read16_some hmode
  have hsome : ∀ c', s.mem.read32 kOSCurrentContextAddr = some c' → c' = c := by
    intro c' h'
    rw [hcur, Option.some.injEq] at h'
    exact h'.symm
  simp only [if_neg hz, Routine.bind_apply, OS.contains_apply, Coop.bind_ret, hs.contains16, hh,
    Option.isSome_some, if_true, OS.read16_ret hh, Routine.ite_apply]
  by_cases hsame : OS.withInterruptBit enabled h = h
  · refine ⟨s.mem, by simp [hsame], hs, rfl, ?_, fun _ => rfl⟩
    intro c' h' _
    obtain rfl := hsome c' h'
    refine ⟨h, hh, fun block f hm => ?_⟩
    rw [hsame]
    exact holds_same_write hs.admissible hm (k := .w16) hh
  · obtain ⟨m', hw⟩ := hs.write16_some hmode (OS.withInterruptBit enabled h)
    refine ⟨m', ?_, hs.write16 hw, ?_, ?_, ?_⟩
    · rw [OS.onlyIf_apply, if_pos (decide_eq_true hsame), OS.write16_ret hw]
    · exact hs.frame32 (k := .w16) hw
        (hctx.apart_low hs.admissible (by decide) (by decide) (by decide))
    · intro c' h' _
      obtain rfl := hsome c' h'
      exact ⟨h, hh, fun block f hm => Serves.write_holds hs.admissible hm hw⟩
    · intro hzero
      exact absurd (hzero c hcur) hz

/-- What every state of a run satisfies. -/
structure Mirrored (config : List RegionConfig) (s : Machine Memory) : Prop where
  serves : Serves config s.mem
  current : CurrentMapped config s.mem
  mirror : Mirror s

theorem Flagged.current {config : List RegionConfig} {e : Bool} {m m' : Memory}
    (h : Flagged config e m m') (hc : CurrentMapped config m) : CurrentMapped config m' := by
  intro c hcur
  rw [h.pointer] at hcur
  exact hc c hcur

/-- The bit of the current context is as it was set. -/
theorem Flagged.read {config : List RegionConfig} {e : Bool} {m m' : Memory}
    (h : Flagged config e m m') (hs : Serves config m) (hc : CurrentMapped config m) {c : Word}
    (hcur : m.read32 kOSCurrentContextAddr = some c) (hz : c ≠ 0#32) :
    ∃ x, m.read16 (c + kContextModeFlagsOffset) = some x ∧
      m'.read16 (c + kContextModeFlagsOffset) = some (OS.withInterruptBit e x) := by
  obtain ⟨x, hx, hholds⟩ := h.bit c hcur hz
  obtain ⟨block, f, hm⟩ := hs.holds
  have hin := (hc c hcur hz).inside hs.admissible kContextModeFlagsOffset 2
    (by omega) (by decide)
  exact ⟨x, hx, read_own (k := .w16) hs.admissible hin (hholds block f hm)⟩

theorem Flagged.mirrored {config : List RegionConfig} {e : Bool} {m : Memory}
    {s : Machine Memory} (h : Flagged config e m s.mem) (hs : Serves config m)
    (hc : CurrentMapped config m) (he : s.interruptsEnabled = e) : Mirrored config s := by
  refine ⟨h.serves, h.current hc, fun c hcur hz => ?_⟩
  rw [h.pointer] at hcur
  obtain ⟨x, _, hread⟩ := h.read hs hc hcur hz
  exact ⟨_, hread, by rw [withInterruptBit_bit, he]⟩

/-- The machine after an exchange that left the memory `m`. -/
def exchanged (s : Machine Memory) (cpu : CpuPtr) (enabled : Bool) (m : Memory) :
    Machine Memory :=
  let t : Machine Memory := (s.setInterrupts enabled).withMem m
  if cpu ≠ 0 then t.setGpr cpu 3 (OS.stateWord s.interruptsEnabled) else t

@[simp] theorem exchanged_mem (s : Machine Memory) (cpu : CpuPtr) (e : Bool) (m : Memory) :
    (exchanged s cpu e m).mem = m := by
  unfold exchanged
  split <;> rfl

@[simp] theorem exchanged_interruptsEnabled (s : Machine Memory) (cpu : CpuPtr) (e : Bool)
    (m : Memory) : (exchanged s cpu e m).interruptsEnabled = e := by
  unfold exchanged
  split <;> rfl

theorem exchangeInterrupts_spec {config : List RegionConfig} {s : Machine Memory}
    (hs : Serves config s.mem) (hc : CurrentMapped config s.mem) (cpu : CpuPtr) (enabled : Bool) :
    ∃ m', OS.exchangeInterrupts cpu enabled s = .ret () (exchanged s cpu enabled m') ∧
      Flagged config enabled s.mem m' := by
  obtain ⟨m', hrun, hflag⟩ := updateCurrentContextInterruptFlag_spec
    (s := s.setInterrupts enabled) hs hc enabled
  refine ⟨m', ?_, hflag⟩
  unfold OS.exchangeInterrupts exchanged
  simp only [Routine.bind_apply, Routine.gets_apply, Routine.modify_apply, Coop.bind_ret, hrun,
    OS.onlyIf_apply, OS.setGpr_apply]
  by_cases h : cpu = 0
  · simp [h]
  · simp [h]

theorem stateWord_ne_zero (e : Bool) : (OS.stateWord e ≠ 0#32) = (e = true) := by
  cases e <;> simp [OS.stateWord]

/-- The bit set one way, then set back: every read is as before. -/
theorem Flagged.undo {config : List RegionConfig} {e e' : Bool} {m m₁ m₂ : Memory}
    (hs : Serves config m) (hc : CurrentMapped config m) (h₁ : Flagged config e' m m₁)
    (h₂ : Flagged config e m₁ m₂) (hbit : ∀ c x, m.read32 kOSCurrentContextAddr = some c →
      c ≠ 0#32 → m.read16 (c + kContextModeFlagsOffset) = some x → x.getLsbD 1 = e)
    (k : Width) (a : Word) : m₂.read k a = m.read k a := by
  by_cases hcur : ∃ c, m.read32 kOSCurrentContextAddr = some c ∧ c ≠ 0#32
  · obtain ⟨c, hcur, hz⟩ := hcur
    obtain ⟨x, hx, hread₁⟩ := h₁.read hs hc hcur hz
    obtain ⟨x', hx', hholds₁⟩ := h₁.bit c hcur hz
    obtain ⟨y, hy, hholds₂⟩ := h₂.bit c (h₁.pointer.trans hcur) hz
    obtain ⟨block, f, hm⟩ := hs.holds
    rw [hx, Option.some.injEq] at hx'
    rw [hread₁, Option.some.injEq] at hy
    subst hx' hy
    have hm₂ := hholds₂ block _ (hholds₁ block f hm)
    have hsame := holds_same_write hs.admissible hm (k := .w16) hx
    refine read_congr hs.admissible hm hm₂ fun i hi hmapped => ?_
    obtain ⟨r, hr, ha⟩ := hmapped
    refine (apply_apply (k := .w16) _ _ _ _).trans ?_
    rw [withInterruptBit_restore e e' x (hbit c x hcur hz hx), ← hsame.bytes r hr _ ha,
      hm.bytes r hr _ ha]
  · have hzero : ∀ c, m.read32 kOSCurrentContextAddr = some c → c = 0#32 := by
      intro c h
      by_contra hne
      exact hcur ⟨c, h, hne⟩
    have hm₁ := h₁.none hzero
    rw [h₂.none (by rw [hm₁]; exact hzero), hm₁]

/-- A query is a disabling and a restoring of the flag. -/
theorem queryInterruptsEnabled_runs {config : List RegionConfig} {s : Machine Memory}
    (hs : Serves config s.mem) (hc : CurrentMapped config s.mem) {cpu : CpuPtr} (hz : cpu ≠ 0) :
    ∃ m₁ s', OS.queryInterruptsEnabled cpu s = .ret s.interruptsEnabled s' ∧
      s'.interruptsEnabled = s.interruptsEnabled ∧ Flagged config false s.mem m₁ ∧
      Flagged config s.interruptsEnabled m₁ s'.mem := by
  obtain ⟨m₁, hrun₁, hf₁⟩ := exchangeInterrupts_spec hs hc cpu false
  let t := (exchanged s cpu false m₁).setGpr cpu 3 (OS.stateWord s.interruptsEnabled)
  obtain ⟨m₂, hrun₂, hf₂⟩ := exchangeInterrupts_spec (s := t)
    (by simpa [t] using hf₁.serves) (by simpa [t] using hf₁.current hc) cpu s.interruptsEnabled
  have hr3 : (exchanged s cpu false m₁).gpr cpu 3 = OS.stateWord s.interruptsEnabled := by
    simp [exchanged, hz]
  have ht3 : t.gpr cpu 3 = OS.stateWord s.interruptsEnabled := by simp [t]
  refine ⟨m₁, (exchanged t cpu s.interruptsEnabled m₂).setGpr cpu 3 (s.gpr cpu 3), ?_,
    by simp, hf₁, by simpa [t] using hf₂⟩
  unfold OS.queryInterruptsEnabled
  simp only [if_neg hz, Routine.bind_apply, Routine.pure_apply, Coop.bind_ret,
    OS.osDisableInterrupts, OS.osRestoreInterrupts, OS.getGpr_apply, OS.setGpr_apply, hrun₁, hr3,
    stateWord_ne_zero, Bool.decide_eq_true]
  change (OS.exchangeInterrupts cpu (decide (cpu ≠ 0 ∧ t.gpr cpu 3 ≠ 0#32)) t).bind _ = _
  simp only [ht3, stateWord_ne_zero, ne_eq, hz, not_false_eq_true, true_and, Bool.decide_eq_true,
    hrun₂, Coop.bind_ret]

/-- A query leaves the flag, and each read of the memory, as they were. -/
theorem queryInterruptsEnabled_spec {config : List RegionConfig} {s : Machine Memory}
    (h : Mirrored config s) (cpu : CpuPtr) :
    ∃ s', OS.queryInterruptsEnabled cpu s = .ret (cpu ≠ 0 && s.interruptsEnabled) s' ∧
      s'.interruptsEnabled = s.interruptsEnabled ∧ ∀ k a, s'.mem.read k a = s.mem.read k a := by
  by_cases hz : cpu = 0
  · refine ⟨s, ?_, rfl, fun _ _ => rfl⟩
    unfold OS.queryInterruptsEnabled
    simp [hz]
  obtain ⟨m₁, s', hrun, he, hf₁, hf₂⟩ := queryInterruptsEnabled_runs h.serves h.current hz
  refine ⟨s', by simpa [hz] using hrun, he, fun k a => ?_⟩
  refine hf₁.undo h.serves h.current hf₂ (fun c x hcur hne hx => ?_) k a
  obtain ⟨y, hy, hbit⟩ := h.mirror c hcur hne
  rw [hx, Option.some.injEq] at hy
  rw [hy, Bool.eq_iff_iff]
  exact hbit

/-! ## Writes of clear bytes -/

/-- The byte that has the interrupt bit of a context. -/
def modeByte (c : Word) : Word := c + 0x1A3#32

theorem MappedContext.modeByte_toNat {config : List RegionConfig} (hc : Admissible config)
    {c : Word} (h : MappedContext config c) :
    (modeByte c).toNat = (c + kContextModeFlagsOffset).toNat + 1 := by
  rw [modeByte, h.toNat_add hc (by decide), h.toNat_add hc (by decide)]
  rfl

/-- The interrupt bit, read as a byte. -/
theorem read_modeByte {config : List RegionConfig} {m : Memory} (hs : Serves config m) {c : Word}
    (hc : MappedContext config c) {h : Half}
    (hr : m.read16 (c + kContextModeFlagsOffset) = some h) :
    ∃ y, m.read8 (modeByte c) = some y ∧ y.getLsbD 1 = h.getLsbD 1 := by
  obtain ⟨block, f, hm⟩ := hs.holds
  have hin := hc.inside hs.admissible kContextModeFlagsOffset 2 (by omega)
    (by decide)
  have hin' := hc.inside hs.admissible 0x1A3#32 1 (by omega) (by decide)
  have hadd := hc.modeByte_toNat hs.admissible
  have h16 : m.read16 (c + kContextModeFlagsOffset) = _ :=
    readAs_holds hs.admissible hm rfl (by omega) (by omega) hin
  rw [hr, Option.some.injEq] at h16
  refine ⟨_, (Memory.read8_eq _ _).trans
    (readAs_holds hs.admissible hm rfl (by omega) (by omega) hin'), ?_⟩
  rw [h16, BitVec.getLsbD, BitVec.getLsbD]
  have hb : ∀ i, (f i).toNat < 256 := fun i => (f i).isLt
  have hb0 := hb ((c + kContextModeFlagsOffset).toNat + 0)
  have hb1 := hb ((c + kContextModeFlagsOffset).toNat + 1)
  simp only [modeByte] at hadd
  simp only [ofBE, beNat, BitVec.toNat_ofNat, hadd, Nat.testBit_eq_decide_div_mod_eq, Nat.add_zero,
    Nat.mul_zero, Nat.zero_add, decide_eq_decide] at hb0 ⊢
  omega

/-- A change of the memory that keeps the context pointer and clear interrupt
bits, and clears the bit of each byte in `R`. -/
structure Wipes (config : List RegionConfig) (R : Nat → Prop) (m m' : Memory) : Prop where
  serves : Serves config m'
  pointer : m'.read32 kOSCurrentContextAddr = m.read32 kOSCurrentContextAddr
  byte : ∀ x y, m.read8 x = some y → ∃ y', m'.read8 x = some y' ∧
    (y.getLsbD 1 = false ∨ R x.toNat → y'.getLsbD 1 = false)

theorem Wipes.refl {config : List RegionConfig} {m : Memory} (h : Serves config m) :
    Wipes config (fun _ => False) m m :=
  ⟨h, rfl, fun _ y hy => ⟨y, hy, fun h => h.resolve_right id⟩⟩

theorem Wipes.trans {config : List RegionConfig} {R R' : Nat → Prop} {m m' m'' : Memory}
    (h : Wipes config R m m') (h' : Wipes config R' m' m'') :
    Wipes config (fun x => R x ∨ R' x) m m'' := by
  refine ⟨h'.serves, h'.pointer.trans h.pointer, fun x y hy => ?_⟩
  obtain ⟨y', hy', himp⟩ := h.byte x y hy
  obtain ⟨y'', hy'', himp'⟩ := h'.byte x y' hy'
  refine ⟨y'', hy'', ?_⟩
  rintro (hclear | hR | hR')
  · exact himp' (Or.inl (himp (Or.inl hclear)))
  · exact himp' (Or.inl (himp (Or.inr hR)))
  · exact himp' (Or.inr hR')

theorem Wipes.mono {config : List RegionConfig} {R R' : Nat → Prop} {m m' : Memory}
    (h : Wipes config R m m') (hR : ∀ x, R' x → R x) : Wipes config R' m m' := by
  refine ⟨h.serves, h.pointer, fun x y hy => ?_⟩
  obtain ⟨y', hy', himp⟩ := h.byte x y hy
  exact ⟨y', hy', fun h' => himp (h'.imp_right (hR _))⟩

/-- A write of clear bytes away from the context pointer. -/
theorem Serves.wipes {config : List RegionConfig} {m m' : Memory} (hs : Serves config m)
    {k : Width} {a : Word} {v : BitVec k.bits} (hw : m.write k a v = some m')
    (hv : ∀ i < k.bytes, (byteLE v i).getLsbD 1 = false)
    (hap : Apart config a.toNat k.bytes kOSCurrentContextAddr.toNat 4) :
    Wipes config (fun x => ¬ Apart config a.toNat k.bytes x 1) m m' := by
  refine ⟨hs.write hw, hs.frame32 hw hap, fun x y hy => ?_⟩
  by_cases hx : Apart config a.toNat k.bytes x.toNat 1
  · exact ⟨y, (hs.frame8 hw hx).trans hy, fun h => h.resolve_right fun h => h hx⟩
  · obtain ⟨block, f, hm⟩ := hs.holds
    have hin : InOneRegion config x.toNat 1 := (hs.read_isSome .w8 x).mp (by
      rw [show m.read .w8 x = some y from hy]
      rfl)
    simp only [Apart, not_forall, not_not] at hx
    obtain ⟨i, hi, j, hj, hsame⟩ := hx
    obtain rfl : j = 0 := by omega
    obtain ⟨j, hj, happ⟩ := apply_alias ⟨k, a, v⟩ hi hsame (f x.toNat)
    refine ⟨_, (Memory.read8_eq _ _).trans (readAs_holds hs.admissible
      (Serves.write_holds hs.admissible hm hw) rfl (by omega) (by omega) hin), fun _ => ?_⟩
    have hclear := hv (k.bytes - 1 - j) (by omega)
    rw [Nat.add_zero] at happ
    simp only [ofBE, beNat, Nat.mul_zero, Nat.zero_add, Nat.add_zero, happ]
    rw [BitVec.ofNat_toNat, BitVec.setWidth_eq]
    exact hclear

/-- A wiped memory mirrors a disabled flag, if it did or the bit was wiped. -/
theorem Wipes.mirrored {config : List RegionConfig} {R : Nat → Prop} {m : Memory}
    {s : Machine Memory} (h : Wipes config R m s.mem) (hs : Serves config m)
    (hc : CurrentMapped config m) (he : s.interruptsEnabled = false)
    (hbit : ∀ c x, m.read32 kOSCurrentContextAddr = some c → c ≠ 0#32 →
      m.read16 (c + kContextModeFlagsOffset) = some x →
        x.getLsbD 1 = false ∨ R (modeByte c).toNat) : Mirrored config s := by
  have hc' : CurrentMapped config s.mem := by
    intro c hcur
    rw [h.pointer] at hcur
    exact hc c hcur
  refine ⟨h.serves, hc', fun c hcur hz => ?_⟩
  have hctx := hc' c hcur hz
  rw [h.pointer] at hcur
  have hin := hctx.inside hs.admissible kContextModeFlagsOffset 2 (by omega)
    (by decide)
  obtain ⟨x, hx⟩ := hs.read16_some hin
  obtain ⟨x', hx'⟩ := h.serves.read16_some hin
  obtain ⟨y, hy, hyx⟩ := read_modeByte hs hctx hx
  obtain ⟨y', hy', hyx'⟩ := read_modeByte h.serves hctx hx'
  obtain ⟨z, hz', himp⟩ := h.byte _ y hy
  rw [hy', Option.some.injEq] at hz'
  subst hz'
  refine ⟨x', hx', ?_⟩
  have hclear := himp (by rw [hyx]; exact hbit c x hcur hz hx)
  rw [← hyx', hclear, he]

/-! ## The calls that clear -/

/-- A write of clear bytes behind a check that the word is mapped. -/
theorem write32_if_mapped {config : List RegionConfig} {s : Machine Memory}
    (hs : Serves config s.mem) (a v : Word) (hv : ∀ i < 4, (byteLE v i).getLsbD 1 = false)
    (hap : Apart config a.toNat 4 kOSCurrentContextAddr.toNat 4) :
    ∃ m', OS.onlyIf (s.mem.contains a 4#64) (OS.write32 a v) s = .ret () (s.withMem m') ∧
      Wipes config (fun x => InOneRegion config a.toNat 4 ∧ ¬ Apart config a.toNat 4 x 1)
        s.mem m' := by
  rw [hs.contains32, OS.onlyIf_apply]
  by_cases h : InOneRegion config a.toNat 4
  · obtain ⟨m', hw⟩ := hs.write32_some h v
    rw [if_pos ((hs.read32_isSome a).mpr h), OS.write32_ret hw]
    exact ⟨m', rfl, (hs.wipes (k := .w32) hw hv hap).mono fun x hx => hx.2⟩
  · rw [if_neg fun h' => h ((hs.read32_isSome a).mp h')]
    exact ⟨s.mem, rfl, (Wipes.refl hs).mono fun x hx => h hx.1⟩

theorem tableAddr_toNat {i : Nat} (h : i < 32) :
    (kInterruptHandlerTableAddr + BitVec.ofNat 32 (4 * i)).toNat =
      kInterruptHandlerTableAddr.toNat + 4 * i := by
  rw [BitVec.toNat_add, kInterruptHandlerTableAddr]
  simp only [BitVec.toNat_ofNat]
  omega

theorem clearHandlerTable_spec {config : List RegionConfig}
    (hin : InOneRegion config kInterruptHandlerTableAddr.toNat kInterruptHandlerTableBytes)
    (is : List Nat) {s : Machine Memory} (hs : Serves config s.mem) (his : ∀ i ∈ is, i < 32) :
    ∃ m', OS.clearHandlerTable is s = .ret () (s.withMem m') ∧
      Wipes config (fun x => ∃ i ∈ is,
        ¬ Apart config (kInterruptHandlerTableAddr.toNat + 4 * i) 4 x 1) s.mem m' := by
  induction is generalizing s with
  | nil => exact ⟨s.mem, rfl, (Wipes.refl hs).mono (by simp)⟩
  | cons i rest ih =>
    have hi := his i (by simp)
    have haddr := tableAddr_toNat hi
    have hword : InOneRegion config
        (kInterruptHandlerTableAddr + BitVec.ofNat 32 (4 * i)).toNat 4 := by
      obtain ⟨r, hr, h1, h2⟩ := hin
      unfold kInterruptHandlerTableBytes at h2
      exact ⟨r, hr, by omega, by omega⟩
    have hap : Apart config (kInterruptHandlerTableAddr + BitVec.ofNat 32 (4 * i)).toNat 4
        kOSCurrentContextAddr.toNat 4 := by
      rw [haddr]
      apply apart_of_mod <;> simp only [kInterruptHandlerTableAddr, kOSCurrentContextAddr,
        BitVec.toNat_ofNat] <;> omega
    obtain ⟨m₁, hw⟩ := hs.write32_some hword 0#32
    have hwipe := hs.wipes (k := .w32) hw (by decide) hap
    obtain ⟨m', hrun, hrest⟩ := ih (s := (s.withMem m₁)) hwipe.serves
      fun j hj => his j (List.mem_cons_of_mem _ hj)
    refine ⟨m', ?_, (hwipe.trans hrest).mono ?_⟩
    · simp only [OS.clearHandlerTable, Routine.bind_apply, OS.write32_ret hw, Coop.bind_ret, hrun,
        Machine.withMem_withMem]
    · rintro x ⟨j, hj, hx⟩
      rcases List.mem_cons.mp hj with rfl | hj
      · rw [haddr]
        exact Or.inl hx
      · exact Or.inr ⟨j, hj, hx⟩

theorem not_apart_split {config : List RegionConfig} {a x : Nat}
    (h : ¬ Apart config a kInterruptHandlerTableBytes x 1) :
    ∃ i ∈ List.range (kInterruptHandlerTableBytes / 4), ¬ Apart config (a + 4 * i) 4 x 1 := by
  simp only [Apart, not_forall, not_not] at h
  obtain ⟨i, hi, j, hj, hs⟩ := h
  refine ⟨i / 4, List.mem_range.mpr (by unfold kInterruptHandlerTableBytes at hi ⊢; omega),
    fun hap => hap (i % 4) (by omega) j hj ?_⟩
  have : a + 4 * (i / 4) + i % 4 = a + i := by omega
  rwa [this]

theorem clearHandlerTable_if_mapped {config : List RegionConfig} {s : Machine Memory}
    (hs : Serves config s.mem) :
    ∃ m', OS.onlyIf (s.mem.contains kInterruptHandlerTableAddr
        (BitVec.ofNat 64 kInterruptHandlerTableBytes))
        (OS.clearHandlerTable (List.range (kInterruptHandlerTableBytes / 4))) s =
          .ret () (s.withMem m') ∧
      Wipes config (fun x =>
        InOneRegion config kInterruptHandlerTableAddr.toNat kInterruptHandlerTableBytes ∧
          ¬ Apart config kInterruptHandlerTableAddr.toNat kInterruptHandlerTableBytes x 1)
        s.mem m' := by
  have hcont := hs.contains_iff kInterruptHandlerTableAddr
    (n := kInterruptHandlerTableBytes) (by decide) (by decide)
  rw [OS.onlyIf_apply]
  by_cases hin : InOneRegion config kInterruptHandlerTableAddr.toNat kInterruptHandlerTableBytes
  · rw [if_pos (hcont.mpr hin)]
    obtain ⟨m', hrun, hw⟩ := clearHandlerTable_spec hin
      (List.range (kInterruptHandlerTableBytes / 4)) hs
      fun i hi => by simpa [kInterruptHandlerTableBytes] using hi
    exact ⟨m', hrun, hw.mono fun x hx => not_apart_split hx.2⟩
  · rw [if_neg fun h => hin (hcont.mp h)]
    exact ⟨s.mem, rfl, (Wipes.refl hs).mono fun x hx => hin hx.1⟩

/-- The bytes that `initInterruptWords` clears or overwrites with clear bits. -/
def InitWords (config : List RegionConfig) (x : Nat) : Prop :=
  (InOneRegion config kInterruptHandlerTablePtrAddr.toNat 4 ∧
    ¬ Apart config kInterruptHandlerTablePtrAddr.toNat 4 x 1) ∨
  (InOneRegion config kInterruptHandlerTableAddr.toNat kInterruptHandlerTableBytes ∧
    ¬ Apart config kInterruptHandlerTableAddr.toNat kInterruptHandlerTableBytes x 1)

theorem initInterruptWords_spec {config : List RegionConfig} {s : Machine Memory}
    (hs : Serves config s.mem) :
    ∃ m', OS.initInterruptWords s = .ret () (s.withMem m') ∧
      Wipes config (InitWords config) s.mem m' := by
  obtain ⟨m₁, h₁, w₁⟩ := write32_if_mapped hs kInterruptHandlerTablePtrAddr
    kInterruptHandlerTableAddr (by decide)
    (apart_of_mod config (by decide) (by decide) (by decide))
  obtain ⟨m₂, h₂, w₂⟩ := clearHandlerTable_if_mapped (s := s.withMem m₁) w₁.serves
  obtain ⟨m₃, h₃, w₃⟩ := write32_if_mapped (s := s.withMem m₂) w₂.serves
    kInterruptMaskLoAddr 0#32 (by decide) (apart_of_mod config (by decide) (by decide) (by decide))
  obtain ⟨m₄, h₄, w₄⟩ := write32_if_mapped (s := s.withMem m₃) w₃.serves
    kInterruptMaskHiAddr 0#32 (by decide) (apart_of_mod config (by decide) (by decide) (by decide))
  refine ⟨m₄, ?_, (((w₁.trans w₂).trans w₃).trans w₄).mono ?_⟩
  · unfold OS.initInterruptWords
    refine (Routine.bind_of (OS.contains_apply _ _ _)).trans ?_
    refine (Routine.bind_of h₁).trans ?_
    refine (Routine.bind_of (OS.contains_apply _ _ _)).trans ?_
    refine (Routine.bind_of h₂).trans ?_
    refine (Routine.bind_of (OS.contains_apply _ _ _)).trans ?_
    refine (Routine.bind_of h₃).trans ?_
    exact (Routine.bind_of (OS.contains_apply _ _ _)).trans h₄
  · rintro x (h | h)
    · exact Or.inl (Or.inl (Or.inl h))
    · exact Or.inl (Or.inl (Or.inr h))

theorem osInterruptInit_spec {config : List RegionConfig} {s : Machine Memory}
    (hs : Serves config s.mem) (cpu : CpuPtr) :
    ∃ s', OS.osInterruptInit cpu s = .ret () s' ∧ s'.interruptsEnabled = false ∧
      Wipes config (InitWords config) s.mem s'.mem := by
  obtain ⟨m, hm, w⟩ := initInterruptWords_spec (s := s.resetInterrupts) hs
  have hinit : s.resetInterrupts.mem.initialized = true := hs.initialized
  let t := s.resetInterrupts.withMem m
  refine ⟨if cpu ≠ 0 then t.setGpr cpu 3 0#32 else t, ?_, ?_, ?_⟩
  · unfold OS.osInterruptInit
    refine (Routine.bind_of (Routine.modify_apply _ _)).trans ?_
    refine (Routine.bind_of (OS.isInitialized_apply _)).trans ?_
    refine (Routine.bind_of ((OS.onlyIf_apply _ _ _).trans ((if_pos hinit).trans hm))).trans ?_
    by_cases hz : cpu = 0
    · simp [hz, t]
    · simp [hz, t]
  · split <;> rfl
  · have hmem : (if cpu ≠ 0 then t.setGpr cpu 3 0#32 else t).mem = m := by split <;> rfl
    rw [hmem]
    exact w

/-! ## The calls on a context -/

/-- A machine whose memory changed away from the mode byte of the current context,
and nowhere else that counts. -/
theorem Mirrored.frame {config : List RegionConfig} {s s' : Machine Memory}
    (h : Mirrored config s) (hs : Serves config s'.mem)
    (hp : s'.mem.read32 kOSCurrentContextAddr = s.mem.read32 kOSCurrentContextAddr)
    (he : s'.interruptsEnabled = s.interruptsEnabled)
    (hbyte : ∀ c, s.mem.read32 kOSCurrentContextAddr = some c → c ≠ 0#32 →
      s'.mem.read8 (modeByte c) = s.mem.read8 (modeByte c)) : Mirrored config s' := by
  have hcur : CurrentMapped config s'.mem := by
    intro c hc
    rw [hp] at hc
    exact h.current c hc
  refine ⟨hs, hcur, fun c hc hz => ?_⟩
  have hctx := hcur c hc hz
  rw [hp] at hc
  have hin := hctx.inside hs.admissible kContextModeFlagsOffset 2 (by omega)
    (by decide)
  obtain ⟨x, hx, hbit⟩ := h.mirror c hc hz
  obtain ⟨x', hx'⟩ := hs.read16_some hin
  obtain ⟨y, hy, hyx⟩ := read_modeByte h.serves hctx hx
  obtain ⟨y', hy', hyx'⟩ := read_modeByte hs hctx hx'
  rw [hbyte c hc hz, hy, Option.some.injEq] at hy'
  refine ⟨x', hx', ?_⟩
  rw [← hyx', ← hy', hyx, he]
  exact hbit

/-- The two writes of `osClearContext`, and the exception context after them. -/
theorem osClearContext_writes {config : List RegionConfig} {s s' : Machine Memory}
    (hs : Serves config s.mem) {cpu : CpuPtr} (hcpu : cpu ≠ 0) (hz : s.gpr cpu 3 ≠ 0#32)
    (hctx : MappedContext config (s.gpr cpu 3)) (hrun : OS.osClearContext cpu s = .ret () s') :
    ∃ m₁ m₂, s.mem.write16 (s.gpr cpu 3 + kContextModeOffset) 0#16 = some m₁ ∧
      m₁.write16 (s.gpr cpu 3 + kContextModeFlagsOffset) 0#16 = some m₂ ∧
      s'.interruptsEnabled = s.interruptsEnabled ∧
      (s'.mem = m₂ ∨ m₂.write32 kOSExceptionContextAddr 0#32 = some s'.mem) := by
  have hc := hs.admissible
  obtain ⟨m₁, h₁⟩ := hs.write16_some
    (hctx.inside hc kContextModeOffset 2 (by omega) (by decide)) 0#16
  have hs₁ := hs.write16 h₁
  obtain ⟨m₂, h₂⟩ := hs₁.write16_some
    (hctx.inside hc kContextModeFlagsOffset 2 (by omega) (by decide)) 0#16
  refine ⟨m₁, m₂, h₁, h₂, ?_⟩
  unfold OS.osClearContext at hrun
  simp only [if_neg hcpu, Routine.bind_apply, OS.getGpr_apply, Coop.bind_ret, if_neg hz,
    OS.write16_ret h₁] at hrun
  rw [OS.write16_ret (s := s.withMem m₁) h₂, Coop.bind_ret, Machine.withMem_withMem] at hrun
  rcases he : m₂.read32 kOSExceptionContextAddr with _ | e
  · simp [OS.read32, he] at hrun
  rw [OS.read32_ret (s := s.withMem m₂) he, Coop.bind_ret, OS.onlyIf_apply] at hrun
  split at hrun
  · rcases hw : m₂.write32 kOSExceptionContextAddr 0#32 with _ | m₃
    · simp [OS.write32, hw] at hrun
    rw [OS.write32_ret (s := s.withMem m₂) hw] at hrun
    cases hrun
    exact ⟨rfl, Or.inr rfl⟩
  · cases hrun
    exact ⟨rfl, Or.inl rfl⟩

theorem osClearContext_none {s : Machine Memory} {cpu : CpuPtr}
    (h : cpu = 0 ∨ s.gpr cpu 3 = 0#32) : OS.osClearContext cpu s = .ret () s := by
  unfold OS.osClearContext
  by_cases hcpu : cpu = 0
  · simp [hcpu]
  · simp [hcpu, h.resolve_left hcpu]

/-- `OSClearContext` leaves the current context's mode byte alone, or the flag is off. -/
def ClearKeeps (config : List RegionConfig) (s : Machine Memory) (cpu : CpuPtr) : Prop :=
  cpu = 0 ∨ s.gpr cpu 3 = 0#32 ∨ s.interruptsEnabled = false ∨
    ∀ c, s.mem.read32 kOSCurrentContextAddr = some c → c = 0#32 ∨
      Apart config (s.gpr cpu 3 + kContextModeOffset).toNat 4 (modeByte c).toNat 1

theorem osClearContext_mirrored {config : List RegionConfig} {s s' : Machine Memory}
    (h : Mirrored config s) {cpu : CpuPtr}
    (hr3 : s.gpr cpu 3 = 0#32 ∨ MappedContext config (s.gpr cpu 3))
    (hkeep : ClearKeeps config s cpu) (hrun : OS.osClearContext cpu s = .ret () s') :
    Mirrored config s' := by
  by_cases hnone : cpu = 0 ∨ s.gpr cpu 3 = 0#32
  · rw [osClearContext_none hnone] at hrun
    cases hrun
    exact h
  obtain ⟨hcpu, hz⟩ := not_or.mp hnone
  have hctx := hr3.resolve_left hz
  have hs := h.serves
  have hc := hs.admissible
  obtain ⟨m₁, m₂, h₁, h₂, he, h₃⟩ := osClearContext_writes hs hcpu hz hctx hrun
  have w₁ := hs.wipes (k := .w16) h₁ (by decide)
    (hctx.apart_low hc (by decide) (by decide) (by decide))
  have w₂ := w₁.serves.wipes (k := .w16) h₂ (by decide)
    (hctx.apart_low hc (by decide) (by decide) (by decide))
  have hexc : Apart config kOSExceptionContextAddr.toNat 4 kOSCurrentContextAddr.toNat 4 :=
    apart_of_mod config (by decide) (by decide) (by decide)
  have w₃ : Wipes config (fun _ => False) m₂ s'.mem := by
    rcases h₃ with h₃ | h₃
    · rw [h₃]
      exact Wipes.refl w₂.serves
    · exact (w₂.serves.wipes (k := .w32) h₃ (by decide) hexc).mono fun _ => False.elim
  have w := (w₁.trans w₂).trans w₃
  rcases (hkeep.resolve_left hcpu).resolve_left hz with hoff | hap
  · refine w.mirrored hs h.current (he.trans hoff) fun c x hcur hne hx => Or.inl ?_
    obtain ⟨y, hy, hbit⟩ := h.mirror c hcur hne
    rw [hx, Option.some.injEq] at hy
    rw [hy, Bool.eq_false_iff, Ne, hbit, hoff]
    decide
  · refine h.frame w.serves w.pointer he fun c hcur hne => ?_
    have hapc := (hap c hcur).resolve_left hne
    have hcm := h.current c hcur hne
    -- the two halfwords are the four bytes that the hypothesis keeps apart
    have ha₁ : Apart config (s.gpr cpu 3 + kContextModeOffset).toNat 2 (modeByte c).toNat 1 :=
      fun i hi => hapc i (by omega)
    have ha₂ : Apart config (s.gpr cpu 3 + kContextModeFlagsOffset).toNat 2
        (modeByte c).toNat 1 := by
      intro i hi j hj hsame
      refine hapc (i + 2) (by omega) j hj ?_
      have hsum : (s.gpr cpu 3 + kContextModeOffset).toNat + (i + 2) =
          (s.gpr cpu 3 + kContextModeFlagsOffset).toNat + i := by
        rw [hctx.toNat_add hc (by decide), hctx.toNat_add hc (by decide)]
        simp only [kContextModeOffset, kContextModeFlagsOffset, BitVec.toNat_ofNat]
        omega
      rwa [hsum]
    have r₁ : m₁.read8 (modeByte c) = s.mem.read8 (modeByte c) :=
      hs.frame8 (k := .w16) h₁ ha₁
    have r₂ : m₂.read8 (modeByte c) = m₁.read8 (modeByte c) :=
      w₁.serves.frame8 (k := .w16) h₂ ha₂
    rw [← r₁, ← r₂]
    rcases h₃ with h₃ | h₃
    · rw [h₃]
    · refine w₂.serves.frame8 (k := .w32) h₃ (Apart.symm ?_)
      exact hcm.apart_low hc (by decide) (by decide) (by decide)

/-- `OSSetCurrentContext` reaches its mirror, or returns before it publishes. -/
def SetKeeps (config : List RegionConfig) (s : Machine Memory) (cpu : CpuPtr) : Prop :=
  cpu = 0 ∨ s.gpr cpu 3 = 0#32 ∨ InOneRegion config kOSExceptionContextAddr.toNat 4 ∨
    ¬ InOneRegion config kOSPhysicalContextAddr.toNat 4 ∨
    ¬ InOneRegion config kOSCurrentContextAddr.toNat 4

/-- The publication of a context: the physical and the current pointer. -/
theorem publish_writes {config : List RegionConfig} {m : Memory} (hs : Serves config m)
    (hp : InOneRegion config kOSPhysicalContextAddr.toNat 4)
    (hcur : InOneRegion config kOSCurrentContextAddr.toNat 4) (x c : Word) :
    ∃ m₁ m₂, m.write32 kOSPhysicalContextAddr x = some m₁ ∧
      m₁.write32 kOSCurrentContextAddr c = some m₂ ∧ Serves config m₂ ∧
      m₂.read32 kOSCurrentContextAddr = some c := by
  obtain ⟨m₁, h₁⟩ := hs.write32_some hp x
  have hs₁ := hs.write32 h₁
  obtain ⟨m₂, h₂⟩ := hs₁.write32_some hcur c
  exact ⟨m₁, m₂, h₁, h₂, hs₁.write32 h₂, hs₁.read_written (k := .w32) h₂⟩

/-- After the publication: the state flags, and the mirror from the flag. -/
theorem mirrorContext_mirrored {config : List RegionConfig} {s s' : Machine Memory}
    (hs : Serves config s.mem) {c : Word} (hcur : s.mem.read32 kOSCurrentContextAddr = some c)
    (hctx : MappedContext config c) {cpu : CpuPtr} (hcpu : cpu ≠ 0)
    (hexc : InOneRegion config kOSExceptionContextAddr.toNat 4)
    (hrun : OS.mirrorContext cpu c s = .ret () s') : Mirrored config s' := by
  have hc := hs.admissible
  have hstate := hctx.inside hc kContextStateFlagsOffset 4 (by omega) (by decide)
  have hmode := hctx.inside hc kContextModeFlagsOffset 2 (by omega) (by decide)
  obtain ⟨e, he⟩ := hs.read32_some hexc
  obtain ⟨x, hx⟩ := hs.read32_some hstate
  obtain ⟨m₁, h₁⟩ := hs.write32_some hstate
    (if e = c then x ||| 0x2000#32 else x &&& ~~~0x2000#32)
  have hs₁ := hs.write32 h₁
  have hlow : ∀ off : Word, ∀ n, 0x19C ≤ off.toNat → off.toNat + n ≤ 0x2C8 →
      Apart config (c + off).toNat n kOSCurrentContextAddr.toNat 4 :=
    fun off n h1 h2 => hctx.apart_low hc h1 h2 (by decide)
  have hcur₁ : m₁.read32 kOSCurrentContextAddr = some c :=
    (hs.frame32 (k := .w32) h₁ (hlow _ _ (by decide) (by decide))).trans hcur
  have hmapped : ∀ {m : Memory}, m.read32 kOSCurrentContextAddr = some c →
      CurrentMapped config m := by
    intro m hm c' hc'
    rw [hm, Option.some.injEq] at hc'
    exact fun _ => hc' ▸ hctx
  obtain ⟨y, hy⟩ := hs₁.read16_some hmode
  obtain ⟨m₂, t, hquery, hflag, hf₁, hf₂⟩ :=
    queryInterruptsEnabled_runs (s := s.withMem m₁) hs₁ (hmapped hcur₁) hcpu
  have hcur₂ : t.mem.read32 kOSCurrentContextAddr = some c :=
    (hf₂.pointer.trans hf₁.pointer).trans hcur₁
  obtain ⟨m₃, h₃⟩ := hf₂.serves.write16_some hmode
    (OS.withInterruptBit s.interruptsEnabled y)
  have hrun' : OS.mirrorContext cpu c s = .ret () (t.withMem m₃) := by
    unfold OS.mirrorContext
    simp only [Routine.bind_apply, OS.contains_apply, Coop.bind_ret, hs.contains32, hs.contains16,
      he, hx, (hs.read16_isSome _).mpr hmode, Option.isSome_some, if_true, OS.read32_ret he,
      OS.read32_ret hx, OS.write32_ret h₁, OS.read16_ret (s := s.withMem m₁) hy, hquery]
    exact OS.write16_ret h₃
  rw [hrun'] at hrun
  cases hrun
  have hcur₃ : m₃.read32 kOSCurrentContextAddr = some c :=
    (hf₂.serves.frame32 (k := .w16) h₃ (hlow _ _ (by decide) (by decide))).trans
      hcur₂
  refine ⟨hf₂.serves.write16 h₃, hmapped hcur₃, fun c' hc' _ => ?_⟩
  change m₃.read32 kOSCurrentContextAddr = some c' at hc'
  rw [hcur₃, Option.some.injEq] at hc'
  subst hc'
  refine ⟨_, hf₂.serves.read_written (k := .w16) h₃, ?_⟩
  rw [withInterruptBit_bit, Machine.withMem_interruptsEnabled, hflag,
    Machine.withMem_interruptsEnabled]

theorem osSetCurrentContext_mirrored {config : List RegionConfig} {s s' : Machine Memory}
    (h : Mirrored config s) {cpu : CpuPtr}
    (hr3 : s.gpr cpu 3 = 0#32 ∨ MappedContext config (s.gpr cpu 3))
    (hkeep : SetKeeps config s cpu) (hrun : OS.osSetCurrentContext cpu s = .ret () s') :
    Mirrored config s' := by
  have hs := h.serves
  have hc := hs.admissible
  unfold OS.osSetCurrentContext at hrun
  by_cases hcpu : cpu = 0
  · simp only [hcpu, if_true, Routine.pure_apply] at hrun
    cases hrun
    exact h
  simp only [if_neg hcpu, Routine.bind_apply, OS.isInitialized_apply, Coop.bind_ret,
    hs.initialized, if_true, OS.getGpr_apply, OS.contains_apply, hs.contains32] at hrun
  by_cases hp : InOneRegion config kOSPhysicalContextAddr.toNat 4
  swap
  · have hnone : (s.mem.read32 kOSPhysicalContextAddr).isSome = false := by
      rw [Bool.eq_false_iff, Ne, hs.read32_isSome]
      exact hp
    simp only [hnone, Bool.false_eq_true, if_false, Routine.pure_apply] at hrun
    cases hrun
    exact h
  by_cases hcurin : InOneRegion config kOSCurrentContextAddr.toNat 4
  swap
  · have hnone : (s.mem.read32 kOSCurrentContextAddr).isSome = false := by
      rw [Bool.eq_false_iff, Ne, hs.read32_isSome]
      exact hcurin
    simp only [(hs.read32_isSome _).mpr hp, if_true, hnone, Bool.false_eq_true, if_false,
      Routine.bind_apply, OS.contains_apply, Coop.bind_ret, hs.contains32,
      Routine.pure_apply] at hrun
    cases hrun
    exact h
  simp only [(hs.read32_isSome _).mpr hp, (hs.read32_isSome _).mpr hcurin, if_true,
    Routine.bind_apply, OS.contains_apply, Coop.bind_ret, hs.contains32] at hrun
  by_cases hz : s.gpr cpu 3 = 0#32
  · obtain ⟨m₁, m₂, h₁, h₂, hs₂, hread⟩ := publish_writes hs hp hcurin 0#32 0#32
    simp only [hz, if_true, Routine.bind_apply, OS.write32_ret h₁, Coop.bind_ret] at hrun
    rw [OS.write32_ret (s := s.withMem m₁) h₂, Coop.bind_ret] at hrun
    cases hrun
    have hzero : ∀ c, m₂.read32 kOSCurrentContextAddr = some c → c = 0#32 := by
      intro c hcur
      rw [hread, Option.some.injEq] at hcur
      exact hcur.symm
    exact ⟨hs₂, fun c hcur hne => absurd (hzero c hcur) hne,
      fun c hcur hne => absurd (hzero c hcur) hne⟩
  have hctx := hr3.resolve_left hz
  have hexc : InOneRegion config kOSExceptionContextAddr.toNat 4 := by
    rcases (hkeep.resolve_left hcpu).resolve_left hz with h1 | h1 | h1
    · exact h1
    · exact absurd hp h1
    · exact absurd hcurin h1
  obtain ⟨m₁, m₂, h₁, h₂, hs₂, hread₂⟩ := publish_writes hs hp hcurin
    (s.gpr cpu 3 &&& 0x3FFFFFFF#32) (s.gpr cpu 3)
  simp only [if_neg hz, Routine.bind_apply, OS.write32_ret h₁, Coop.bind_ret] at hrun
  rw [OS.write32_ret (s := s.withMem m₁) h₂, Coop.bind_ret, Machine.withMem_withMem] at hrun
  exact mirrorContext_mirrored (s := s.withMem m₂) hs₂ hread₂ hctx hcpu hexc hrun

/-! ## The law of the mirror -/

/-- The condition on one call. The flag and the mode byte stay together unless
`OS____InterruptInit` turns an enabled flag off under a current context, or
`OSClearContext` clears the mode byte of the current context while the flag is
on, or `OSSetCurrentContext` publishes a context and cannot read the exception
context after it. -/
def ContextEvent.KeepsMirror (config : List RegionConfig) (s : Machine Memory)
    (e : ContextEvent) : Prop :=
  match e.call with
  | .interruptInit => s.interruptsEnabled = false ∨
      ∀ c, s.mem.read32 kOSCurrentContextAddr = some c →
        c = 0#32 ∨ InitWords config (modeByte c).toNat
  | .clearContext => ClearKeeps config { s with cpus := e.cpus } e.cpu
  | .setCurrentContext => SetKeeps config { s with cpus := e.cpus } e.cpu
  | _ => True

theorem exchange_mirrored {config : List RegionConfig} {s s' : Machine Memory}
    (h : Mirrored config s) {cpu : CpuPtr} {enabled : Bool}
    (hrun : OS.exchangeInterrupts cpu enabled s = .ret () s') : Mirrored config s' := by
  obtain ⟨m', hrun', hf⟩ := exchangeInterrupts_spec h.serves h.current cpu enabled
  rw [hrun'] at hrun
  cases hrun
  exact Flagged.mirrored (by simpa using hf) h.serves h.current (by simp)

/-- One call keeps the mirror. -/
theorem event_mirrored {config : List RegionConfig} {s s' : Machine Memory} {e : ContextEvent}
    (h : Mirrored config s) (hmap : e.OnMapped config) (hkeep : e.KeepsMirror config s)
    (hrun : e.run s = .ret () s') : Mirrored config s' := by
  have ht : Mirrored config { s with cpus := e.cpus } := ⟨h.serves, h.current, h.mirror⟩
  obtain ⟨cpus, call, cpu⟩ := e
  unfold ContextEvent.run at hrun
  cases call with
  | disableInterrupts => exact exchange_mirrored ht hrun
  | enableInterrupts => exact exchange_mirrored ht hrun
  | restoreInterrupts => exact exchange_mirrored ht hrun
  | interruptInit =>
    obtain ⟨t, hrun', he, hw⟩ := osInterruptInit_spec ht.serves cpu
    change OS.osInterruptInit cpu _ = _ at hrun
    rw [hrun'] at hrun
    cases hrun
    refine hw.mirrored ht.serves ht.current he fun c x hcur hne hx => ?_
    rcases hkeep with hoff | hinit
    · obtain ⟨y, hy, hbit⟩ := h.mirror c hcur hne
      rw [show s.mem.read16 (c + kContextModeFlagsOffset) = some x from hx,
        Option.some.injEq] at hy
      left
      rw [hy, Bool.eq_false_iff, Ne, hbit, hoff]
      decide
    · exact Or.inr ((hinit c hcur).resolve_left hne)
  | setCurrentContext => exact osSetCurrentContext_mirrored ht (hmap (Or.inl rfl)) hkeep hrun
  | clearContext => exact osClearContext_mirrored ht (hmap (Or.inr rfl)) hkeep hrun

/-- In every run of calls on mapped contexts, from a state with no current context,
in which each call meets the condition: the current context mirrors the flag in
every state, and a query leaves the flag and the memory as they are. -/
theorem the_context_mirrors_the_interrupt_flag {config : List RegionConfig}
    {s₀ s : Machine Memory} (hs : Serves config s₀.mem)
    (hnone : ∀ c, s₀.mem.read32 kOSCurrentContextAddr = some c → c = 0#32)
    (hrun : Calls config (ContextEvent.KeepsMirror config) s₀ s) :
    Mirror s ∧ ∀ cpu, ∃ s', OS.queryInterruptsEnabled cpu s =
        .ret (cpu ≠ 0 && s.interruptsEnabled) s' ∧
      s'.interruptsEnabled = s.interruptsEnabled ∧ ∀ k a, s'.mem.read k a = s.mem.read k a := by
  have h : Mirrored config s := by
    induction hrun with
    | start =>
      exact ⟨hs, fun c hc hz => absurd (hnone c hc) hz, fun c hc hz => absurd (hnone c hc) hz⟩
    | call _ hmap hkeep hstep ih => exact event_mirrored ih hmap hkeep hstep
  exact ⟨h.mirror, queryInterruptsEnabled_spec h⟩

/-! ## Runs of a booted Wii -/

/-- A booted Wii with interrupts enabled. -/
def bootMachine (mem : Memory) : Machine Memory where
  mem := mem
  interruptsEnabled := true
  interruptMask := 0#32
  flushMode := false
  cpus := fun _ => .zero
  fibers := ⟨fun _ => .none, 0, 0#32, 0⟩
  hosts := ⟨0, 1, fun _ => 0#32, fun _ => false, fun _ => true⟩
  nand := .start fun _ => ⟨false, []⟩
  dispatch := fun _ => none
  translated := fun _ => none

def wiiBoot : Option Memory :=
  Memory.init ⟨some 0, some 0, fun _ => true⟩ wiiDefaults
    ⟨false, [], .fresh, ⟨fun _ => none, 0, []⟩⟩

theorem wiiBoot_serves {m : Memory} (h : wiiBoot = some m) :
    Serves wiiDefaults (bootMachine m).mem :=
  Serves.init wiiDefaults_admissible (.start _) h

/-- `OSSetCurrentContext(0x80400000)`. -/
def setContextEvent : ContextEvent :=
  ⟨fun _ => CpuContext.zero.setGpr 3 0x80400000#32, .setCurrentContext, 1⟩

theorem lowMemory_mapped {a : Word} {n : Nat} (h : 0x80000000 ≤ a.toNat)
    (hn : a.toNat + n ≤ 0x81800000) : InOneRegion wiiDefaults a.toNat n :=
  ⟨⟨"MEM1_CACHED", kMem1CachedBase, kMem1Size.setWidth 64⟩, by simp [wiiDefaults], h, hn⟩

theorem setContextEvent_onMapped : setContextEvent.OnMapped wiiDefaults :=
  fun _ => Or.inr (lowMemory_mapped (by decide) (by decide))

/-- The law over a run of one call, `OSSetCurrentContext(0x80400000)`. -/
theorem the_boot_context_mirrors : ∃ m s, wiiBoot = some m ∧
    setContextEvent.run (bootMachine m) = .ret () s ∧
    s.mem.read32 kOSCurrentContextAddr = some 0x80400000#32 ∧ Mirror s := by
  have hrun : ((wiiBoot.bind fun m => (setContextEvent.run (bootMachine m)).ended.map fun r =>
      decide (m.read32 kOSCurrentContextAddr = some 0#32 ∧
        r.2.mem.read32 kOSCurrentContextAddr = some 0x80400000#32))) = some true := by
    decide +kernel
  obtain ⟨m, hm, hrest⟩ := Option.bind_eq_some_iff.mp hrun
  obtain ⟨⟨_, s⟩, hs, hread⟩ := Option.map_eq_some_iff.mp hrest
  obtain ⟨h0, hcur⟩ := of_decide_eq_true hread
  have hstep := Coop.ret_of_ended hs
  have hnone : ∀ c, (bootMachine m).mem.read32 kOSCurrentContextAddr = some c → c = 0#32 := by
    intro c hc
    rw [show m.read32 kOSCurrentContextAddr = some c from hc, Option.some.injEq] at h0
    exact h0
  exact ⟨m, s, hm, hstep, hcur, (the_context_mirrors_the_interrupt_flag
    (wiiBoot_serves hm) hnone
    (.call .start setContextEvent_onMapped
      (Or.inr (Or.inr (Or.inl (lowMemory_mapped (by decide) (by decide))))) hstep)).1⟩

/-- `OS____InterruptInit()`. -/
def interruptInitEvent : ContextEvent := ⟨fun _ => .zero, .interruptInit, 1⟩

/-- The state before the two calls, the states after each, and a query after them. -/
def missedRun : Option (Memory × Machine Memory × Machine Memory × Bool × Machine Memory) := do
  let m ← wiiBoot
  let (_, s₁) ← (setContextEvent.run (bootMachine m)).ended
  let (_, s₂) ← (interruptInitEvent.run s₁).ended
  let (b, s₃) ← (OS.queryInterruptsEnabled 1 s₂).ended
  return (m, s₁, s₂, b, s₃)

/-- Interrupts are on and `0x80400000` is the current context: after
`OS____InterruptInit` the flag is off and bit 1 of the context is still set, and
a query clears the bit. -/
theorem interrupt_init_misses_the_mirror :
    ∃ s₀ s s' : Machine Memory, Serves wiiDefaults s₀.mem ∧
      (∀ c, s₀.mem.read32 kOSCurrentContextAddr = some c → c = 0#32) ∧
      Calls wiiDefaults (fun _ _ => True) s₀ s ∧ ¬ Mirror s ∧
      OS.queryInterruptsEnabled 1 s = .ret false s' ∧
      s.mem.read16 0x804001A2#32 = some 0x2#16 ∧ s'.mem.read16 0x804001A2#32 = some 0#16 := by
  have hrun : (missedRun.map fun r => decide (r.1.read32 kOSCurrentContextAddr = some 0#32 ∧
      r.2.2.1.mem.read32 kOSCurrentContextAddr = some 0x80400000#32 ∧
      r.2.2.1.mem.read16 0x804001A2#32 = some 0x2#16 ∧ r.2.2.1.interruptsEnabled = false ∧
      r.2.2.2.1 = false ∧ r.2.2.2.2.mem.read16 0x804001A2#32 = some 0#16)) = some true := by
    decide +kernel
  obtain ⟨⟨_, _, _, _, _⟩, hsome, hread⟩ := Option.map_eq_some_iff.mp hrun
  obtain ⟨h0, hcur, hmode, hoff, hb, hmode'⟩ := of_decide_eq_true hread
  simp only [missedRun, Option.bind_eq_bind, Option.bind_eq_some_iff, Prod.exists, Option.pure_def,
    Option.some.injEq, Prod.mk.injEq] at hsome
  obtain ⟨m, hm, _, s₁, h₁, _, s₂, h₂, b, s₃, h₃, rfl, rfl, rfl, rfl, rfl⟩ := hsome
  refine ⟨bootMachine m, s₂, s₃, wiiBoot_serves hm, ?_, ?_, ?_, ?_,
    hmode, hmode'⟩
  · intro c hc
    rw [show m.read32 kOSCurrentContextAddr = some c from hc, Option.some.injEq] at h0
    exact h0
  · refine .call (.call .start setContextEvent_onMapped trivial (Coop.ret_of_ended h₁)) ?_
      trivial
      (Coop.ret_of_ended h₂)
    intro h
    rcases h with h | h <;> cases h
  · intro hmirror
    obtain ⟨x, hx, hbit⟩ := hmirror _ hcur (by decide)
    rw [show (0x80400000#32 : Word) + kContextModeFlagsOffset = 0x804001A2#32 by decide, hmode,
      Option.some.injEq] at hx
    rw [← hx, hoff] at hbit
    exact absurd hbit (by decide)
  · rw [← hb]
    exact Coop.ret_of_ended h₃

end wii_switch
