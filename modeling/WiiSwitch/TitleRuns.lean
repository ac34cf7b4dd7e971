-- The title's data directory over runs of NANDInit, DVDInit and NAND opens. NANDInit and the
-- opens agree on what a game code is, but DVDInit takes no lower-case letters and then puts
-- the fallback into the header, so opens go elsewhere than the directory that was published.
import WiiSwitch.TitleDirectory
import WiiSwitch.WiiLayout

namespace wii_switch

open Bytes OS Routine DvdInit

/-! ## Game codes -/

theorem isalnum_eq (ch : Byte) : NandInit.isalnum ch = isAlphanumeric ch := by
  rw [Bool.eq_iff_iff]
  simp only [NandInit.isalnum, isAlphanumeric, decide_eq_true_eq]
  tauto

/-- The byte is a lower-case letter. -/
def isLowerCase (ch : Byte) : Bool := 0x61#8 ≤ ch ∧ ch ≤ 0x7A#8

/-- The bytes of a code word, from the first character on. -/
def codeBytes (code : Word) : List Byte :=
  [24, 16, 8, 0].map fun shift => (code >>> shift).setWidth 8

/-- A game code for NANDInit and the opens, but with a lower-case letter in it. -/
def IsLowerCode (code : Word) : Prop :=
  (∀ ch ∈ codeBytes code, isAlphanumeric ch = true) ∧ ∃ ch ∈ codeBytes code,
    isLowerCase ch = true

instance (code : Word) : Decidable (IsLowerCode code) := inferInstanceAs (Decidable (_ ∧ _))

theorem isAlphanumeric_iff (ch : Byte) :
    isAlphanumeric ch = true ↔ isGameCodeByte ch = true ∨ isLowerCase ch = true := by
  simp only [isAlphanumeric, isGameCodeByte, isLowerCase, decide_eq_true_eq]
  tauto

theorem gameCode_eq (code : Word) :
    gameCode code = if ∀ ch ∈ codeBytes code, isAlphanumeric ch = true then code
      else kFallbackGameCode := by
  simp [gameCode, codeBytes]

theorem discGameCode_eq (code : Word) :
    discGameCode code = if ∀ ch ∈ codeBytes code, isGameCodeByte ch = true then code
      else kFallbackGameCode := by
  simp [discGameCode, codeBytes, kPalFallback, kFallbackGameCode]

theorem isValidGameCode_iff (code : Word) :
    NandInit.isValidGameCode code = true ↔ ∀ ch ∈ codeBytes code,
    isAlphanumeric ch = true := by
  simp [NandInit.isValidGameCode, codeBytes, isalnum_eq]

/-- DVDInit leaves the code that NANDInit sees, unless it has a lower-case letter. -/
theorem gameCode_discGameCode {code : Word} (h : ¬ IsLowerCode code) :
    gameCode (discGameCode code) = gameCode code := by
  rw [discGameCode_eq]
  split
  · rfl
  · rename_i hdisc
    have hcode : ¬ ∀ ch ∈ codeBytes code, isAlphanumeric ch = true := by
      intro hall
      apply hdisc
      intro ch hch
      refine ((isAlphanumeric_iff ch).mp (hall ch hch)).resolve_right fun hlower => ?_
      exact h ⟨hall, ch, hch, hlower⟩
    rw [gameCode_eq code, if_neg hcode]
    decide

theorem lower_not_disc {ch : Byte} (h : isLowerCase ch = true) : isGameCodeByte ch = false := by
  rw [Bool.eq_false_iff]
  intro hdisc
  simp only [isLowerCase, isGameCodeByte, decide_eq_true_eq, BitVec.le_def,
    BitVec.toNat_ofNat] at h hdisc
  omega

/-- A code with a lower-case letter becomes the fallback, which is another code. -/
theorem gameCode_of_lower {code : Word} (h : IsLowerCode code) :
    gameCode (discGameCode code) = kFallbackGameCode ∧ gameCode code = code ∧
      code ≠ kFallbackGameCode := by
  obtain ⟨hall, ch, hch, hlower⟩ := h
  have hdisc : ¬ ∀ ch ∈ codeBytes code, isGameCodeByte ch = true := by
    intro hall'
    have hch' := hall' ch hch
    rw [lower_not_disc hlower] at hch'
    cases hch'
  refine ⟨?_, ?_, ?_⟩
  · rw [discGameCode_eq, if_neg hdisc]
    decide
  · rw [gameCode_eq, if_pos hall]
  · rintro rfl
    exact hdisc (by decide)

/-! ## Directories -/

theorem hexDigit_inj {a b : Nat} (ha : a < 16) (hb : b < 16) (h : hexDigit a = hexDigit b) :
    a = b := by
  have hall : ∀ a b : Fin 16, hexDigit a = hexDigit b → a = b := by decide
  exact Fin.mk.inj (hall ⟨a, ha⟩ ⟨b, hb⟩ h)

theorem hexWord_inj {code code' : Word} (h : hexWord code = hexWord code') : code = code' := by
  have hdigit : ∀ shift ∈ [28, 24, 20, 16, 12, 8, 4, 0],
      (code >>> shift).toNat % 16 = (code' >>> shift).toNat % 16 := by
    intro shift hshift
    have := List.map_inj_left.mp h shift hshift
    exact hexDigit_inj (Nat.mod_lt _ (by decide)) (Nat.mod_lt _ (by decide)) this
  simp only [List.forall_mem_cons, BitVec.toNat_ushiftRight, Nat.shiftRight_eq_div_pow] at hdigit
  have h1 := code.isLt
  have h2 := code'.isLt
  apply BitVec.eq_of_toNat_eq
  omega

theorem currentDataDir_inj {code code' : Word} (h : currentDataDir code = currentDataDir code') :
    code = code' := by
  unfold currentDataDir at h
  exact hexWord_inj (List.append_cancel_left (List.append_cancel_right h))

/-- NANDInit and the opens write the same directory for a code. -/
theorem currentNandDataDir_eq (code : Word) :
    NandInit.currentNandDataDir code = currentDataDir code := by
  have htitle : ascii "/title/" ++ hexWord NandInit.kTitleIdHi ++ ascii "/" =
      ascii "/title/00010004/" := by decide
  unfold NandInit.currentNandDataDir currentDataDir
  rw [htitle]

theorem currentDataDir_length (code : Word) : (currentDataDir code).length = 29 := rfl

theorem hexDigit_ne_zero {n : Nat} (h : n < 16) : hexDigit n ≠ 0#8 := by
  have : ∀ n : Fin 16, hexDigit n ≠ 0#8 := by decide
  exact this ⟨n, h⟩

/-- No byte of a directory ends its C string. -/
theorem zero_not_mem_dataDir (code : Word) : 0#8 ∉ currentDataDir code := by
  unfold currentDataDir
  simp only [List.mem_append, not_or]
  refine ⟨⟨by decide, fun hmem => ?_⟩, by decide⟩
  obtain ⟨shift, -, hdigit⟩ := List.mem_map.mp hmem
  exact hexDigit_ne_zero (Nat.mod_lt _ (by decide)) hdigit

/-! ## The word of the disc header -/

/-- The word of the disc header, when it is mapped. -/
def headerWord (s : Machine Memory) : Option Word := s.mem.read32 kDiscHeader

/-- A range below the end of its window, without a byte of the word of the disc header. -/
def OffHeader (a : Word) (n : Nat) : Prop :=
  4 ≤ a.toNat % 0x20000000 ∧ a.toNat % 0x20000000 + n < 0x20000000

instance (a : Word) (n : Nat) : Decidable (OffHeader a n) := inferInstanceAs (Decidable (_ ∧ _))

/-- The routine calls nothing outside and leaves the word of the disc header. -/
def LeavesHeader {α : Type} (config : List RegionConfig) (r : OS α) : Prop :=
  ∀ s, Serves config s.mem → (r s).Meets .alone fun _ s' =>
    Serves config s'.mem ∧ headerWord s' = headerWord s

section

variable {config : List RegionConfig} {α β : Type} {a : Word} {n : Nat}

theorem OffHeader.apart (h : OffHeader a n) : Apart config a.toNat n kDiscHeader.toNat 4 := by
  have hheader : kDiscHeader.toNat % 0x20000000 = 0 := by decide
  obtain ⟨h1, h2⟩ := h
  apply apart_of_mod <;> omega

theorem OffHeader.head (h : OffHeader a (n + 1)) : OffHeader a 1 :=
  ⟨h.1, lt_of_le_of_lt (by omega) h.2⟩

theorem OffHeader.tail (h : OffHeader a (n + 1)) : OffHeader (a + 1#32) n := by
  obtain ⟨h1, h2⟩ := h
  have ha := a.isLt
  have hnext : (a + 1#32).toNat = (a.toNat + 1) % 2 ^ 32 := BitVec.toNat_add a 1#32
  constructor <;> omega

theorem leavesHeader_pure (x : α) : LeavesHeader config (pure x) := fun _ hs => ⟨hs, rfl⟩

theorem leavesHeader_bind {x : OS α} {f : α → OS β} (hx : LeavesHeader config x)
    (hf : ∀ y, LeavesHeader config (f y)) : LeavesHeader config (x >>= f) := by
  intro s hs
  refine Coop.meets_bind.mpr ((hx s hs).mono fun y t ht => ?_)
  refine (hf y t ht.1).mono fun _ u hu => ⟨hu.1, ?_⟩
  exact hu.2.trans ht.2

theorem leavesHeader_ite {c : Prop} [Decidable c] {x y : OS α} (hx : LeavesHeader config x)
    (hy : LeavesHeader config y) : LeavesHeader config (if c then x else y) := by
  split
  · exact hx
  · exact hy

theorem leavesHeader_gets (f : Machine Memory → α) : LeavesHeader config (Routine.gets f) :=
  fun _ hs => ⟨hs, rfl⟩

theorem leavesHeader_contains (a : Word) (length : Word64) :
    LeavesHeader config (contains a length) := leavesHeader_gets _

theorem leavesHeader_setGpr (cpu : CpuPtr) (i : Fin 32) (x : Word) :
    LeavesHeader config (setGpr cpu i x) := fun _ hs => ⟨hs, rfl⟩

theorem leavesHeader_read32 (a : Word) : LeavesHeader config (read32 a) := by
  intro s hs
  unfold read32
  cases s.mem.read32 a with
  | none => trivial
  | some x => exact ⟨hs, rfl⟩

/-- A write off the header. -/
theorem leavesHeader_write {k : Width} {x : BitVec k.bits} (h : OffHeader a k.bytes) :
    LeavesHeader config fun s => match s.mem.write k a x with
      | none => .stop (.memoryFault a) s
      | some m => .ret () (s.withMem m) := by
  intro s hs
  dsimp only
  split
  · trivial
  · rename_i m hw
    exact ⟨hs.write hw, hs.frame32 hw h.apart⟩

theorem leavesHeader_write32 (h : OffHeader a 4) (x : Word) :
    LeavesHeader config (write32 a x) := leavesHeader_write (k := .w32) h

theorem leavesHeader_write16 (h : OffHeader a 2) (x : Half) :
    LeavesHeader config (write16 a x) := leavesHeader_write (k := .w16) h

theorem leavesHeader_write8 (h : OffHeader a 1) (x : Byte) :
    LeavesHeader config (write8 a x) := leavesHeader_write (k := .w8) h

/-! ## NANDInit -/

theorem leavesHeader_writeBytes (bytes : List Byte) (h : OffHeader a bytes.length) :
    LeavesHeader config (NandInit.writeBytes a bytes) := by
  induction bytes generalizing a with
  | nil => exact leavesHeader_pure ()
  | cons ch rest ih =>
    rw [List.length_cons] at h
    exact leavesHeader_bind (leavesHeader_write8 h.head ch) fun _ => ih h.tail

theorem leavesHeader_currentGameCode : LeavesHeader config NandInit.currentGameCode := by
  unfold NandInit.currentGameCode
  refine leavesHeader_bind (leavesHeader_contains _ _) fun mapped => ?_
  refine leavesHeader_ite (leavesHeader_bind (leavesHeader_read32 _) fun code => ?_)
    (leavesHeader_pure _)
  exact leavesHeader_ite (leavesHeader_pure _) (leavesHeader_pure _)

theorem leavesHeader_nandInit (cpu : CpuPtr) : LeavesHeader config (nandInit cpu) := by
  unfold nandInit
  refine leavesHeader_ite (leavesHeader_pure ()) ?_
  refine leavesHeader_bind leavesHeader_currentGameCode fun gameCode => ?_
  refine leavesHeader_bind ?_ fun written => ?_
  · unfold NandInit.writeGuestCString
    refine leavesHeader_bind (leavesHeader_contains _ _) fun mapped => ?_
    refine leavesHeader_ite (leavesHeader_bind ?_ fun _ => leavesHeader_pure _)
      (leavesHeader_pure _)
    apply leavesHeader_writeBytes
    rw [List.length_append, currentNandDataDir_eq, currentDataDir_length]
    decide
  · refine leavesHeader_bind (leavesHeader_contains _ _) fun mapped => ?_
    refine leavesHeader_ite (leavesHeader_setGpr _ _ _) ?_
    exact leavesHeader_bind (leavesHeader_write32 (by decide) _) fun _ => leavesHeader_setGpr _ _ _

/-! ## DVDInit -/

theorem leavesHeader_forEachFrom {body : Word → OS Unit} (i n : Nat)
    (h : ∀ j < i + n, LeavesHeader config (body (BitVec.ofNat 32 j))) :
    LeavesHeader config (forEachFrom i body n) := by
  induction n generalizing i with
  | zero => exact leavesHeader_pure ()
  | succ n ih =>
    refine leavesHeader_bind (h i (by omega)) fun _ => ih (i + 1) fun j hj => h j (by omega)

theorem leavesHeader_initializeCancelState : LeavesHeader config initializeCancelState := by
  unfold initializeCancelState initializeWaitingQueues
  refine leavesHeader_bind (leavesHeader_forEachFrom 0 4 fun j hj => ?_) fun _ => ?_
  · have hqueue : ∀ j : Fin 4, OffHeader (0x80343230#32 + BitVec.ofNat 32 j.val * 8 + 0) 4 ∧
        OffHeader (0x80343230#32 + BitVec.ofNat 32 j.val * 8 + 4) 4 := by decide
    have hj' := hqueue ⟨j, by omega⟩
    exact leavesHeader_bind (leavesHeader_write32 hj'.1 _) fun _ => leavesHeader_write32 hj'.2 _
  · refine leavesHeader_bind (leavesHeader_write32 (by decide) _) fun _ => ?_
    refine leavesHeader_bind (leavesHeader_write32 (by decide) _) fun _ => ?_
    refine leavesHeader_bind (leavesHeader_write32 (by decide) _) fun _ => ?_
    refine leavesHeader_bind (leavesHeader_write32 (by decide) _) fun _ => ?_
    refine leavesHeader_bind (leavesHeader_write32 (by decide) _) fun _ => ?_
    exact leavesHeader_write32 (by decide) _

theorem leavesHeader_initializeContexts : LeavesHeader config initializeContexts := by
  refine leavesHeader_forEachFrom 0 4 fun j hj => ?_
  have hcontext : ∀ j : Fin 4,
    OffHeader (0x803434E0#32 + BitVec.ofNat 32 j.val * 0x20 + 0x0C) 4 ∧
      OffHeader (0x803434E0#32 + BitVec.ofNat 32 j.val * 0x20 + 0x10) 4 := by decide
  have hj' := hcontext ⟨j, by omega⟩
  exact leavesHeader_bind (leavesHeader_write32 hj'.1 _) fun _ => leavesHeader_write32 hj'.2 _

theorem leavesHeader_hasPublishedFst : LeavesHeader config hasPublishedFst := by
  unfold hasPublishedFst
  refine leavesHeader_bind (leavesHeader_contains _ _) fun mapped => ?_
  refine leavesHeader_ite ?_ (leavesHeader_pure _)
  refine leavesHeader_bind (leavesHeader_read32 _) fun fstAddress => ?_
  refine leavesHeader_bind (leavesHeader_read32 _) fun fstSize => ?_
  refine leavesHeader_ite (leavesHeader_pure _) ?_
  refine leavesHeader_bind (leavesHeader_contains _ _) fun mapped => ?_
  refine leavesHeader_ite ?_ (leavesHeader_pure _)
  refine leavesHeader_bind (leavesHeader_read32 _) fun rootWord => ?_
  exact leavesHeader_bind (leavesHeader_read32 _) fun entryCount => leavesHeader_pure _

/-- The outside keeps the word of the disc header, and so does the routine when it calls. -/
def HeaderIs (config : List RegionConfig)
    (w : Word) : Coop.Contract (Machine Memory) Stop Away where
  rely := fun _ _ s' => Serves config s'.mem ∧ headerWord s' = some w
  guar := fun _ s => Serves config s.mem ∧ headerWord s = some w
  stops := fun _ _ => True

/-- The routine keeps the word `w` in the disc header, as long as the outside does. -/
def HoldsHeader (config : List RegionConfig) (w : Word) (r : OS α) : Prop :=
  ∀ s, Serves config s.mem → headerWord s = some w →
    (r s).Meets (HeaderIs config w) fun _ s' =>
    Serves config s'.mem ∧ headerWord s' = some w

theorem LeavesHeader.holds {r : OS α} (h : LeavesHeader config r) (w : Word) :
    HoldsHeader config w r := by
  intro s hs hw
  refine ((h s hs).of_alone fun _ _ => trivial).mono fun _ s' hs' => ⟨hs'.1, ?_⟩
  exact hs'.2.trans hw

theorem holdsHeader_bind {w : Word} {x : OS α} {f : α → OS β} (hx : HoldsHeader config w x)
    (hf : ∀ y, HoldsHeader config w (f y)) : HoldsHeader config w (x >>= f) := by
  intro s hs hw
  exact Coop.meets_bind.mpr ((hx s hs hw).mono fun y t ht => hf y t ht.1 ht.2)

theorem holdsHeader_invokeIndirectCpu (w target : Word) (cpu : CpuPtr) :
    HoldsHeader config w (invokeIndirectCpu target cpu) := by
  intro s hs hw
  simp only [invokeIndirectCpu, tryDispatchIndirect, bind_apply, Routine.ite_apply]
  by_cases hcpu : cpu = 0
  · rw [if_pos hcpu]
    trivial
  rw [if_neg hcpu]
  cases hd : s.dispatch target with
  | none =>
    simp only [Routine.gets_apply, Coop.bind_ret, hd]
    trivial
  | some record =>
    simp only [Routine.gets_apply, Coop.bind_ret, hd, bind_apply, call_apply, Coop.bind_call]
    exact ⟨⟨hs, hw⟩, fun s' hs' => hs'⟩

/-- The header after DVDInit wrote it. -/
theorem meets_initializeDiscHeader {s : Machine Memory} (hs : Serves config s.mem) {w : Word}
    (hw : headerWord s = some w) : (initializeDiscHeader s).Meets .alone fun _ s' =>
      Serves config s'.mem ∧ headerWord s' = some (discGameCode w) := by
  have hcontains : s.mem.contains kDiscHeader 4#64 = true := by
    rw [hs.contains32]
    exact Option.isSome_iff_exists.mpr ⟨w, hw⟩
  have hcode : currentDiscGameCode s = .ret (discGameCode w) s := by
    unfold currentDiscGameCode
    rw [bind_of (contains_apply _ _ s), hcontains, Routine.ite_apply, if_pos rfl,
      bind_of (read32_ret hw), pure_apply]
  unfold initializeDiscHeader
  rw [bind_of hcode]
  cases hwrite : s.mem.write32 (kDiscHeader + 0) (discGameCode w) with
  | none =>
    rw [bind_apply, write32, hwrite]
    trivial
  | some m =>
    rw [bind_of (write32_ret hwrite)]
    have hm : Serves config m := hs.write32 hwrite
    have hread : m.read32 kDiscHeader = some (discGameCode w) :=
      hs.read_written (k := .w32) (a := kDiscHeader) hwrite
    have hmaker : LeavesHeader config (do
        write16 (kDiscHeader + 4) 0x3031
        write8 (kDiscHeader + 6) 1) :=
      leavesHeader_bind (leavesHeader_write16 (by decide) _) fun _ =>
        leavesHeader_write8 (by decide) _
    exact (hmaker (s.withMem m) hm).mono fun _ s' hs' => ⟨hs'.1, hs'.2.trans hread⟩

/-- DVDInit puts its own code into the header, and keeps it there. -/
theorem meets_bootstrap {s : Machine Memory} (hs : Serves config s.mem) {w : Word}
    (hw : headerWord s = some w) (cpu : CpuPtr) :
    (bootstrap cpu s).Meets (HeaderIs config (discGameCode w)) fun _ s' =>
      Serves config s'.mem ∧ headerWord s' = some (discGameCode w) := by
  have hfirst : LeavesHeader config (do
      write8 0x80386724 1
      write8 0x80386725 1
      write32 0x80386720 0
      initializeCancelState
      initializeContexts) := by
    refine leavesHeader_bind (leavesHeader_write8 (by decide) _) fun _ => ?_
    refine leavesHeader_bind (leavesHeader_write8 (by decide) _) fun _ => ?_
    refine leavesHeader_bind (leavesHeader_write32 (by decide) _) fun _ => ?_
    exact leavesHeader_bind leavesHeader_initializeCancelState fun _ =>
      leavesHeader_initializeContexts
  have hrest : HoldsHeader config (discGameCode w) (do
      if ← hasPublishedFst then invokeIndirectCpu kDvdFsInitAddress cpu
      write8 kDvdInitCalled 1) := by
    have hlast : HoldsHeader config (discGameCode w) (write8 kDvdInitCalled 1) :=
      (leavesHeader_write8 (by decide) _).holds _
    refine holdsHeader_bind (leavesHeader_hasPublishedFst.holds _) fun published => ?_
    cases published with
    | true => exact holdsHeader_bind (holdsHeader_invokeIndirectCpu _ _ cpu) fun _ => hlast
    | false => exact hlast
  have hsplit : bootstrap cpu = (do
      write8 0x80386724 1
      write8 0x80386725 1
      write32 0x80386720 0
      initializeCancelState
      initializeContexts) >>= fun _ => initializeDiscHeader >>= fun _ => (do
        if ← hasPublishedFst then invokeIndirectCpu kDvdFsInitAddress cpu
        write8 kDvdInitCalled 1) := by
    funext s
    simp only [bootstrap, bind_apply, Coop.bind_assoc]
  have hstop : ∀ e s, (HeaderIs config (discGameCode w)).stops e s := fun _ _ => trivial
  rw [hsplit]
  refine Coop.meets_bind.mpr (((hfirst s hs).mono fun _ t ht => ?_).of_alone hstop)
  have hheader := meets_initializeDiscHeader ht.1 (ht.2.trans hw)
  refine Coop.meets_bind.mpr ((hheader.mono fun _ u hu => ?_).of_alone hstop)
  exact hrest u hu.1 hu.2

/-! ## The published string -/

/-- The C string of fewer than `n` bytes at an address. -/
def cString (m : Memory) (address : Word) : Nat → Option (List Byte)
  | 0 => none
  | n + 1 => (m.read8 address).bind fun ch =>
    if ch = 0#8 then some [] else (cString m (address + 1#32) n).map (ch :: ·)

/-- The guest's home directory, `NANDHomeDir`. -/
def homeDir (s : Machine Memory) : Option (List Byte) :=
  cString s.mem NandInit.kNandHomeDirAddr 64

/-- Bytes behind an address leave the byte there. -/
theorem writeBytes_frame {s s' : Machine Memory} {b : Word} (hs : Serves config s.mem)
    {bytes : List Byte} (hlt : b.toNat < a.toNat) (hend : a.toNat + bytes.length < 2 ^ 32)
    (hnear : a.toNat + bytes.length ≤ b.toNat + 0x20000000)
    (h : NandInit.writeBytes a bytes s = .ret () s') :
    Serves config s'.mem ∧ s'.mem.read8 b = s.mem.read8 b := by
  induction bytes generalizing a s with
  | nil =>
    obtain ⟨_, rfl⟩ := Coop.ret.inj h
    exact ⟨hs, rfl⟩
  | cons ch rest ih =>
    rw [List.length_cons] at hend hnear
    rw [NandInit.writeBytes, bind_apply, write8] at h
    split at h
    · cases h
    rename_i m hw
    have hnext : (a + 1#32).toNat = a.toNat + 1 := by
      rw [BitVec.toNat_add]
      exact Nat.mod_eq_of_lt (by simp only [BitVec.toNat_ofNat]; omega)
    obtain ⟨hs', hread⟩ := ih (s := s.withMem m) (a := a + 1#32) (hs.write (k := .w8) hw)
      (by omega) (by omega) (by omega) h
    refine ⟨hs', hread.trans (hs.frame8 (k := .w8) hw fun i hi j hj hsame => ?_)⟩
    have hmod := hsame.mod_eq
    have hi' : i < 1 := hi
    omega

/-- A string without zeros comes back after it was written. -/
theorem cString_written {s s' : Machine Memory} (hs : Serves config s.mem) {value : List Byte}
    (hzero : 0#8 ∉ value) (hend : a.toNat + (value.length + 1) < 2 ^ 32)
    (hlen : value.length + 1 ≤ 0x20000000) (hn : value.length < n)
    (h : NandInit.writeBytes a (value ++ [0#8]) s = .ret () s') :
    cString s'.mem a n = some value := by
  obtain ⟨n, rfl⟩ : ∃ k, n = k + 1 := ⟨n - 1, by omega⟩
  have hnext : (a + 1#32).toNat = a.toNat + 1 := by
    rw [BitVec.toNat_add]
    exact Nat.mod_eq_of_lt (by simp only [BitVec.toNat_ofNat]; omega)
  induction value generalizing a s n with
  | nil =>
    rw [List.nil_append, NandInit.writeBytes, bind_apply, write8] at h
    split at h
    · cases h
    rename_i m hw
    obtain ⟨_, rfl⟩ := Coop.ret.inj h
    have hread : m.read8 a = some 0#8 := hs.read_written (k := .w8) hw
    rw [cString, Machine.withMem_mem, hread, Option.bind_some, if_pos rfl]
  | cons ch rest ih =>
    rw [List.length_cons] at hend hlen hn
    rw [List.mem_cons, not_or] at hzero
    rw [List.cons_append, NandInit.writeBytes, bind_apply, write8] at h
    split at h
    · cases h
    rename_i m hw
    have hm : Serves config (s.withMem m).mem := hs.write (k := .w8) hw
    have hlast : (rest ++ [0#8]).length = rest.length + 1 := List.length_append
    obtain ⟨_, hread⟩ := writeBytes_frame (b := a) hm (by omega) (by omega) (by omega) h
    have hfirst : m.read8 a = some ch := hs.read_written (k := .w8) hw
    have hnext' : (a + 1#32 + 1#32).toNat = (a + 1#32).toNat + 1 := by
      rw [BitVec.toNat_add]
      exact Nat.mod_eq_of_lt (by simp only [BitVec.toNat_ofNat]; omega)
    have hrest := ih hm hzero.2 (by omega) (by omega) h (n - 1) (by omega) hnext'
    have hn1 : n - 1 + 1 = n := by omega
    rw [hn1] at hrest
    rw [cString, hread, Machine.withMem_mem, hfirst, Option.bind_some,
      if_neg (Ne.symm hzero.1), hrest]
    rfl

/-- A C string depends on its bytes alone. -/
theorem cString_congr {m m' : Memory}
    (h : ∀ i < n, m'.read8 (a + BitVec.ofNat 32 i) = m.read8 (a + BitVec.ofNat 32 i)) :
    cString m' a n = cString m a n := by
  induction n generalizing a with
  | zero => rfl
  | succ n ih =>
    have hzero : m'.read8 a = m.read8 a := by simpa using h 0 (by omega)
    have hrest : cString m' (a + 1#32) n = cString m (a + 1#32) n := by
      apply ih
      intro i hi
      have hnext : a + 1#32 + BitVec.ofNat 32 i = a + BitVec.ofNat 32 (i + 1) := by
        rw [BitVec.add_assoc, BitVec.add_comm 1#32, BitVec.ofNat_add]
      rw [hnext]
      exact h (i + 1) (by omega)
    rw [cString, cString, hzero, hrest]

/-- A word off the home directory. -/
theorem homeDir_write {m : Memory} {s : Machine Memory} (hs : Serves config s.mem) {x : Word}
    (hw : s.mem.write32 NandInit.kNandInitializedAddr x = some m) :
    homeDir (s.withMem m) = homeDir s := by
  unfold homeDir
  apply cString_congr
  intro i hi
  refine hs.frame8 (k := .w32) hw ?_
  have hflag : NandInit.kNandInitializedAddr.toNat = 0x80386848 := by decide
  have hhome : (NandInit.kNandHomeDirAddr + BitVec.ofNat 32 i).toNat = 0x80346D20 + i := by
    rw [BitVec.toNat_add]
    have : NandInit.kNandHomeDirAddr.toNat = 0x80346D20 := by decide
    simp only [BitVec.toNat_ofNat]
    omega
  have hbytes : Width.w32.bytes = 4 := rfl
  rw [hflag, hhome, hbytes]
  apply apart_of_mod <;> omega

/-- NANDInit with a register file and with a place for the string. -/
def Publishes (cpu : CpuPtr) (s : Machine Memory) : Prop :=
  cpu ≠ 0 ∧ s.mem.contains NandInit.kNandHomeDirAddr 30#64 = true

instance (cpu : CpuPtr) (s : Machine Memory) : Decidable (Publishes cpu s) :=
  inferInstanceAs (Decidable (_ ∧ _))

theorem nandInit_currentGameCode {s : Machine Memory} (hs : Serves config s.mem) :
    NandInit.currentGameCode s = .ret (currentGameCode (headerWord s)) s := by
  unfold NandInit.currentGameCode
  rw [bind_of (contains_apply _ _ s), hs.contains32]
  unfold headerWord
  cases hw : s.mem.read32 kDiscHeader with
  | none => rfl
  | some code =>
    have hvalid := isValidGameCode_iff code
    have hsome : currentGameCode (some code) = gameCode code := rfl
    rw [Option.isSome_some, Routine.ite_apply, if_pos rfl, bind_of (read32_ret hw),
      Routine.ite_apply, hsome, gameCode_eq]
    by_cases hall : ∀ ch ∈ codeBytes code, isAlphanumeric ch = true
    · rw [if_pos (hvalid.mpr hall), if_pos hall, pure_apply]
    · rw [if_neg (fun h => hall (hvalid.mp h)), if_neg hall]
      rfl

/-- NANDInit publishes the directory in which an open of the same state looks. -/
theorem nandInit_publishes {cpu : CpuPtr} {s s' : Machine Memory} (hs : Serves config s.mem)
    (hp : Publishes cpu s) (h : nandInit cpu s = .ret () s') :
    homeDir s' = some (currentDataDir (currentGameCode (headerWord s))) := by
  generalize hcode : currentGameCode (headerWord s) = code
  have hlen : (currentDataDir code).length + 1 = 30 := by rw [currentDataDir_length]
  unfold nandInit at h
  rw [Routine.ite_apply, if_neg hp.1, bind_of (nandInit_currentGameCode hs), hcode,
    currentNandDataDir_eq] at h
  unfold NandInit.writeGuestCString at h
  rw [hlen, bind_apply, bind_of (contains_apply _ _ s), hp.2, Routine.ite_apply, if_pos rfl,
    bind_apply] at h
  cases hwrite : NandInit.writeBytes NandInit.kNandHomeDirAddr (currentDataDir code ++ [0#8]) s with
  | stop e t =>
    rw [hwrite] at h
    cases h
  | call i t k =>
    rw [hwrite] at h
    cases h
  | ret u t =>
    rw [hwrite] at h
    have hhome : NandInit.kNandHomeDirAddr.toNat = 0x80346D20 := by decide
    have hstring : homeDir t = some (currentDataDir code) := by
      refine cString_written hs (zero_not_mem_dataDir code) ?_ ?_ ?_ hwrite
      · rw [hlen, hhome]
        decide
      · rw [hlen]
        decide
      · rw [currentDataDir_length]
        decide
    have ht : Serves config t.mem := by
      have hoff : OffHeader NandInit.kNandHomeDirAddr (currentDataDir code ++ [0#8]).length := by
        rw [List.length_append, currentDataDir_length]
        decide
      have hleaves := leavesHeader_writeBytes _ hoff s hs
      rw [hwrite] at hleaves
      exact hleaves.1
    rw [Coop.bind_ret, pure_apply, Coop.bind_ret, bind_of (contains_apply _ _ t),
      Routine.ite_apply] at h
    split at h
    · obtain ⟨_, rfl⟩ := Coop.ret.inj h
      exact hstring
    · rw [bind_apply, write32] at h
      split at h
      · cases h
      rename_i m hw
      obtain ⟨_, rfl⟩ := Coop.ret.inj h
      exact (homeDir_write ht hw).trans hstring

/-- A DVDInit that does more than return. -/
structure TakesEffect (initializing : Bool) (cpu : CpuPtr) (s : Machine Memory) : Prop where
  cpu_ne : cpu ≠ 0
  ranges : bootstrapRanges.all (fun r => s.mem.contains r.1 r.2) = true
  not_called : s.mem.read8 kDvdInitCalled = some 0
  not_initializing : initializing = false

/-- The ways of a DVDInit. -/
theorem dvdInit_cases (initializing : Bool) (cpu : CpuPtr) (s : Machine Memory) :
    (TakesEffect initializing cpu s ∧ dvdInit initializing cpu s = bootstrap cpu s) ∨
    (¬ TakesEffect initializing cpu s ∧ (dvdInit initializing cpu s = .ret () s ∨
      ∃ e, dvdInit initializing cpu s = .stop e s)) := by
  unfold dvdInit guestBootstrapRangesAvailable
  rw [Routine.ite_apply]
  by_cases hcpu : cpu = 0
  · rw [if_pos hcpu]
    exact Or.inr ⟨fun h => h.cpu_ne hcpu, Or.inl rfl⟩
  rw [if_neg hcpu, bind_of (Routine.gets_apply _ s)]
  cases hranges : bootstrapRanges.all fun r => s.mem.contains r.1 r.2 with
  | false =>
    refine Or.inr ⟨fun h => ?_, Or.inl rfl⟩
    have hall := h.ranges
    rw [hranges] at hall
    cases hall
  | true =>
    rw [Routine.ite_apply, if_pos rfl, bind_apply, read8]
    cases hcalled : s.mem.read8 kDvdInitCalled with
    | none =>
      refine Or.inr ⟨fun h => ?_, Or.inr ⟨_, rfl⟩⟩
      have hzero := h.not_called
      rw [hcalled] at hzero
      cases hzero
    | some called =>
      rw [Coop.bind_ret, Routine.ite_apply]
      by_cases hne : called ≠ 0
      · rw [if_pos hne]
        refine Or.inr ⟨fun h => hne ?_, Or.inl rfl⟩
        have hzero := h.not_called
        rwa [hcalled, Option.some.injEq] at hzero
      · rw [if_neg hne, Routine.ite_apply]
        obtain rfl : called = 0 := not_not.mp hne
        cases initializing with
        | true => exact Or.inr ⟨fun h => (by cases h.not_initializing), Or.inl rfl⟩
        | false => exact Or.inl ⟨⟨hcpu, hranges, hcalled, rfl⟩, rfl⟩

end

/-! ## Runs -/

/-- The machine, the home directory that the last NANDInit published, and a DVDInit that waits
for the translated `__DVDFSInit`. -/
structure TitleState where
  machine : Machine Memory
  published : Option (List Byte)
  pending : Option (Machine Memory → Coop (Machine Memory) Stop Away Unit)

inductive TitleCall where
  | nandInit (cpu : CpuPtr)
  | dvdInit (cpu : CpuPtr)
  | dvdReturn
  | nandOpen (pathPtr fileInfoPtr mode : Word)
  | other

/-- One step. An open writes its result elsewhere than into the word of the disc header, and
so does all other code. -/
inductive TitleStep (config : List RegionConfig) : TitleState → TitleCall → TitleState → Prop
  | nandInit {st : TitleState} {s' : Machine Memory} {cpu : CpuPtr} :
    nandInit cpu st.machine = .ret () s' → TitleStep config st (.nandInit cpu)
      ⟨s', if Publishes cpu st.machine then homeDir s' else st.published, st.pending⟩
  | dvdInit {st : TitleState} {s' : Machine Memory} {cpu : CpuPtr} :
    dvdInit st.pending.isSome cpu st.machine = .ret () s' →
    TitleStep config st (.dvdInit cpu) ⟨s', st.published, st.pending⟩
  | dvdCall {st : TitleState} {s' : Machine Memory} {cpu : CpuPtr} {away : Away}
    {k : Machine Memory → Coop (Machine Memory) Stop Away Unit} :
    dvdInit st.pending.isSome cpu st.machine = .call away s' k →
    TitleStep config st (.dvdInit cpu) ⟨s', st.published, some k⟩
  | dvdReturn {st : TitleState} {s' : Machine Memory}
    {k : Machine Memory → Coop (Machine Memory) Stop Away Unit} :
    st.pending = some k → k st.machine = .ret () s' →
    TitleStep config st .dvdReturn ⟨s', st.published, none⟩
  | nandOpen {st : TitleState} {s' : Machine Memory} {pathPtr fileInfoPtr mode result : Word} :
    Nand.openSync pathPtr fileInfoPtr mode st.machine = .ret result s' → Serves config s'.mem →
    headerWord s' = headerWord st.machine →
    TitleStep config st (.nandOpen pathPtr fileInfoPtr mode) ⟨s', st.published, st.pending⟩
  | other {st : TitleState} {s' : Machine Memory} : Serves config s'.mem →
    headerWord s' = headerWord st.machine →
    TitleStep config st .other ⟨s', st.published, st.pending⟩

/-- The directory in which an open resolves a relative path. -/
def opensIn (s : Machine Memory) : List Byte := currentDataDir (currentGameCode (headerWord s))

/-- What was published is where the opens look. -/
def OneDirectory (st : TitleState) : Prop :=
  ∀ dir, st.published = some dir → dir = opensIn st.machine

/-- A DVDInit takes effect behind a NANDInit, on a code with a lower-case letter. -/
def Spoils (st : TitleState) : TitleCall → Prop
  | .dvdInit cpu => TakesEffect st.pending.isSome cpu st.machine ∧ st.published.isSome = true ∧
      ∃ code, headerWord st.machine = some code ∧ IsLowerCode code
  | _ => False

/-- The runs whose steps are all as `ok` says. -/
inductive TitleRun (config : List RegionConfig) (ok : TitleState → TitleCall → Prop) :
    TitleState → Prop
  | start {s : Machine Memory} : Serves config s.mem → TitleRun config ok ⟨s, none, none⟩
  | step {st st' : TitleState} {call : TitleCall} : TitleRun config ok st →
    TitleStep config st call st' → ok st call → TitleRun config ok st'

section

variable {config : List RegionConfig} {st st' : TitleState} {call : TitleCall}

/-- The memory serves its configuration, and a waiting DVDInit keeps the word that it wrote. -/
structure Settled (config : List RegionConfig) (st : TitleState) : Prop where
  serves : Serves config st.machine.mem
  pending : ∀ k, st.pending = some k → ∃ w, headerWord st.machine = some w ∧
    ∀ s, Serves config s.mem → headerWord s = some w →
    (k s).Meets (HeaderIs config w) fun _ s' =>
      Serves config s'.mem ∧ headerWord s' = some w

theorem OneDirectory.congr (h : OneDirectory st) (hpub : st'.published = st.published)
    (hword : headerWord st'.machine = headerWord st.machine) : OneDirectory st' := by
  intro dir hdir
  unfold opensIn
  rw [hword]
  exact h dir (hpub ▸ hdir)

/-- The word of an effective DVDInit is mapped. -/
theorem TakesEffect.header {initializing : Bool} {cpu : CpuPtr} {s : Machine Memory}
    (h : TakesEffect initializing cpu s) (hs : Serves config s.mem) : ∃ w,
    headerWord s = some w := by
  have hrange := List.all_eq_true.mp h.ranges (0x80000000#32, 7#64) (by simp [bootstrapRanges])
  have hseven := (hs.contains_iff 0x80000000#32 (n := 7) (by omega) (by omega)).mp hrange
  obtain ⟨r, hr, hcovers⟩ := hseven
  have hfour : InOneRegion config (0x80000000#32 : Word).toNat 4 :=
    ⟨r, hr, hcovers.1, by have := hcovers.2; omega⟩
  exact hs.read32_some hfour

/-- What an effective DVDInit does to the directory of the opens. -/
theorem oneDirectory_dvdInit {w : Word} (h : OneDirectory st) (hw : headerWord st.machine = some w)
    (hpub : st'.published = st.published)
    (hw' : headerWord st'.machine = some (discGameCode w)) :
    OneDirectory st' ↔ ¬ (st.published.isSome = true ∧ IsLowerCode w) := by
  have hopens : opensIn st.machine = currentDataDir (gameCode w) := by
    unfold opensIn
    rw [hw]
    rfl
  have hopens' : opensIn st'.machine = currentDataDir (gameCode (discGameCode w)) := by
    unfold opensIn
    rw [hw']
    rfl
  unfold OneDirectory at h ⊢
  rw [hopens', hpub]
  rw [hopens] at h
  constructor
  · rintro hone ⟨hsome, hlower⟩
    obtain ⟨dir, hdir⟩ := Option.isSome_iff_exists.mp hsome
    obtain ⟨hdisc, hcode, hne⟩ := gameCode_of_lower hlower
    have hsame := currentDataDir_inj ((h dir hdir).symm.trans (hone dir hdir))
    rw [hdisc, hcode] at hsame
    exact hne hsame
  · intro hnot dir hdir
    have hlower : ¬ IsLowerCode w := fun hlower => hnot ⟨by rw [hdir]; rfl, hlower⟩
    rw [gameCode_discGameCode hlower]
    exact h dir hdir

/-- One step keeps the state settled, and the directory unless it spoils it. -/
theorem Settled.step (hst : Settled config st) (hone : OneDirectory st)
    (h : TitleStep config st call st') :
    Settled config st' ∧ (OneDirectory st' ↔ ¬ Spoils st call) := by
  have hsame : ∀ {st' : TitleState}, Serves config st'.machine.mem →
      headerWord st'.machine = headerWord st.machine → st'.pending = st.pending →
      Settled config st' := by
    intro st' hs hw hp
    refine ⟨hs, fun k hk => ?_⟩
    rw [hw]
    exact hst.pending k (hp ▸ hk)
  cases h with
  | @nandInit s' cpu hrun =>
    have hleaves := leavesHeader_nandInit cpu st.machine hst.serves
    rw [hrun] at hleaves
    refine ⟨hsame hleaves.1 hleaves.2 rfl, iff_of_true ?_ not_false⟩
    intro dir hdir
    have hopens : opensIn s' = opensIn st.machine := by
      unfold opensIn
      rw [hleaves.2]
    rw [hopens]
    dsimp only at hdir
    split at hdir
    · rename_i hp
      rw [nandInit_publishes hst.serves hp hrun] at hdir
      exact (Option.some.inj hdir).symm
    · exact hone dir hdir
  | @dvdInit s' cpu hrun =>
    rcases dvdInit_cases st.pending.isSome cpu st.machine with ⟨heff, heq⟩ | ⟨hnot, heq⟩
    · obtain ⟨w, hw⟩ := heff.header hst.serves
      have hmeets := meets_bootstrap hst.serves hw cpu
      rw [← heq, hrun] at hmeets
      have hnone : st.pending = none := by
        have := heff.not_initializing
        simpa using this
      refine ⟨⟨hmeets.1, fun k hk => by rw [hnone] at hk; cases hk⟩, ?_⟩
      refine Iff.trans (oneDirectory_dvdInit hone hw rfl hmeets.2) ?_
      refine not_congr ⟨fun hp => ⟨heff, hp.1, w, hw, hp.2⟩, ?_⟩
      rintro ⟨_, hpub, code, hcode, hlower⟩
      obtain rfl := Option.some.inj (hw.symm.trans hcode)
      exact ⟨hpub, hlower⟩
    · rw [hrun] at heq
      obtain rfl : s' = st.machine := by
        rcases heq with heq | ⟨e, heq⟩
        · exact (Coop.ret.inj heq).2
        · cases heq
      refine ⟨hsame hst.serves rfl rfl, iff_of_true ?_ fun hs => hnot hs.1⟩
      exact hone.congr rfl rfl
  | @dvdCall s' cpu away k hrun =>
    rcases dvdInit_cases st.pending.isSome cpu st.machine with ⟨heff, heq⟩ | ⟨hnot, heq⟩
    · obtain ⟨w, hw⟩ := heff.header hst.serves
      have hmeets := meets_bootstrap hst.serves hw cpu
      rw [← heq, hrun] at hmeets
      obtain ⟨⟨hs', hw'⟩, hk⟩ := hmeets
      refine ⟨⟨hs', fun k' hk' => ?_⟩, ?_⟩
      · obtain rfl := Option.some.inj hk'
        exact ⟨_, hw', fun s hs hword => hk s ⟨hs, hword⟩⟩
      refine Iff.trans (oneDirectory_dvdInit hone hw rfl hw') ?_
      refine not_congr ⟨fun hp => ⟨heff, hp.1, w, hw, hp.2⟩, ?_⟩
      rintro ⟨_, hpub, code, hcode, hlower⟩
      obtain rfl := Option.some.inj (hw.symm.trans hcode)
      exact ⟨hpub, hlower⟩
    · rw [hrun] at heq
      rcases heq with heq | ⟨e, heq⟩
      · cases heq
      · cases heq
  | @dvdReturn s' k hk hrun =>
    obtain ⟨w, hw, hmeets⟩ := hst.pending k hk
    have hret := hmeets st.machine hst.serves hw
    rw [hrun] at hret
    refine ⟨⟨hret.1, fun _ h => by cases h⟩, iff_of_true ?_ not_false⟩
    exact hone.congr rfl (hret.2.trans hw.symm)
  | nandOpen _ hs hw =>
    exact ⟨hsame hs hw rfl, iff_of_true (hone.congr rfl hw) not_false⟩
  | other hs hw =>
    exact ⟨hsame hs hw rfl, iff_of_true (hone.congr rfl hw) not_false⟩

theorem TitleRun.settled (h : TitleRun config (fun st call => ¬ Spoils st call) st) :
    Settled config st ∧ OneDirectory st := by
  induction h with
  | start hs => exact ⟨⟨hs, fun _ h => by cases h⟩, fun _ h => by cases h⟩
  | step _ hstep hnot ih =>
    obtain ⟨hst, hone⟩ := ih.1.step ih.2 hstep
    exact ⟨hst, hone.mpr hnot⟩

end

/-! ## A code in lower case -/

/-- NANDInit and then DVDInit on a Wii whose disc header says `rmcp`. -/
def lowerCaseBoot : Option (Memory × Memory × Machine Memory × Machine Memory) := do
  let m ← wiiBoot
  let m₁ ← m.write32 kDiscHeader 0x726D6370#32
  let (_, s₁) ← (nandInit 1 (bootMachine m₁)).ended
  let (_, s₂) ← (dvdInit false 1 s₁).ended
  return (m, m₁, s₁, s₂)

theorem lowerCaseBoot_reads : (lowerCaseBoot.map fun r => decide (
      Publishes 1 (bootMachine r.2.1) ∧
      homeDir r.2.2.1 = some (currentDataDir 0x726D6370#32) ∧
      headerWord r.2.2.2 = some kFallbackGameCode)) = some true := by
  decide +kernel

/-- The two calls as steps from that Wii. -/
theorem lowerCaseBoot_steps : ∃ s s₁ s₂ : Machine Memory, Serves wiiDefaults s.mem ∧
    TitleStep wiiDefaults ⟨s, none, none⟩ (.nandInit 1)
      ⟨s₁, some (currentDataDir 0x726D6370#32), none⟩ ∧
    TitleStep wiiDefaults ⟨s₁, some (currentDataDir 0x726D6370#32), none⟩ (.dvdInit 1)
      ⟨s₂, some (currentDataDir 0x726D6370#32), none⟩ ∧
    headerWord s₂ = some kFallbackGameCode := by
  obtain ⟨⟨_, _, _, _⟩, hsome, hread⟩ := Option.map_eq_some_iff.mp lowerCaseBoot_reads
  obtain ⟨hpublishes, hhome, hheader⟩ := of_decide_eq_true hread
  simp only [lowerCaseBoot, Option.bind_eq_bind, Option.bind_eq_some_iff, Prod.exists,
    Option.pure_def, Option.some.injEq, Prod.mk.injEq] at hsome
  obtain ⟨m, hboot, m₁, hwrite, _, s₁, hnand, _, s₂, hdvd, rfl, rfl, rfl, rfl⟩ := hsome
  have hserves : Serves wiiDefaults m₁ := (wiiBoot_serves hboot).write32 hwrite
  have hstep : TitleStep wiiDefaults ⟨bootMachine m₁, none, none⟩ (.nandInit 1) _ :=
    .nandInit (Coop.ret_of_ended hnand)
  rw [if_pos hpublishes, hhome] at hstep
  exact ⟨bootMachine m₁, s₁, s₂, hserves, hstep,
    .dvdInit (Coop.ret_of_ended hdvd), hheader⟩

end wii_switch
