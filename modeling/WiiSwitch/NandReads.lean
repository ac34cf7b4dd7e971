-- What the guest reads from its files (source/switch_nand_open_runtime.cpp). The host reads a
-- stream in pieces, and the runtime has an fd for the stream. On a host that gives of each file
-- what comes next, the pieces that the guest finds in its buffers behind the reads of one fd are
-- the beginning of the file that the fd was opened on.
import WiiSwitch.NandFileRuns
import WiiSwitch.ZeroLoops
import WiiSwitch.Lib.Cursors
import Mathlib.Data.List.GetD

namespace wii_switch

open Bytes OS Routine

/-! ## What the guest and the host see -/

abbrev GuestEntry := Cursors.Entry Word HostPath Byte
abbrev HostEntry := Cursors.Entry Stream HostPath Byte

/-- The string of the guest, as a host path. -/
def readPath (pathPtr : Word) : OS HostPath := do
  match ← Nand.readGuestCString pathPtr with
  | none => return []
  | some path => Nand.hostPathOf path

/-- The path that a guest string names. -/
def guestPath (pathPtr : Word) (s : Machine Memory) : HostPath :=
  match readPath pathPtr s with
  | .ret path _ => path
  | _ => []

/-- The word that the guest finds at an address. -/
def guestWord (m : Memory) (a : Word) : Word := (m.read32 a).getD 0#32

/-- The bytes that the guest finds from an address on. -/
def guestBytes (m : Memory) (a : Word) (n : Nat) : List Byte :=
  (List.range n).map fun i => (m.read8 (a + BitVec.ofNat 32 i)).getD 0#8

/-- What a call shows the guest: an open gives it an fd for its path, and a read that is not
refused leaves bytes in its buffer. -/
def NandCall.notes : NandCall → Machine Memory → Word → Machine Memory → List GuestEntry
  | .openSync pathPtr fileInfoPtr _, s, r, s' =>
    if r = Nand.kResultOk then [.opened (guestWord s'.mem fileInfoPtr) (guestPath pathPtr s)]
    else []
  | .readSync fileInfoPtr bufferPtr _, s, r, s' =>
    if r.slt 0#32 then []
    else [.took (guestWord s.mem fileInfoPtr) (guestBytes s'.mem bufferPtr r.toNat)]
  | .closeSync _, _, _, _ => []

/-- What an event of a call from `s` shows the host. -/
def hostEntry (s : Machine Memory) : FileEvent → Option HostEntry
  | .fopen path _ file => if file = 0 then none else some (.opened file path)
  | .fread file length => some (.took file ((s.nand.answers s.nand.asked).bytes.take length.toNat))
  | .issue _ _ => none
  | .fclose _ => none

/-- The calls of a process on a host that reads its files as they are: with the calls, what the
guest saw and what the host saw, newest first. -/
inductive FileRun (config : List RegionConfig) (files : HostPath → List Byte) :
    List NandCall → List GuestEntry → List HostEntry → Machine Memory → Prop
  | start {s : Machine Memory} {answers : Nat → HostAnswer} : Serves config s.mem →
    s.nand = .start answers → FileRun config files [] [] [] s
  | other {l : List NandCall} {g : List GuestEntry} {h : List HostEntry} {s s' : Machine Memory} :
    FileRun config files l g h s → Serves config s'.mem → s'.nand = s.nand →
    FileRun config files l g h s'
  | call {l : List NandCall} {g : List GuestEntry} {h : List HostEntry} {s s' : Machine Memory}
    {c : NandCall} {r : Word} {new : List FileEvent} :
    FileRun config files l g h s → ClosesWell c s → c.run s = .ret r s' →
    s'.nand.events = new ++ s.nand.events →
    Cursors.Faithful files (new.filterMap (hostEntry s) ++ h) →
    FileRun config files (c :: l) (c.notes s r s' ++ g) (new.filterMap (hostEntry s) ++ h) s'

/-! ## Stores through a host pointer -/

/-- The bytes lie at the address and nothing else changed. -/
structure Puts (config : List RegionConfig) (a : Nat) (bytes : List Byte) (m m' : Memory) :
    Prop where
  stored : ∀ i (hi : i < bytes.length), ∀ y : Word, SameByte config (a + i) y.toNat →
    m'.read8 y = some bytes[i]
  kept : ∀ y : Word, (∀ i < bytes.length, ¬SameByte config (a + i) y.toNat) →
    m'.read8 y = m.read8 y

section

variable {config : List RegionConfig} {m m' : Memory} {a : Word} {bytes : List Byte}

/-- A store of no bytes. -/
theorem Host.store_nothing {h : Host} {p : HostPtr} {b : Block} (hb : h.blocks p.block = some b)
    (hle : p.off ≤ b.size) (f : Nat → Byte) : h.store p 0 f = some h := by
  refine Host.store_iff.mpr ⟨b, hb, hle, ?_⟩
  have hput : b.put p.off 0 f = b := by
    unfold Block.put
    congr 1
    funext i
    exact if_neg (by omega)
  rw [hput, ← hb, Function.update_eq_self]

/-- The host keeps the bytes of the buffer where the guest reads them. -/
theorem Serves.puts (hs : Serves config m) {n : Nat} (hn : 0 < n)
    (hin : InOneRegion config a.toNat n) (hle : bytes.length ≤ n) :
    ∃ p host, m.getPointer a 1#64 = some p ∧
      m.host.store p bytes.length (fun i => bytes.getD i 0) = some host ∧
      Serves config { m with host := host } ∧
      Puts config a.toNat bytes m { m with host := host } := by
  obtain ⟨block, f, hm⟩ := hs.holds
  have hc := hs.admissible
  obtain ⟨r, hr, hcov⟩ := hin
  have hone : r.Covers a.toNat 1 := ⟨hcov.1, by have := hcov.2; omega⟩
  have hp := (getPointer_laid hc hm.laid a Nat.one_pos (by omega) (byteAt block r a.toNat)).mpr
    ⟨r, hr, hone, rfl⟩
  by_cases hnil : bytes.length = 0
  · obtain ⟨b, hb, hroom⟩ := hm.laid.room hr hone Nat.one_pos
    refine ⟨_, m.host, hp, ?_, hs, ?_⟩
    · rw [hnil]
      exact Host.store_nothing hb (by omega) _
    · exact ⟨fun i hi => absurd hi (by omega), fun y _ => rfl⟩
  have hcov' : r.Covers a.toNat bytes.length := ⟨hcov.1, by have := hcov.2; omega⟩
  obtain ⟨host, hstore, hlaid, hbyte⟩ := store_holds hc hm hr hcov' (Nat.pos_of_ne_zero hnil)
    fun i => bytes.getD i 0
  classical
  have hm' : Holds config block { m with host := host } fun b =>
      if hsame : ∃ i < bytes.length, SameByte config (a.toNat + i) b
        then bytes.getD hsame.choose 0
      else f b := by
    refine ⟨hlaid, fun q hq b hb => ?_⟩
    obtain ⟨hstored, hkept⟩ := hbyte q hq b hb
    split
    case isTrue hsame => exact hstored _ hsame.choose_spec.1 hsame.choose_spec.2
    case isFalse hother =>
      push Not at hother
      exact hkept hother
  refine ⟨_, host, hp, hstore, ⟨hc, block, _, hm'⟩, ?_⟩
  constructor
  case stored =>
    intro i hi y hsame
    have hy : InOneRegion config y.toNat 1 := hsame.mapped ⟨r, hr, hcov'.has hi⟩
    rw [holds_read8 hc hm' hy]
    obtain ⟨q, hq, hqy⟩ := hy
    have hhas := hqy.has (Nat.lt_succ_self 0)
    rw [← hm'.bytes q hq y.toNat hhas]
    have hbyte' := (hbyte q hq y.toNat hhas).1 i hi hsame
    rw [List.getD_eq_getElem _ _ hi] at hbyte'
    exact congrArg some hbyte'
  case kept =>
    intro y hother
    refine read8_frame hc hm hm' y (dif_neg ?_)
    push Not
    exact hother

/-- What the guest finds in the buffer. -/
theorem Puts.guestBytes (h : Puts config a.toNat bytes m m')
    (hroom : a.toNat + bytes.length ≤ 2 ^ 32) : guestBytes m' a bytes.length = bytes := by
  apply List.ext_getElem
  · simp [wii_switch.guestBytes]
  intro i hi hi'
  have hadd : (a + BitVec.ofNat 32 i).toNat = a.toNat + i := by
    rw [BitVec.toNat_add, BitVec.toNat_ofNat]
    omega
  have hread := h.stored i hi' (a + BitVec.ofNat 32 i) (Or.inl hadd.symm)
  simp [wii_switch.guestBytes, hread]

end

/-! ## One call -/

section

variable {config : List RegionConfig} {s s' : Machine Memory} {r : Word}

/-- A read that the runtime makes, of the stream of an fd. -/
structure ReadsStream (config : List RegionConfig) (fileInfoPtr bufferPtr length : Word)
    (s s' : Machine Memory) (r fd : Word) (handle : FileHandle) (bytes : List Byte) : Prop where
  word : s.mem.read32 fileInfoPtr = some fd
  entry : s.nand.fileHandles fd = some handle
  given : bytes = (s.nand.answers s.nand.asked).bytes.take length.toNat
  result : r = BitVec.ofNat 32 bytes.length
  short : bytes.length < 2 ^ 31
  room : bufferPtr.toNat + bytes.length ≤ 2 ^ 32
  nand : s'.nand = { s.nand with
    asked := s.nand.asked + 1
    events := .fread handle.file length :: s.nand.events }
  serves : Serves config s'.mem
  puts : Puts config bufferPtr.toNat bytes s.mem s'.mem

theorem ReadsStream.result_toNat {fileInfoPtr bufferPtr length fd : Word} {handle : FileHandle}
    {bytes : List Byte}
    (h : ReadsStream config fileInfoPtr bufferPtr length s s' r fd handle bytes) :
    r.toNat = bytes.length := by
  have := h.short
  rw [h.result, BitVec.toNat_ofNat]
  omega

/-- The result is no error code. -/
theorem ReadsStream.result_nonneg {fileInfoPtr bufferPtr length fd : Word} {handle : FileHandle}
    {bytes : List Byte}
    (h : ReadsStream config fileInfoPtr bufferPtr length s s' r fd handle bytes) :
    0 ≤ r.toInt := by
  have hshort := h.short
  rw [← h.result_toNat] at hshort
  rw [BitVec.toInt_eq_toNat_of_lt (by omega)]
  exact Int.natCast_nonneg _

/-- The writes of each width go through as the memory does. -/
theorem write_ret_iff {x : OS Unit} {o : Option Memory} {a : Word}
    (hx : x s = match o with
      | none => .stop (.memoryFault a) s
      | some m => .ret () (s.withMem m)) :
    x s = .ret () s' ↔ ∃ m, o = some m ∧ s' = s.withMem m := by
  rw [hx]
  cases o with
  | none => simp
  | some m => simp [eq_comm]

theorem read32_eq_ret {a x : Word} (h : read32 a s = .ret x s') :
    s.mem.read32 a = some x ∧ s' = s := by
  unfold read32 at h
  cases hread : s.mem.read32 a with
  | none =>
    rw [hread] at h
    cases h
  | some y =>
    rw [hread] at h
    injection h with hx hs
    rw [hx]
    exact ⟨rfl, hs.symm⟩

/-- The buffer lies in one region. -/
theorem buffer_room (hs : Serves config s.mem) {bufferPtr length : Word}
    (hroom : s.mem.contains bufferPtr (if length = 0 then 1#64 else length.setWidth 64) = true) :
    ∃ n, 0 < n ∧ length.toNat ≤ n ∧ n < 2 ^ 31 ∧
    InOneRegion config bufferPtr.toNat n := by
  have hall : ∀ n, 0 < n → n ≤ 0x100000000 →
    s.mem.contains bufferPtr (BitVec.ofNat 64 n) = true →
      n < 2 ^ 31 ∧ InOneRegion config bufferPtr.toNat n := by
    intro n hn hle hcontains
    have hin := (hs.contains_iff bufferPtr hn hle).mp hcontains
    refine ⟨?_, hin⟩
    obtain ⟨q, hq, hlow, hhigh⟩ := hin
    have hsize := hs.admissible.mod_add_le hq
    omega
  by_cases hzero : length = 0
  · rw [if_pos hzero] at hroom
    exact ⟨1, Nat.one_pos, by rw [hzero]; decide, hall 1 Nat.one_pos (by omega) hroom⟩
  · rw [if_neg hzero] at hroom
    have hpos : 0 < length.toNat := Nat.pos_of_ne_zero fun h => hzero (BitVec.eq_of_toNat_eq h)
    have hwide : length.setWidth 64 = BitVec.ofNat 64 length.toNat := by simp [BitVec.ofNat_toNat]
    rw [hwide] at hroom
    exact ⟨length.toNat, hpos, le_rfl, hall _ hpos (Nat.le_of_lt length.isLt) hroom⟩

/-- The host reads into the buffer. -/
theorem fread_ret {p : HostPtr} {length : Word} {file : Stream} {bytes : List Byte} {host : Host}
    (hgiven : bytes = (s.nand.answers s.nand.asked).bytes.take length.toNat)
    (hstore : s.mem.host.store p bytes.length (fun i => bytes.getD i 0) = some host) :
    Nand.fread p length file s = .ret (BitVec.ofNat 32 bytes.length)
      { s with
        mem := { s.mem with host := host }
        nand := { s.nand with
          asked := s.nand.asked + 1
          events := .fread file length :: s.nand.events } } := by
  subst hgiven
  have hask : Nand.ask s = .ret (s.nand.answers s.nand.asked)
      { s with nand := { s.nand with asked := s.nand.asked + 1 } } := rfl
  unfold Nand.fread
  rw [Routine.bind_of hask]
  unfold Nand.record
  rw [Routine.bind_of (Nand.modify_apply _ _)]
  refine (Routine.bind_of (a := ()) ?_).trans rfl
  simp only [hstore]
  rfl

/-- A read is refused, or it reads the stream of the fd into the buffer. -/
theorem readSync_ends (hs : Serves config s.mem) {fileInfoPtr bufferPtr length : Word}
    (hret : Nand.readSync fileInfoPtr bufferPtr length s = .ret r s') :
    (r = Nand.kResultInvalid ∧ s' = s) ∨
      ∃ fd handle bytes,
        ReadsStream config fileInfoPtr bufferPtr length s s' r fd handle bytes := by
  unfold Nand.readSync at hret
  rw [bind_apply, contains_apply, Coop.bind_ret, bind_apply, contains_apply, Coop.bind_ret,
    Routine.ite_apply] at hret
  by_cases hbad : fileInfoPtr = 0 ∨ s.mem.contains fileInfoPtr 4#64 = false ∨ bufferPtr = 0 ∨
      s.mem.contains bufferPtr (if length = 0 then 1#64 else length.setWidth 64) = false
  · rw [if_pos hbad] at hret
    injection hret with hr ht
    exact Or.inl ⟨hr.symm, ht.symm⟩
  · rw [if_neg hbad] at hret
    push Not at hbad
    obtain ⟨_, _, _, hroom⟩ := hbad
    obtain ⟨n, hn, hle, hsmall, hin⟩ := buffer_room hs (Bool.of_not_eq_false hroom)
    rw [bind_apply, gets_apply, Coop.bind_ret] at hret
    have hlen : ((s.nand.answers s.nand.asked).bytes.take length.toNat).length ≤ n :=
      (List.length_take_le _ _).trans hle
    obtain ⟨p, host, hp, hstore, hserves, hputs⟩ := hs.puts hn hin hlen
    rw [hp] at hret
    dsimp only at hret
    obtain ⟨fd, u, hload, hrest⟩ := Routine.bind_eq_ret hret
    obtain ⟨hword, hu⟩ := read32_eq_ret hload
    rw [hu, bind_apply, Nand.gets_apply, Coop.bind_ret] at hrest
    cases hentry : s.nand.fileHandles fd with
    | none =>
      rw [hentry] at hrest
      injection hrest with hr ht
      exact Or.inl ⟨hr.symm, ht.symm⟩
    | some handle =>
      rw [hentry] at hrest
      dsimp only at hrest
      by_cases hnull : handle.file = 0
      · rw [if_pos hnull] at hrest
        injection hrest with hr ht
        exact Or.inl ⟨hr.symm, ht.symm⟩
      · rw [if_neg hnull] at hrest
        rw [fread_ret rfl hstore] at hrest
        injection hrest with hr ht
        refine Or.inr ⟨fd, handle, _, hword, hentry, rfl, hr.symm, by omega, ?_, ?_, ?_, ?_⟩
        · obtain ⟨q, hq, hlow, hhigh⟩ := hin
          have hend := hs.admissible.end_le hq
          omega
        · rw [← ht]
        · rw [← ht]
          exact hserves
        · rw [← ht]
          exact hputs

theorem read8_eq_ret {a : Word} {x : Byte} (h : read8 a s = .ret x s') : s' = s := by
  unfold read8 at h
  cases hread : s.mem.read8 a with
  | none =>
    rw [hread] at h
    cases h
  | some y =>
    rw [hread] at h
    injection h with _ hs
    exact hs.symm

/-- A guest string is only read. -/
theorem readCString_eq_ret {n : Nat} {a : Word} {o : Option (List Byte)}
    (h : Nand.readCString a n s = .ret o s') : s' = s := by
  induction n generalizing a o s' with
  | zero =>
    injection h with _ hs
    exact hs.symm
  | succ n ih =>
    unfold Nand.readCString at h
    rw [bind_apply, contains_apply, Coop.bind_ret, Routine.ite_apply] at h
    split at h
    · obtain ⟨ch, u, hch, h⟩ := Routine.bind_eq_ret h
      rw [read8_eq_ret hch, Routine.ite_apply] at h
      split at h
      · injection h with _ hs
        exact hs.symm
      · obtain ⟨rest, t, hrest, h⟩ := Routine.bind_eq_ret h
        injection h with _ hs
        rw [← hs]
        exact ih hrest
    · injection h with _ hs
      exact hs.symm

theorem readGuestCString_eq_ret {a : Word} {o : Option (List Byte)}
    (h : Nand.readGuestCString a s = .ret o s') : s' = s := by
  unfold Nand.readGuestCString at h
  rw [Routine.ite_apply] at h
  split at h
  · injection h with _ hs
    exact hs.symm
  · obtain ⟨out, u, hout, h⟩ := Routine.bind_eq_ret h
    injection h with _ hs
    rw [← hs]
    exact readCString_eq_ret hout

/-- The host was asked for streams, and the table is as it was. -/
structure Asked (s s' : Machine Memory) (new : List FileEvent) (seen : List HostEntry) : Prop where
  mem : s'.mem = s.mem
  handles : s'.nand.fileHandles = s.nand.fileHandles
  fd : s'.nand.nextFd = s.nand.nextFd
  stream : s.nand.nextStream ≤ s'.nand.nextStream
  events : s'.nand.events = new ++ s.nand.events
  seen : ∀ t, new.filterMap (hostEntry t) = seen

/-- What the host sees of an open. -/
def openedAs (path : HostPath) (file : Stream) : List HostEntry :=
  if file = 0 then [] else [.opened file path]

/-- The host opens a stream of its own, or none. -/
theorem fopen_ends {path : HostPath} {mode : OpenMode} {file : Stream}
    (h : Nand.fopen path mode s = .ret file s') :
    (∃ new, Asked s s' new (openedAs path file)) ∧
    (file ≠ 0 → s.nand.nextStream ≤ file) := by
  unfold Nand.fopen Nand.record at h
  have hask : Nand.ask s = .ret (s.nand.answers s.nand.asked)
      { s with nand := { s.nand with asked := s.nand.asked + 1 } } := rfl
  rw [Routine.bind_of hask] at h
  cases hfails : (s.nand.answers s.nand.asked).fails with
  | true =>
    rw [hfails] at h
    injection h with hfile hs
    subst hfile hs
    refine ⟨⟨[.fopen path mode 0], rfl, rfl, rfl, le_rfl, rfl, fun _ => rfl⟩, ?_⟩
    exact fun hno => absurd rfl hno
  | false =>
    rw [hfails] at h
    injection h with hfile hs
    subst hfile hs
    refine ⟨⟨[.fopen path mode s.nand.nextStream], rfl, rfl, rfl, ?_, rfl, fun t => ?_⟩, ?_⟩
    · dsimp only
      split
      · exact le_rfl
      · exact Nat.le_succ _
    · unfold openedAs
      by_cases hzero : s.nand.nextStream = 0
      · simp [hostEntry, hzero]
      · simp [hostEntry, hzero]
    · exact fun _ => le_rfl

theorem openHost_ends {path : HostPath} {mode : Word} {file : Stream}
    (h : Nand.openHost path mode s = .ret file s') :
    (∃ new, Asked s s' new (openedAs path file)) ∧
    (file ≠ 0 → s.nand.nextStream ≤ file) := by
  unfold Nand.openHost at h
  rw [Routine.ite_apply] at h
  split at h
  · exact fopen_ends h
  · obtain ⟨first, u, hfirst, h⟩ := Routine.bind_eq_ret h
    obtain ⟨⟨new, hasked⟩, hle⟩ := fopen_ends hfirst
    rw [Routine.ite_apply] at h
    split at h
    · injection h with hfile hs
      subst hfile hs
      exact ⟨⟨new, hasked⟩, hle⟩
    · rename_i hzero
      obtain ⟨⟨new', hasked'⟩, hle'⟩ := fopen_ends h
      refine ⟨⟨new' ++ new, ?_⟩, fun hne => hasked.stream.trans (hle' hne)⟩
      constructor
      case mem => rw [hasked'.mem, hasked.mem]
      case handles => rw [hasked'.handles, hasked.handles]
      case fd => rw [hasked'.fd, hasked.fd]
      case stream => exact hasked.stream.trans hasked'.stream
      case events => rw [hasked'.events, hasked.events, List.append_assoc]
      case seen =>
        intro t
        rw [List.filterMap_append, hasked'.seen, hasked.seen]
        simp [openedAs, not_not.mp hzero]

/-- An open that gives the guest an fd for a stream of its own. -/
structure OpensStream (pathPtr fileInfoPtr : Word) (s s' : Machine Memory) (r fd : Word)
    (handle : FileHandle) (new : List FileEvent) : Prop where
  result : r = Nand.kResultOk
  number : fd = s.nand.nextFd
  word : guestWord s'.mem fileInfoPtr = fd
  path : handle.path = guestPath pathPtr s
  stream : s.nand.nextStream ≤ handle.file
  table : s'.nand.fileHandles = fun k =>
    if k = fd ∧ s.nand.fileHandles fd = none then some handle else s.nand.fileHandles k
  issued : fd ∈ issued new
  seen : ∀ t, new.filterMap (hostEntry t) = [.opened handle.file handle.path]

/-- An open that gives the guest nothing. The host may have opened a stream. -/
structure OpensNothing (s s' : Machine Memory) (r : Word) (new : List FileEvent) : Prop where
  result : r ≠ Nand.kResultOk
  table : s'.nand.fileHandles = s.nand.fileHandles
  seen : (∀ t, new.filterMap (hostEntry t) = []) ∨ ∃ file path, s.nand.nextStream ≤ file ∧
    ∀ t, new.filterMap (hostEntry t) = [.opened file path]

theorem write32_eq_ret {a x : Word} (h : write32 a x s = .ret () s') :
    ∃ m, s.mem.write32 a x = some m ∧ s' = s.withMem m := (write_ret_iff (a := a) rfl).mp h

theorem write8_eq_ret {a : Word} {x : Byte} (h : write8 a x s = .ret () s') :
    ∃ m, s.mem.write8 a x = some m ∧ s' = s.withMem m := (write_ret_iff (a := a) rfl).mp h

/-- The entry is new, or the table is as it was. -/
theorem emplace_ends {fd : Word} {handle : FileHandle} {done : Bool}
    (h : Nand.emplace fd handle s = .ret done s') : s'.mem = s.mem ∧
      ((done = false ∧ s'.nand.fileHandles = s.nand.fileHandles ∧
          s'.nand.events = s.nand.events) ∨
        (done = true ∧ s'.nand.fileHandles = (fun k =>
            if k = fd ∧ s.nand.fileHandles fd = none then some handle
              else s.nand.fileHandles k) ∧
          s'.nand.events = .issue fd handle.file :: s.nand.events)) := by
  unfold Nand.emplace Nand.record at h
  have hask : Nand.ask s = .ret (s.nand.answers s.nand.asked)
      { s with nand := { s.nand with asked := s.nand.asked + 1 } } := rfl
  rw [Routine.bind_of hask] at h
  cases hfails : (s.nand.answers s.nand.asked).fails with
  | true =>
    rw [hfails] at h
    injection h with hdone hs
    subst hdone hs
    exact ⟨rfl, Or.inl ⟨rfl, rfl, rfl⟩⟩
  | false =>
    rw [hfails] at h
    injection h with hdone hs
    subst hdone hs
    exact ⟨rfl, Or.inr ⟨rfl, rfl, rfl⟩⟩

/-- The open flag lies apart from the fd. -/
theorem flag_apart (hs : Serves config s.mem) {fileInfoPtr : Word}
    (hmapped : s.mem.contains fileInfoPtr ((Nand.kOpenFlagOffset + 1).setWidth 64) = true) :
    Apart config (fileInfoPtr + Nand.kOpenFlagOffset).toNat 1 fileInfoPtr.toNat 4 := by
  have hlen : (Nand.kOpenFlagOffset + 1).setWidth 64 = BitVec.ofNat 64 0x8B := by decide
  rw [hlen] at hmapped
  obtain ⟨q, hq, _, hhigh⟩ := (hs.contains_iff fileInfoPtr (by omega) (by omega)).mp hmapped
  have hend := hs.admissible.end_le hq
  have hadd : (fileInfoPtr + Nand.kOpenFlagOffset).toNat = fileInfoPtr.toNat + 0x8A := by
    rw [BitVec.toNat_add, show Nand.kOpenFlagOffset.toNat = 0x8A from rfl]
    omega
  rw [hadd]
  intro i hi j hj hsame
  rw [Nat.add_assoc] at hsame
  have := hsame.near (by omega) (by omega)
  omega

/-- An open gives the guest an fd for a stream of its own, or nothing. -/
theorem openSync_ends (hs : Serves config s.mem) {pathPtr fileInfoPtr mode : Word}
    (hret : Nand.openSync pathPtr fileInfoPtr mode s = .ret r s') :
    ∃ new, s'.nand.events = new ++ s.nand.events ∧ Serves config s'.mem ∧
      (OpensNothing s s' r new ∨
        ∃ fd handle, OpensStream pathPtr fileInfoPtr s s' r fd handle new) := by
  have hnothing : ∀ r', r' ≠ Nand.kResultOk → (pure r' : OS Word) s = .ret r s' →
      ∃ new, s'.nand.events = new ++ s.nand.events ∧ Serves config s'.mem ∧
        (OpensNothing s s' r new ∨
          ∃ fd handle, OpensStream pathPtr fileInfoPtr s s' r fd handle new) := by
    intro r' hr' hpure
    injection hpure with hr ht
    subst hr ht
    exact ⟨[], rfl, hs, Or.inl ⟨hr', rfl, Or.inl fun _ => rfl⟩⟩
  unfold Nand.openSync at hret
  rw [bind_apply, contains_apply, Coop.bind_ret, Routine.ite_apply] at hret
  by_cases hbad : fileInfoPtr = 0 ∨
      s.mem.contains fileInfoPtr ((Nand.kOpenFlagOffset + 1).setWidth 64) = false ∨
      (mode ≠ 1 ∧ mode ≠ 2 ∧ mode ≠ 3)
  · rw [if_pos hbad] at hret
    exact hnothing _ (by decide) hret
  rw [if_neg hbad] at hret
  push Not at hbad
  obtain ⟨_, hmapped, _⟩ := hbad
  obtain ⟨o, u, hstring, hrest⟩ := Routine.bind_eq_ret hret
  have hu := readGuestCString_eq_ret hstring
  rw [hu] at hstring hrest
  cases o with
  | none => exact hnothing _ (by decide) hrest
  | some name =>
    dsimp only at hrest
    obtain ⟨path, u', hpath, hrest⟩ := Routine.bind_eq_ret hrest
    have hread : readPath pathPtr s = .ret path u' := by
      unfold readPath
      rw [Routine.bind_of hstring]
      exact hpath
    have hnamed : guestPath pathPtr s = path := by
      unfold guestPath
      rw [hread]
    injection hpath with _ hu'
    rw [← hu'] at hrest
    obtain ⟨file, t, hopen, hrest⟩ := Routine.bind_eq_ret hrest
    obtain ⟨⟨new, hasked⟩, hle⟩ := openHost_ends hopen
    rw [Routine.ite_apply] at hrest
    by_cases hzero : file = 0
    · rw [if_pos hzero] at hrest
      injection hrest with hr ht
      subst hr ht
      refine ⟨new, hasked.events,
        by rw [hasked.mem]; exact hs, Or.inl ⟨?_, hasked.handles, ?_⟩⟩
      · split <;> decide
      · exact Or.inl fun _ => by rw [hasked.seen, openedAs, if_pos hzero]
    have hseen : ∀ t, new.filterMap (hostEntry t) = [.opened file path] := by
      intro t
      rw [hasked.seen, openedAs, if_neg hzero]
    rw [if_neg hzero, bind_apply, Nand.gets_apply, Coop.bind_ret, bind_apply, Nand.modify_apply,
      Coop.bind_ret] at hrest
    obtain ⟨done, v, hemplace, hrest⟩ := Routine.bind_eq_ret hrest
    obtain ⟨hmem, ⟨hdone, htable, hevents⟩ | ⟨hdone, htable, hevents⟩⟩ :=
      emplace_ends hemplace
    · rw [hdone, Routine.ite_apply, if_neg Bool.false_ne_true] at hrest
      injection hrest with hr ht
      subst hr ht
      refine ⟨new, hevents.trans hasked.events, ?_, Or.inl ⟨by decide, ?_, ?_⟩⟩
      · rw [hmem]
        exact hasked.mem ▸ hs
      · exact htable.trans hasked.handles
      · exact Or.inr ⟨file, path, hle hzero, hseen⟩
    · rw [hdone, Routine.ite_apply, if_pos rfl] at hrest
      have hvs : Serves config v.mem := by
        rw [hmem]
        exact hasked.mem ▸ hs
      obtain ⟨_, w, hword, hrest⟩ := Routine.bind_eq_ret hrest
      obtain ⟨_, x, hflag, hrest⟩ := Routine.bind_eq_ret hrest
      injection hrest with hr ht
      obtain ⟨m₁, hm₁, hw⟩ := write32_eq_ret hword
      obtain ⟨m₂, hm₂, hx⟩ := write8_eq_ret hflag
      subst hr ht hw hx
      have hs₁ : Serves config m₁ := hvs.write32 hm₁
      have hs₂ : Serves config m₂ := hs₁.write (k := .w8) hm₂
      refine ⟨.issue t.nand.nextFd file :: new, ?_, hs₂, Or.inr ⟨t.nand.nextFd,
        ⟨file, path, mode⟩, ?_⟩⟩
      · exact hevents.trans (congrArg _ hasked.events)
      constructor
      case result => rfl
      case number => exact hasked.fd
      case word =>
        have hread : m₂.read32 fileInfoPtr = m₁.read32 fileInfoPtr :=
          hs₁.frame32 (k := .w8) hm₂ (flag_apart hs (Bool.of_not_eq_false hmapped))
        have hwritten : m₁.read32 fileInfoPtr = some t.nand.nextFd :=
          hvs.read_written (k := .w32) hm₁
        change guestWord m₂ fileInfoPtr = _
        rw [guestWord, hread, hwritten, Option.getD_some]
      case path => exact hnamed.symm
      case stream => exact hle hzero
      case table =>
        rw [← hasked.handles]
        exact htable
      case issued => exact mem_issued List.mem_cons_self
      case seen => exact fun t => by rw [List.filterMap_cons_none rfl, hseen]

/-- Entries may end, and the host sees no piece of a file. -/
structure EndsEntries (s s' : Machine Memory) (new : List FileEvent) : Prop where
  events : s'.nand.events = new ++ s.nand.events
  seen : ∀ t, new.filterMap (hostEntry t) = []
  table : ∀ k handle, s'.nand.fileHandles k = some handle → s.nand.fileHandles k = some handle

theorem EndsEntries.refl (s : Machine Memory) : EndsEntries s s [] :=
  ⟨rfl, fun _ => rfl, fun _ _ h => h⟩

theorem closeFd_ends {fd : Word} {done : Bool} (h : Nand.closeFd fd s = .ret done s') :
    s'.mem = s.mem ∧ ∃ new, EndsEntries s s' new := by
  have herase : ∀ k handle, (if k = fd then none else s.nand.fileHandles k) = some handle →
      s.nand.fileHandles k = some handle := by
    intro k handle hk
    split at hk
    · cases hk
    · exact hk
  unfold Nand.closeFd at h
  rw [bind_apply, Nand.gets_apply, Coop.bind_ret] at h
  cases hentry : s.nand.fileHandles fd with
  | none =>
    rw [hentry] at h
    injection h with _ hs
    subst hs
    exact ⟨rfl, [], .refl s⟩
  | some handle =>
    rw [hentry] at h
    dsimp only at h
    by_cases hnull : handle.file = 0
    · rw [if_pos hnull] at h
      injection h with _ hs
      subst hs
      exact ⟨rfl, [], rfl, fun _ => rfl, herase⟩
    · have hclose : Nand.fclose handle.file s = .ret (s.nand.answers s.nand.asked).fails
          { s with nand := { s.nand with
            asked := s.nand.asked + 1
            events := .fclose handle.file :: s.nand.events } } := rfl
      rw [if_neg hnull, Routine.bind_of hclose, Routine.ite_apply] at h
      split at h
      · injection h with _ hs
        subst hs
        exact ⟨rfl, [.fclose handle.file], rfl, fun _ => rfl, fun _ _ hk => hk⟩
      · injection h with _ hs
        subst hs
        exact ⟨rfl, [.fclose handle.file], rfl, fun _ => rfl, herase⟩

/-- A close shows the guest no piece of a file. -/
theorem closeSync_ends (hs : Serves config s.mem) {fileInfoPtr : Word}
    (hret : Nand.closeSync fileInfoPtr s = .ret r s') :
    Serves config s'.mem ∧ ∃ new, EndsEntries s s' new := by
  have hsame : ∀ r', (pure r' : OS Word) s = .ret r s' →
      Serves config s'.mem ∧ ∃ new, EndsEntries s s' new := by
    intro r' hpure
    injection hpure with _ ht
    subst ht
    exact ⟨hs, [], .refl s⟩
  unfold Nand.closeSync at hret
  rw [bind_apply, contains_apply, Coop.bind_ret, Routine.ite_apply] at hret
  split at hret
  · exact hsame _ hret
  obtain ⟨flag, u, hflag, hrest⟩ := Routine.bind_eq_ret hret
  rw [read8_eq_ret hflag, Routine.ite_apply] at hrest
  split at hrest
  · exact hsame _ hrest
  obtain ⟨fd, v, hword, hrest⟩ := Routine.bind_eq_ret hrest
  rw [(read32_eq_ret hword).2] at hrest
  obtain ⟨done, w, hclose, hrest⟩ := Routine.bind_eq_ret hrest
  obtain ⟨hmem, new, hends⟩ := closeFd_ends hclose
  rw [Routine.ite_apply] at hrest
  split at hrest
  · obtain ⟨_, x, hclear, hrest⟩ := Routine.bind_eq_ret hrest
    injection hrest with _ ht
    obtain ⟨m, hm, hx⟩ := write8_eq_ret hclear
    subst ht hx
    rw [hmem] at hm
    exact ⟨hs.write (k := .w8) hm, new, hends.events, hends.seen, hends.table⟩
  · injection hrest with _ ht
    subst ht
    exact ⟨hmem ▸ hs, new, hends⟩

end

/-! ## Every run -/

section

variable {config : List RegionConfig} {files : HostPath → List Byte} {l : List NandCall}
  {g : List GuestEntry} {h : List HostEntry} {s s' : Machine Memory} {n n' : NandRuntime}

/-- The stream that an fd stands for. -/
def NandRuntime.link (n : NandRuntime) (fd : Word) : Option Stream :=
  (n.fileHandles fd).map (·.file)

/-- The guest reads by its fds what the host reads by its streams. -/
structure Delivers (files : HostPath → List Byte) (g : List GuestEntry) (h : List HostEntry)
    (n : NandRuntime) : Prop where
  mirrors : Cursors.Mirrors n.link g h
  faithful : Cursors.Faithful files g
  once : (Cursors.keys g).Nodup
  issued : ∀ fd ∈ Cursors.keys g, fd ∈ issued n.events

theorem FileRun.nandRun (hrun : FileRun config files l g h s) : NandRun ClosesWell l s := by
  induction hrun with
  | start _ hstart => exact .start hstart
  | other _ _ hsame ih => exact ih.other hsame
  | call _ hwell hret _ _ ih => exact ih.call hwell hret

/-- What the runtime still has of an older history. -/
theorem Delivers.later {new : List FileEvent} (hd : Delivers files g h n)
    (hevents : n'.events = new ++ n.events)
    (hlink : ∀ fd file, n'.link fd = some file → n.link fd = some file) :
    Delivers files g h n' where
  mirrors := hd.mirrors.erase hlink
  faithful := hd.faithful
  once := hd.once
  issued fd hfd := by
    rw [hevents, wii_switch.issued, List.filterMap_append]
    exact List.mem_append_right _ (hd.issued fd hfd)

theorem Tended.link_lt {k : Nat} (ht : Tended k n) {fd : Word} {file : Stream}
    (hlink : n.link fd = some file) : file < n.nextStream := by
  obtain ⟨handle, hhandle, rfl⟩ := Option.map_eq_some_iff.mp hlink
  exact ht.issued_lt fd _ (ht.handles fd handle hhandle).1

/-- An open keeps it. -/
theorem Delivers.openSync {k : Nat} (hd : Delivers files g h s.nand) (hs : Serves config s.mem)
    (ht : Tended k s.nand) (hk : k < 2 ^ 31) {pathPtr fileInfoPtr mode r : Word}
    {new : List FileEvent} (hret : Nand.openSync pathPtr fileInfoPtr mode s = .ret r s')
    (hevents : s'.nand.events = new ++ s.nand.events) :
    Serves config s'.mem ∧ Delivers files
      (NandCall.notes (.openSync pathPtr fileInfoPtr mode) s r s' ++ g)
      (new.filterMap (hostEntry s) ++ h) s'.nand := by
  obtain ⟨new', hevents', hs', hends⟩ := openSync_ends hs hret
  obtain rfl : new = new' := List.append_cancel_right (hevents.symm.trans hevents')
  refine ⟨hs', ?_⟩
  rcases hends with hnothing | ⟨fd, handle, hopens⟩
  · have hnotes : NandCall.notes (.openSync pathPtr fileInfoPtr mode) s r s' = [] :=
      if_neg hnothing.result
    have hlink : ∀ fd file, s'.nand.link fd = some file → s.nand.link fd = some file := by
      intro fd file hfd
      rw [NandRuntime.link, hnothing.table] at hfd
      exact hfd
    rw [hnotes]
    rcases hnothing.seen with hseen | ⟨file, path, hle, hseen⟩
    · rw [hseen]
      exact hd.later hevents hlink
    · rw [hseen]
      have hfree : ∀ fd, s.nand.link fd ≠ some file := by
        intro fd hfd
        exact absurd (ht.link_lt hfd) (Nat.not_lt.mpr hle)
      have hd' : Delivers files g (.opened file path :: h) s.nand :=
        ⟨hd.mirrors.opened_there hfree path, hd.faithful, hd.once, hd.issued⟩
      exact hd'.later hevents hlink
  · have hnotes : NandCall.notes (.openSync pathPtr fileInfoPtr mode) s r s' =
        [.opened fd handle.path] := by
      dsimp only [NandCall.notes]
      rw [if_pos hopens.result, hopens.word, hopens.path]
    have hfresh : fd ∉ wii_switch.issued s.nand.events := hopens.number ▸ ht.fresh hk
    have hnone : s.nand.fileHandles fd = none := by
      cases hentry : s.nand.fileHandles fd with
      | none => rfl
      | some old => exact absurd (mem_issued (ht.handles fd old hentry).1) hfresh
    have hfree : ∀ i, s.nand.link i ≠ some handle.file := by
      intro i hi
      exact absurd (ht.link_lt hi) (Nat.not_lt.mpr hopens.stream)
    have hlink : s'.nand.link = Function.update s.nand.link fd (some handle.file) := by
      funext i
      rw [NandRuntime.link, hopens.table]
      by_cases hi : i = fd
      · dsimp only
        rw [if_pos ⟨hi, hnone⟩, hi, Function.update_self, Option.map_some]
      · dsimp only
        rw [if_neg fun hno => hi hno.1, Function.update_of_ne hi, NandRuntime.link]
    rw [hnotes, hopens.seen]
    constructor
    case mirrors =>
      rw [hlink]
      exact hd.mirrors.opened hfree fd handle.path
    case faithful => exact hd.faithful
    case once => exact List.nodup_cons.mpr ⟨fun hmem => hfresh (hd.issued fd hmem), hd.once⟩
    case issued =>
      intro i hi
      rw [hevents, wii_switch.issued, List.filterMap_append]
      rcases List.mem_cons.mp hi with rfl | hi
      · exact List.mem_append_left _ hopens.issued
      · exact List.mem_append_right _ (hd.issued i hi)

/-- A read keeps it, on a host that gives what comes next. -/
theorem Delivers.readSync (hd : Delivers files g h s.nand) (hs : Serves config s.mem)
    {fileInfoPtr bufferPtr length r : Word} {new : List FileEvent}
    (hret : Nand.readSync fileInfoPtr bufferPtr length s = .ret r s')
    (hevents : s'.nand.events = new ++ s.nand.events)
    (hhost : Cursors.Faithful files (new.filterMap (hostEntry s) ++ h)) :
    Serves config s'.mem ∧ Delivers files
      (NandCall.notes (.readSync fileInfoPtr bufferPtr length) s r s' ++ g)
      (new.filterMap (hostEntry s) ++ h) s'.nand := by
  rcases readSync_ends hs hret with ⟨hr, rfl⟩ | ⟨fd, handle, bytes, hreads⟩
  · obtain rfl : new = [] := List.append_cancel_right (hevents.symm.trans (List.nil_append _).symm)
    have hnotes : NandCall.notes (.readSync fileInfoPtr bufferPtr length) s' r s' = [] :=
      if_pos (by rw [hr]; decide)
    rw [hnotes]
    exact ⟨hs, hd⟩
  · have hone : s'.nand.events = [.fread handle.file length] ++ s.nand.events := by
      rw [hreads.nand]
      rfl
    obtain rfl : new = [.fread handle.file length] :=
      List.append_cancel_right (hevents.symm.trans hone)
    have hseen : [FileEvent.fread handle.file length].filterMap (hostEntry s) =
        [.took handle.file bytes] := by
      rw [hreads.given]
      rfl
    have hnotes : NandCall.notes (.readSync fileInfoPtr bufferPtr length) s r s' =
        [.took fd bytes] := by
      have hsign : ¬(r.slt 0#32 = true) := by
        rw [BitVec.slt_eq_decide, decide_eq_true_eq, BitVec.toInt_zero, Int.not_lt]
        exact hreads.result_nonneg
      dsimp only [NandCall.notes]
      rw [if_neg hsign, hreads.result_toNat, hreads.puts.guestBytes hreads.room,
        guestWord, hreads.word,
        Option.getD_some]
    have hlink : s.nand.link fd = some handle.file := by
      rw [NandRuntime.link, hreads.entry]
      rfl
    rw [hseen] at hhost
    rw [hnotes, hseen]
    have hd' : Delivers files (.took fd bytes :: g) (.took handle.file bytes :: h) s.nand :=
      ⟨hd.mirrors.took hlink bytes, hd.mirrors.faithful hlink hd.faithful hhost,
        hd.once, hd.issued⟩
    refine ⟨hreads.serves, hd'.later hone fun i file hi => ?_⟩
    rw [NandRuntime.link, hreads.nand] at hi
    exact hi

theorem FileRun.delivers (hrun : FileRun config files l g h s) (hlen : l.length < 2 ^ 31) :
    Serves config s.mem ∧ Delivers files g h s.nand := by
  induction hrun with
  | start hs hstart =>
    refine ⟨hs, ?_, trivial, List.nodup_nil, fun fd hno => absurd hno List.not_mem_nil⟩
    rw [hstart]
    exact .none [] []
  | other _ hs hsame ih =>
    rw [hsame]
    exact ⟨hs, (ih hlen).2⟩
  | @call l g h s s' c r new hrun hwell hret hevents hhost ih =>
    rw [List.length_cons] at hlen
    obtain ⟨hs, hd⟩ := ih (by omega)
    obtain ⟨k, hk, ht⟩ := hrun.nandRun.tended (by omega)
    cases c with
    | openSync pathPtr fileInfoPtr mode => exact hd.openSync hs ht (by omega) hret hevents
    | readSync fileInfoPtr bufferPtr length => exact hd.readSync hs hret hevents hhost
    | closeSync fileInfoPtr =>
      obtain ⟨hs', new', hends⟩ := closeSync_ends hs hret
      obtain rfl : new = new' := List.append_cancel_right (hevents.symm.trans hends.events)
      refine ⟨hs', ?_⟩
      rw [hends.seen]
      refine hd.later hevents fun fd file hfd => ?_
      obtain ⟨handle, hhandle, hfile⟩ := Option.map_eq_some_iff.mp hfd
      exact Option.map_eq_some_iff.mpr ⟨handle, hends.table fd handle hhandle, hfile⟩

/-- In every run of opens, reads and closes on a host that gives of each stream what comes next in
its file: the guest gets no fd twice, all that it reads by an fd is, read after read, the beginning
of the file that the fd was opened on. A read that is refused changes nothing, and another one
changes no byte outside of what it reads. -/
theorem an_fd_reads_its_file_in_order (hrun : FileRun config files l g h s)
    (hlen : l.length < 2 ^ 31) :
    (Cursors.keys g).Nodup ∧ Cursors.Faithful files g ∧
    (∀ fd path, Cursors.name g fd = some path → Cursors.taken g fd <+: files path) ∧
    ∀ fileInfoPtr bufferPtr length r s',
      Nand.readSync fileInfoPtr bufferPtr length s = .ret r s' →
      (r.toInt < 0 → s' = s) ∧
      (0 ≤ r.toInt → ∀ y : Word,
        (∀ i < r.toNat, ¬SameByte config (bufferPtr.toNat + i) y.toNat) →
        s'.mem.read8 y = s.mem.read8 y) := by
  obtain ⟨hs, hd⟩ := hrun.delivers hlen
  refine ⟨hd.once, hd.faithful, fun fd path hname => hd.faithful.taken_prefix hname, ?_⟩
  intro fileInfoPtr bufferPtr length r s' hret
  rcases readSync_ends hs hret with ⟨_, rfl⟩ | ⟨fd, handle, bytes, hreads⟩
  · exact ⟨fun _ => rfl, fun _ _ _ => rfl⟩
  · refine ⟨fun hneg => ?_, fun _ y hother => hreads.puts.kept y fun i hi => hother i ?_⟩
    · exact absurd hneg (Int.not_lt.mpr hreads.result_nonneg)
    · rwa [hreads.result_toNat]

end

/-! ## A file of six bytes -/

def nandConfig : List RegionConfig := [⟨"MEM1", 0x80000000#32, 0x400#64⟩]

theorem nandConfig_admissible : Admissible nandConfig := by
  constructor
  case count => decide
  case disjoint => exact List.pairwise_singleton _ _
  case inside =>
    intro r hr k hk
    obtain rfl := List.mem_singleton.mp hr
    simp only [BitVec.toNat_ofNat] at hk
    omega

theorem nandMemory_serves {m : Memory} (hm : nandMemory = some m) : Serves nandConfig m := by
  unfold nandMemory at hm
  obtain ⟨m₀, hinit, hwrite⟩ := Option.bind_eq_some_iff.mp hm
  exact (Serves.init nandConfig_admissible (.start _) hinit).write16 hwrite

def sixBytes : List Byte := [0x31#8, 0x32#8, 0x33#8, 0x34#8, 0x35#8, 0x36#8]

/-- The host gives four of the bytes, and then the two that are left. -/
def sixBytesHost (i : Nat) : HostAnswer :=
  if i = 3 then ⟨false, sixBytes.drop 4⟩ else ⟨false, sixBytes⟩

/-- The state behind a call that has the events `new`, and shows the guest and the host what is
given. -/
def fileStep (c : NandCall) (new : List FileEvent) (notes : List GuestEntry)
    (seen : List HostEntry) (s : Machine Memory) : Option (Machine Memory) :=
  (c.run s).ended.bind fun p =>
    if p.2.nand.events = new ++ s.nand.events ∧ c.notes s p.1 p.2 = notes ∧
        new.filterMap (hostEntry s) = seen then some p.2
    else none

theorem FileRun.step {config : List RegionConfig} {files : HostPath → List Byte}
    {l : List NandCall} {g notes : List GuestEntry} {h seen : List HostEntry}
    {s s' : Machine Memory} {c : NandCall} {new : List FileEvent}
    (hrun : FileRun config files l g h s) (hopen : ∀ fileInfoPtr, c ≠ .closeSync fileInfoPtr)
    (hstep : fileStep c new notes seen s = some s')
    (hhost : Cursors.Faithful files (seen ++ h)) :
    FileRun config files (c :: l) (notes ++ g) (seen ++ h) s' := by
  obtain ⟨⟨r, t⟩, hended, hshown⟩ := Option.bind_eq_some_iff.mp hstep
  have hwell : ClosesWell c s := fun fileInfoPtr _ hclose => absurd hclose (hopen fileInfoPtr)
  split at hshown
  case isTrue hshows =>
    obtain ⟨hevents, rfl, rfl⟩ := hshows
    cases hshown
    exact hrun.call hwell (Coop.ret_of_ended hended) hevents hhost
  case isFalse => cases hshown

/-- Two reads of four bytes give the six. -/
theorem two_reads_give_the_file : ∃ l g h s,
    FileRun nandConfig (fun _ => sixBytes) l g h s ∧ l = [readCall, readCall, openCall] ∧
      Cursors.name g 100#32 = some [[0x61#8]] ∧ Cursors.taken g 100#32 = sixBytes ∧
      (Cursors.keys g).Nodup ∧ Cursors.Faithful (fun _ => sixBytes) g := by
  have hrun : (nandMemory.bind fun m =>
      (fileStep openCall [.issue 100#32 1, .fopen [[0x61#8]] .rb 1] [.opened 100#32 [[0x61#8]]]
        [.opened 1 [[0x61#8]]] (nandMachine m sixBytesHost)).bind fun s₁ =>
      (fileStep readCall [.fread 1 4#32] [.took 100#32 (sixBytes.take 4)]
        [.took 1 (sixBytes.take 4)] s₁).bind fun s₂ =>
      fileStep readCall [.fread 1 4#32] [.took 100#32 (sixBytes.drop 4)]
        [.took 1 (sixBytes.drop 4)] s₂).isSome = true := by
    decide +kernel
  obtain ⟨s₃, hrun⟩ := Option.isSome_iff_exists.mp hrun
  obtain ⟨m, hm, hrun⟩ := Option.bind_eq_some_iff.mp hrun
  obtain ⟨s₁, hstep₁, hrun⟩ := Option.bind_eq_some_iff.mp hrun
  obtain ⟨s₂, hstep₂, hstep₃⟩ := Option.bind_eq_some_iff.mp hrun
  have hread : ∀ fileInfoPtr, readCall ≠ .closeSync fileInfoPtr := fun _ hno => by cases hno
  have hrun₀ : FileRun nandConfig (fun _ => sixBytes) [] [] [] (nandMachine m sixBytesHost) :=
    .start (nandMemory_serves hm) rfl
  have hrun₁ := hrun₀.step (fun _ hno => by cases hno) hstep₁ trivial
  have hrun₂ := hrun₁.step hread hstep₂ ⟨trivial, _, rfl, List.take_prefix 4 sixBytes⟩
  have hrun₃ := hrun₂.step hread hstep₃
    ⟨⟨trivial, _, rfl, List.take_prefix 4 sixBytes⟩, _, rfl, List.prefix_rfl⟩
  have hlaw := an_fd_reads_its_file_in_order hrun₃ (by decide)
  exact ⟨_, _, _, _, hrun₃, rfl, rfl, rfl, hlaw.1, hlaw.2.1⟩

end wii_switch
