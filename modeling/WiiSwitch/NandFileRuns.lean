-- Histories of the synchronous NAND calls. Between two calls the guest may write
-- anything to its memory, so a NANDFileInfo may be copied, stale or overwritten. As long
-- as no close reports an error, a stream is used only while it is open.
import WiiSwitch.NandFiles
import WiiSwitch.Dispatch

namespace wii_switch

open Bytes OS Routine

/-! ## Calls -/

inductive NandCall where
  | openSync (pathPtr fileInfoPtr mode : Word)
  | readSync (fileInfoPtr bufferPtr length : Word)
  | closeSync (fileInfoPtr : Word)

def NandCall.run : NandCall → OS Word
  | .openSync pathPtr fileInfoPtr mode => Nand.openSync pathPtr fileInfoPtr mode
  | .readSync fileInfoPtr bufferPtr length => Nand.readSync fileInfoPtr bufferPtr length
  | .closeSync fileInfoPtr => Nand.closeSync fileInfoPtr

/-- The histories of calls that all meet `P`, newest first, from the start of the
runtime. Other code may do anything but touch the runtime. -/
inductive NandRun (P : NandCall → Machine Memory → Prop) :
    List NandCall → Machine Memory → Prop
  | start {s : Machine Memory} {answers : Nat → HostAnswer} :
    s.nand = .start answers → NandRun P [] s
  | other {h : List NandCall} {s s' : Machine Memory} :
    NandRun P h s → s'.nand = s.nand → NandRun P h s'
  | call {h : List NandCall} {s s' : Machine Memory} {c : NandCall} {r : Word} :
    NandRun P h s → P c s → c.run s = .ret r s' → NandRun P (c :: h) s'

/-- The call closes no stream, or the host closes it without an error. -/
def ClosesWell (c : NandCall) (s : Machine Memory) : Prop :=
  ∀ fileInfoPtr fd, c = .closeSync fileInfoPtr →
    s.mem.read8 (fileInfoPtr + Nand.kOpenFlagOffset) = some 1#8 →
    s.mem.read32 fileInfoPtr = some fd → s.nand.fileHandles fd ≠ none →
    (s.nand.answers s.nand.asked).fails = false

/-! ## Sound handles -/

/-- The stream that the event reads or closes. -/
def FileEvent.uses : FileEvent → Option Stream
  | .fread file _ => some file
  | .fclose file => some file
  | _ => none

/-- The fd numbers that were issued. -/
def issued (events : List FileEvent) : List Word :=
  events.filterMap fun
    | .issue fd _ => some fd
    | _ => none

/-- No fd is issued twice, no stream is used after its close, and the stream of an fd is
reached through no other fd. -/
structure HandlesSound (n : NandRuntime) : Prop where
  once : (issued n.events).Nodup
  open_while_used : n.events.Pairwise fun later earlier =>
    ∀ file, later.uses = some file → earlier ≠ .fclose file
  one_fd : ∀ fd fd' handle, .issue fd handle.file ∈ n.events →
    n.fileHandles fd' = some handle → fd' = fd

/-- The invariant, with `k` fd numbers taken from the counter. -/
structure Tended (k : Nat) (n : NandRuntime) : Prop where
  next : n.nextFd = BitVec.ofNat 32 (100 + k)
  taken : ∀ fd ∈ issued n.events, ∃ j < k, fd = BitVec.ofNat 32 (100 + j)
  once : (issued n.events).Nodup
  stream_pos : 0 < n.nextStream
  issued_lt : ∀ fd file, .issue fd file ∈ n.events → file < n.nextStream
  closed_lt : ∀ file, .fclose file ∈ n.events → file < n.nextStream
  handles : ∀ fd handle, n.fileHandles fd = some handle →
    .issue fd handle.file ∈ n.events ∧ .fclose handle.file ∉ n.events
  owner : ∀ fd fd' file, .issue fd file ∈ n.events → .issue fd' file ∈ n.events → fd' = fd
  used : n.events.Pairwise fun later earlier =>
    ∀ file, later.uses = some file → earlier ≠ .fclose file

section

variable {k : Nat} {n : NandRuntime} {fd : Word} {file : Stream}

theorem Tended.sound (h : Tended k n) : HandlesSound n :=
  ⟨h.once, h.used, fun fd fd' _ hissue hhandle =>
    h.owner fd fd' _ hissue (h.handles fd' _ hhandle).1⟩

theorem Tended.start (answers : Nat → HostAnswer) : Tended 0 (.start answers) where
  next := rfl
  taken fd hfd := absurd hfd List.not_mem_nil
  once := List.nodup_nil
  stream_pos := Nat.one_pos
  issued_lt fd file h := absurd h List.not_mem_nil
  closed_lt file h := absurd h List.not_mem_nil
  handles fd handle h := by cases h
  owner fd fd' file h := absurd h List.not_mem_nil
  used := List.Pairwise.nil

/-! ## What each part of a call does -/

theorem mem_issued {events : List FileEvent} (h : .issue fd file ∈ events) :
    fd ∈ issued events := List.mem_filterMap.mpr ⟨_, h, rfl⟩

/-- An event that neither issues an fd nor closes a stream, and uses only an open stream. -/
theorem Tended.event {e : FileEvent} (h : Tended k n) (hissue : ∀ fd file, e ≠ .issue fd file)
    (hclose : ∀ file, e ≠ .fclose file)
    (huse : ∀ file, e.uses = some file → .fclose file ∉ n.events) :
    Tended k { n with events := e :: n.events } := by
  have hissued : issued (e :: n.events) = issued n.events := by
    cases e with
    | issue fd file => exact absurd rfl (hissue fd file)
    | fopen path mode file => rfl
    | fread file length => rfl
    | fclose file => rfl
  have hold : ∀ fd file, FileEvent.issue fd file ∈ e :: n.events →
      .issue fd file ∈ n.events :=
    fun fd file hmem => (List.mem_cons.mp hmem).resolve_left (hissue fd file).symm
  have holdc : ∀ file, FileEvent.fclose file ∈ e :: n.events → .fclose file ∈ n.events :=
    fun file hmem => (List.mem_cons.mp hmem).resolve_left (hclose file).symm
  exact {
    next := h.next
    taken := fun fd hfd => h.taken fd (hissued ▸ hfd)
    once := hissued ▸ h.once
    stream_pos := h.stream_pos
    issued_lt := fun fd file hmem => h.issued_lt fd file (hold fd file hmem)
    closed_lt := fun file hmem => h.closed_lt file (holdc file hmem)
    handles := fun fd handle hfd => ⟨List.mem_cons_of_mem _ (h.handles fd handle hfd).1,
      fun hmem => (h.handles fd handle hfd).2 (holdc _ hmem)⟩
    owner := fun fd fd' file h₁ h₂ => h.owner fd fd' file (hold _ _ h₁) (hold _ _ h₂)
    used := List.Pairwise.cons
      (fun earlier hmem file huses heq => huse file huses (heq ▸ hmem)) h.used }

/-- The host takes a question. -/
theorem Tended.ask (h : Tended k n) (i : Nat) : Tended k { n with asked := i } :=
  ⟨h.next, h.taken, h.once, h.stream_pos, h.issued_lt, h.closed_lt, h.handles, h.owner, h.used⟩

/-- A fresh stream. -/
theorem Tended.stream (h : Tended k n) : Tended k { n with nextStream := n.nextStream + 1 } :=
  ⟨h.next, h.taken, h.once, Nat.succ_pos _, fun fd file hmem =>
    Nat.lt_succ_of_lt (h.issued_lt fd file hmem), fun file hmem =>
    Nat.lt_succ_of_lt (h.closed_lt file hmem), h.handles, h.owner, h.used⟩

/-- A number from the counter. -/
theorem Tended.number (h : Tended k n) : Tended (k + 1) { n with nextFd := n.nextFd + 1 } where
  next := by
    change n.nextFd + 1 = _
    rw [h.next]
    exact (BitVec.ofNat_add (100 + k) 1).symm
  taken fd hfd := by
    obtain ⟨j, hj, heq⟩ := h.taken fd hfd
    exact ⟨j, Nat.lt_succ_of_lt hj, heq⟩
  once := h.once
  stream_pos := h.stream_pos
  issued_lt := h.issued_lt
  closed_lt := h.closed_lt
  handles := h.handles
  owner := h.owner
  used := h.used

/-- The number was not issued before. -/
theorem Tended.fresh (h : Tended k n) (hk : k < 2 ^ 31) : n.nextFd ∉ issued n.events := by
  intro hmem
  obtain ⟨j, hj, heq⟩ := h.taken _ hmem
  have := congrArg BitVec.toNat (h.next.symm.trans heq)
  simp only [BitVec.toNat_ofNat] at this
  omega

/-- The stream is fresh: it is not 0, not issued and not closed. -/
structure FreshStream (n : NandRuntime) (file : Stream) : Prop where
  lt : file < n.nextStream
  not_issued : ∀ fd, .issue fd file ∉ n.events
  not_closed : .fclose file ∉ n.events

/-- A new entry of the table. -/
theorem Tended.insert {path : HostPath} {mode : Word} (h : Tended k n)
    (htaken : ∃ j < k, fd = BitVec.ofNat 32 (100 + j)) (hfd : fd ∉ issued n.events)
    (hfile : FreshStream n file) :
    Tended k { n with
      fileHandles := fun i => if i = fd ∧ n.fileHandles fd = none then some ⟨file, path, mode⟩
        else n.fileHandles i
      events := .issue fd file :: n.events } where
  next := h.next
  taken fd' hfd' := by
    rcases List.mem_cons.mp hfd' with rfl | hfd'
    · exact htaken
    · exact h.taken fd' hfd'
  once := List.nodup_cons.mpr ⟨hfd, h.once⟩
  stream_pos := h.stream_pos
  issued_lt fd' file' hmem := by
    rcases List.mem_cons.mp hmem with heq | hmem
    · cases heq
      exact hfile.lt
    · exact h.issued_lt fd' file' hmem
  closed_lt file' hmem := h.closed_lt file' ((List.mem_cons.mp hmem).resolve_left (by simp))
  handles fd' handle hfd' := by
    dsimp only at hfd'
    split at hfd'
    · rename_i hcond
      cases hfd'
      refine ⟨hcond.1 ▸ List.mem_cons_self, fun hmem => hfile.not_closed ?_⟩
      exact (List.mem_cons.mp hmem).resolve_left (by simp)
    · obtain ⟨hissue, hclose⟩ := h.handles fd' handle hfd'
      exact ⟨List.mem_cons_of_mem _ hissue,
        fun hmem => hclose ((List.mem_cons.mp hmem).resolve_left (by simp))⟩
  owner fd₁ fd₂ file' h₁ h₂ := by
    rcases List.mem_cons.mp h₁ with heq₁ | h₁ <;>
      rcases List.mem_cons.mp h₂ with heq₂ | h₂
    · cases heq₁
      cases heq₂
      rfl
    · cases heq₁
      exact absurd h₂ (hfile.not_issued fd₂)
    · cases heq₂
      exact absurd h₁ (hfile.not_issued fd₁)
    · exact h.owner fd₁ fd₂ file' h₁ h₂
  used := List.Pairwise.cons (fun earlier _ file' huses => by cases huses) h.used

/-- The end of an entry. -/
theorem Tended.erase (h : Tended k n) (fd : Word) :
    Tended k { n with fileHandles := fun i => if i = fd then none else n.fileHandles i } :=
  { h with
    handles := fun fd' handle hfd' => by
      dsimp only at hfd'
      split at hfd'
      · cases hfd'
      · exact h.handles fd' handle hfd' }

/-- The close of the stream of an fd, and the end of its entry. -/
theorem Tended.close {handle : FileHandle} (h : Tended k n) (hfd : n.fileHandles fd = some handle) :
    Tended k { n with
      fileHandles := fun i => if i = fd then none else n.fileHandles i
      events := .fclose handle.file :: n.events } where
  next := h.next
  taken := h.taken
  once := h.once
  stream_pos := h.stream_pos
  issued_lt fd' file' hmem := h.issued_lt fd' file' ((List.mem_cons.mp hmem).resolve_left (by simp))
  closed_lt file' hmem := by
    rcases List.mem_cons.mp hmem with heq | hmem
    · cases heq
      exact h.issued_lt fd _ (h.handles fd handle hfd).1
    · exact h.closed_lt file' hmem
  handles fd' handle' hfd' := by
    dsimp only at hfd'
    split at hfd'
    · cases hfd'
    rename_i hne
    obtain ⟨hissue, hclose⟩ := h.handles fd' handle' hfd'
    refine ⟨List.mem_cons_of_mem _ hissue, fun hmem => ?_⟩
    rcases List.mem_cons.mp hmem with heq | hmem
    · injection heq with heq
      rw [heq] at hissue
      exact hne (h.owner fd fd' _ (h.handles fd handle hfd).1 hissue)
    · exact hclose hmem
  owner fd₁ fd₂ file' h₁ h₂ := h.owner fd₁ fd₂ file'
    ((List.mem_cons.mp h₁).resolve_left (by simp))
      ((List.mem_cons.mp h₂).resolve_left (by simp))
  used := by
    refine List.Pairwise.cons (fun earlier hmem file' huses heq => ?_) h.used
    cases Option.some.inj huses
    exact (h.handles fd handle hfd).2 (heq ▸ hmem)

/-! ## The routines -/

theorem Tended.opened (h : Tended k n) (path : HostPath) (mode : OpenMode) (file : Stream) :
    Tended k { n with events := .fopen path mode file :: n.events } :=
  h.event (fun _ _ => by simp) (fun _ => by simp) (fun _ huses => by cases huses)

/-- The host opens a fresh stream, or none. -/
theorem leads_fopen (path : HostPath) (mode : OpenMode) :
    Leads (fun s => Tended k s.nand) (Nand.fopen path mode) fun file s =>
      Tended k s.nand ∧ (file ≠ 0 → FreshStream s.nand file) := by
  intro s h
  cases hfails : (s.nand.answers s.nand.asked).fails with
  | true =>
    simp only [Nand.fopen, Nand.ask, Nand.record, bind_apply, Nand.gets_apply, Nand.modify_apply,
      Coop.bind_ret, pure_apply, hfails, if_true, Coop.meets_ret]
    exact ⟨(h.ask (s.nand.asked + 1)).opened path mode 0, fun hne => absurd rfl hne⟩
  | false =>
    have hpos : s.nand.nextStream ≠ 0 := h.stream_pos.ne'
    simp only [Nand.fopen, Nand.ask, Nand.record, bind_apply, Nand.gets_apply, Nand.modify_apply,
      Coop.bind_ret, pure_apply, hfails, Bool.false_eq_true, if_false, Coop.meets_ret, hpos]
    refine ⟨(h.ask (s.nand.asked + 1)).stream.opened path mode s.nand.nextStream, fun _ =>
      ⟨Nat.lt_succ_self _, fun fd hmem => ?_,
      fun hmem => ?_⟩⟩
    · have hold := (List.mem_cons.mp hmem).resolve_left (by simp)
      exact Nat.lt_irrefl _ (h.issued_lt fd _ hold)
    · have hold := (List.mem_cons.mp hmem).resolve_left (by simp)
      exact Nat.lt_irrefl _ (h.closed_lt _ hold)

theorem leads_openHost (path : HostPath) (mode : Word) :
    Leads (fun s => Tended k s.nand) (Nand.openHost path mode) fun file s =>
      Tended k s.nand ∧ (file ≠ 0 → FreshStream s.nand file) := by
  refine leads_ite (fun _ => leads_fopen path .rb) fun _ => ?_
  refine leads_bind (leads_fopen path .rplusb) fun file => ?_
  refine leads_ite (fun _ => leads_pure fun _ hs => hs) fun _ => ?_
  exact fun s hs => leads_fopen path .wplusb s hs.1

/-- The state before a new entry for the fd and the stream. -/
structure Insertable (k : Nat) (fd : Word) (file : Stream) (n : NandRuntime) : Prop where
  tended : Tended k n
  taken : ∃ j < k, fd = BitVec.ofNat 32 (100 + j)
  fresh_fd : fd ∉ issued n.events
  fresh_file : FreshStream n file

theorem leads_emplace (path : HostPath) (mode : Word) :
    Leads (fun s => Insertable k fd file s.nand) (Nand.emplace fd ⟨file, path, mode⟩) fun _ s =>
      Tended k s.nand := by
  intro s h
  unfold Nand.emplace
  cases hfails : (s.nand.answers s.nand.asked).fails with
  | true =>
    simp only [Nand.ask, bind_apply, Nand.gets_apply, Nand.modify_apply, Coop.bind_ret, pure_apply,
      hfails, if_true, Coop.meets_ret]
    exact h.tended.ask (s.nand.asked + 1)
  | false =>
    simp only [Nand.ask, Nand.record, bind_apply, Nand.gets_apply, Nand.modify_apply,
      Coop.bind_ret, pure_apply, hfails, Bool.false_eq_true, if_false, Coop.meets_ret]
    exact (h.tended.ask (s.nand.asked + 1)).insert h.taken h.fresh_fd
      ⟨h.fresh_file.lt, h.fresh_file.not_issued, h.fresh_file.not_closed⟩

/-- A call takes at most one number. -/
def TendedNext (k : Nat) (n : NandRuntime) : Prop := ∃ j ≤ k + 1, Tended j n

theorem Tended.toNext (h : Tended k n) : TendedNext k n := ⟨k, Nat.le_succ k, h⟩

theorem leads_openSync (hk : k < 2 ^ 31) (pathPtr fileInfoPtr mode : Word) :
    Leads (fun s => Tended k s.nand) (Nand.openSync pathPtr fileInfoPtr mode) fun _ s =>
      TendedNext k s.nand := by
  refine leads_bind (R := fun _ s => Tended k s.nand) (leads_gets fun _ h => h) fun mapped => ?_
  refine leads_ite (fun _ => leads_pure fun _ h => h.toNext) fun _ => ?_
  refine leads_bind ((Nand.alone_readGuestCString pathPtr).leads (Tended k)) fun guestPath => ?_
  cases guestPath with
  | none => exact leads_pure fun _ h => h.toNext
  | some guestPath =>
    refine leads_bind ((Nand.alone_hostPathOf guestPath).leads (Tended k)) fun path => ?_
    refine leads_bind (leads_openHost path mode) fun file => ?_
    refine leads_ite (fun _ => leads_pure fun _ h => h.1.toNext) fun hfile => ?_
    refine leads_bind (R := fun fd s => fd = s.nand.nextFd ∧ Tended k s.nand ∧
      FreshStream s.nand file) (leads_gets fun s h => ⟨rfl, h.1, h.2 hfile⟩) fun fd => ?_
    refine leads_bind (R := fun _ s => Insertable (k + 1) fd file s.nand) ?_ fun _ => ?_
    · rintro s ⟨rfl, h, hfresh⟩
      exact ⟨h.number, ⟨k, Nat.lt_succ_self k, h.next⟩, h.fresh hk,
        ⟨hfresh.lt, hfresh.not_issued, hfresh.not_closed⟩⟩
    refine leads_bind (leads_emplace path mode) fun done => ?_
    have hnext : ∀ s : Machine Memory, Tended (k + 1) s.nand → TendedNext k s.nand :=
      fun _ h => ⟨k + 1, Nat.le_refl _, h⟩
    refine leads_ite (fun _ => ?_) fun _ => leads_pure hnext
    refine leads_bind ((Nand.alone_write32 fileInfoPtr fd).leads (Tended (k + 1))) fun _ => ?_
    refine leads_bind ((Nand.alone_write8 _ 1#8).leads (Tended (k + 1))) fun _ => ?_
    exact leads_pure hnext

/-- A read of a stream that is not closed. -/
theorem leads_fread (buffer : HostPtr) (length : Word) :
    Leads (fun s => Tended k s.nand ∧ .fclose file ∉ s.nand.events)
      (Nand.fread buffer length file) fun _ s => Tended k s.nand := by
  refine leads_bind (R := fun _ s => Tended k s.nand ∧ .fclose file ∉ s.nand.events)
    (fun s h => ⟨h.1.ask _, h.2⟩) fun answer => ?_
  refine leads_bind (R := fun _ s => Tended k s.nand) (fun s h => ?_) fun _ => ?_
  · refine h.1.event (fun _ _ => by simp) (fun _ => by simp) fun file' huses => ?_
    exact Option.some.inj huses ▸ h.2
  refine leads_bind (R := fun _ s => Tended k s.nand) (fun s h => ?_) fun _ =>
    leads_pure fun _ h => h
  dsimp only
  split
  · trivial
  · exact h

theorem leads_readSync (fileInfoPtr bufferPtr length : Word) :
    Leads (fun s => Tended k s.nand) (Nand.readSync fileInfoPtr bufferPtr length) fun _ s =>
      Tended k s.nand := by
  refine leads_bind (R := fun _ s => Tended k s.nand) (leads_gets fun _ h => h) fun mapped => ?_
  refine leads_bind (R := fun _ s => Tended k s.nand) (leads_gets fun _ h => h) fun room => ?_
  refine leads_ite (fun _ => leads_pure fun _ h => h) fun _ => ?_
  refine leads_bind (R := fun _ s => Tended k s.nand) (leads_gets fun _ h => h) fun buffer => ?_
  cases buffer with
  | none => exact leads_pure fun _ h => h
  | some buffer =>
    refine leads_bind ((Nand.alone_read32 fileInfoPtr).leads (Tended k)) fun fd => ?_
    refine leads_bind (R := fun handle s => Tended k s.nand ∧ handle = s.nand.fileHandles fd)
      (leads_gets fun _ h => ⟨h, rfl⟩) fun handle => ?_
    cases handle with
    | none => exact leads_pure fun _ h => h.1
    | some handle =>
      refine leads_ite (fun _ => leads_pure fun _ h => h.1) fun _ s h => ?_
      exact leads_fread buffer length s ⟨h.1, (h.1.handles fd handle h.2.symm).2⟩

/-- The close of an fd, with no error of the host. -/
theorem leads_closeFd (fd : Word) :
    Leads (fun s => Tended k s.nand ∧
        (s.nand.fileHandles fd ≠ none → (s.nand.answers s.nand.asked).fails = false))
      (Nand.closeFd fd) fun _ s => Tended k s.nand := by
  rintro s ⟨h, hwell⟩
  unfold Nand.closeFd
  rw [bind_apply, Nand.gets_apply, Coop.bind_ret]
  cases hfd : s.nand.fileHandles fd with
  | none => exact h
  | some handle =>
    have hfails := hwell (hfd ▸ Option.some_ne_none handle)
    dsimp only
    by_cases hfile : handle.file = 0
    · simp only [if_pos hfile, bind_apply, Nand.modify_apply, Coop.bind_ret, pure_apply,
        Bool.false_eq_true, if_false, Coop.meets_ret]
      exact h.erase fd
    · simp only [if_neg hfile, Nand.fclose, Nand.ask, Nand.record, bind_apply, Nand.gets_apply,
        Nand.modify_apply, Coop.bind_ret, pure_apply, hfails, Bool.false_eq_true, if_false,
        Coop.meets_ret]
      exact (h.ask (s.nand.asked + 1)).close hfd

/-- A close that the host makes without an error. -/
theorem leads_closeSync (fileInfoPtr : Word) :
    Leads (fun s => Tended k s.nand ∧ ClosesWell (.closeSync fileInfoPtr) s)
      (Nand.closeSync fileInfoPtr) fun _ s => Tended k s.nand := by
  refine leads_bind (R := fun _ s => Tended k s.nand ∧ ClosesWell (.closeSync fileInfoPtr) s)
    (leads_gets fun _ h => h) fun mapped => ?_
  refine leads_ite (fun _ => leads_pure fun _ h => h.1) fun _ => ?_
  refine leads_bind (R := fun flag s => Tended k s.nand ∧
    ClosesWell (.closeSync fileInfoPtr) s ∧
    s.mem.read8 (fileInfoPtr + Nand.kOpenFlagOffset) = some flag) (fun s h => ?_) fun flag => ?_
  · unfold read8
    split
    · trivial
    · exact ⟨h.1, h.2, ‹_›⟩
  refine leads_ite (fun _ => leads_pure fun _ h => h.1) fun hflag => ?_
  refine leads_bind (R := fun fd s => Tended k s.nand ∧
    (s.nand.fileHandles fd ≠ none → (s.nand.answers s.nand.asked).fails = false))
    (fun s h => ?_) fun fd => ?_
  · unfold read32
    split
    · trivial
    · rename_i fd hfd
      exact ⟨h.1, h.2.1 fileInfoPtr fd rfl (not_not.mp hflag ▸ h.2.2) hfd⟩
  refine leads_bind (leads_closeFd fd) fun done => leads_ite (fun _ => ?_) fun _ =>
    leads_pure fun _ h => h
  exact leads_bind ((Nand.alone_write8 _ 0#8).leads (Tended k)) fun _ => leads_pure fun _ h => h

/-- One call keeps the invariant. -/
theorem leads_call (hk : k < 2 ^ 31) (c : NandCall) :
    Leads (fun s => Tended k s.nand ∧ ClosesWell c s) c.run fun _ s => TendedNext k s.nand := by
  cases c with
  | openSync pathPtr fileInfoPtr mode =>
    exact fun s h => leads_openSync hk pathPtr fileInfoPtr mode s h.1
  | readSync fileInfoPtr bufferPtr length =>
    exact fun s h =>
      (leads_readSync fileInfoPtr bufferPtr length).mono (fun _ _ h => h.toNext) s h.1
  | closeSync fileInfoPtr => exact (leads_closeSync fileInfoPtr).mono fun _ _ h => h.toNext

end

/-- A history takes at most as many numbers as it has calls. -/
theorem NandRun.tended {h : List NandCall} {s : Machine Memory} (hrun : NandRun ClosesWell h s)
    (hlen : h.length < 2 ^ 31) : ∃ k ≤ h.length, Tended k s.nand := by
  induction hrun with
  | start heq => exact ⟨0, Nat.le_refl _, heq ▸ Tended.start _⟩
  | other _ hsame ih =>
    rw [hsame]
    exact ih hlen
  | call _ hwell hret ih =>
    rw [List.length_cons] at hlen ⊢
    obtain ⟨k, hk, ht⟩ := ih (by omega)
    have hmeets := leads_call (by omega) _ _ ⟨ht, hwell⟩
    rw [hret] at hmeets
    obtain ⟨j, hj, ht'⟩ := hmeets
    exact ⟨j, by omega, ht'⟩

/-- In every history of calls where no close reports an error, no fd is issued twice, no
stream is used after its close, and the stream of an fd is reached through no other fd. -/
theorem a_stream_is_used_only_while_it_is_open {h : List NandCall} {s : Machine Memory}
    (hrun : NandRun ClosesWell h s) (hlen : h.length < 2 ^ 31) : HandlesSound s.nand := by
  obtain ⟨k, _, ht⟩ := hrun.tended hlen
  exact ht.sound

/-! ## Concrete histories -/

/-- A history of calls, newest first, from a state. -/
def runNand : List NandCall → Machine Memory → Option (Machine Memory)
  | [], s => some s
  | c :: h, s => (runNand h s).bind fun s' => (c.run s').ended.map (·.2)

theorem nandRun_of_runNand {P : NandCall → Machine Memory → Prop} {s s' : Machine Memory}
    {answers : Nat → HostAnswer} (hs : s.nand = .start answers) {h : List NandCall}
    (hP : ∀ c h' t, c :: h' <:+ h → runNand h' s = some t → P c t)
    (hrun : runNand h s = some s') : NandRun P h s' := by
  induction h generalizing s' with
  | nil =>
    cases hrun
    exact .start hs
  | cons c h ih =>
    obtain ⟨t, ht, hcall⟩ := Option.bind_eq_some_iff.mp hrun
    obtain ⟨⟨r, u⟩, hended, rfl⟩ := Option.map_eq_some_iff.mp hcall
    refine (ih (fun c' h' t' hsuffix => hP c' h' t' ?_) ht).call (hP c h t (List.suffix_refl _) ht)
      (Coop.ret_of_ended hended)
    exact hsuffix.trans (List.suffix_cons c h)

/-- A kilobyte of memory with the path `/a` in it. -/
def nandMemory : Option Memory := do
  let m ← Memory.init ⟨some 0, some 0, fun _ => true⟩ [⟨"MEM1", 0x80000000#32, 0x400#64⟩]
    ⟨false, [], .fresh, ⟨fun _ => none, 0, []⟩⟩
  m.write16 0x80000200#32 0x2F61#16

def nandMachine (m : Memory) (answers : Nat → HostAnswer) : Machine Memory :=
  { bareMachine with mem := m, nand := .start answers }

def openCall : NandCall := .openSync 0x80000200#32 0x80000100#32 1#32
def readCall : NandCall := .readSync 0x80000100#32 0x80000300#32 4#32
def closeCall : NandCall := .closeSync 0x80000100#32

/-- The close reports an error, and the guest closes again. -/
theorem a_failed_close_is_followed_by_another : ∃ s,
    NandRun (fun _ _ => True) [closeCall, closeCall, openCall] s ∧ ¬HandlesSound s.nand := by
  have hrun : (nandMemory.bind fun m =>
      (runNand [closeCall, closeCall, openCall] (nandMachine m fun i => ⟨i = 2, []⟩)).map
        fun t => t.nand.events) =
      some [.fclose 1, .fclose 1, .issue 100#32 1, .fopen [[0x61#8]] .rb 1] := by
    decide +kernel
  obtain ⟨m, _, hrun⟩ := Option.bind_eq_some_iff.mp hrun
  obtain ⟨t, ht, hevents⟩ := Option.map_eq_some_iff.mp hrun
  refine ⟨t, nandRun_of_runNand rfl (fun _ _ _ _ _ => trivial) ht, fun h => ?_⟩
  have hused := h.open_while_used
  rw [hevents] at hused
  exact List.rel_of_pairwise_cons hused List.mem_cons_self 1 rfl rfl

/-- A file is opened, read and closed. -/
theorem a_file_is_opened_read_and_closed : ∃ s,
    NandRun ClosesWell [closeCall, readCall, openCall] s ∧
      s.nand.events = [.fclose 1, .fread 1 4#32, .issue 100#32 1, .fopen [[0x61#8]] .rb 1] ∧
      HandlesSound s.nand := by
  have hrun : (nandMemory.bind fun m =>
      (runNand [readCall, openCall] (nandMachine m fun _ => ⟨false, [0x31#8, 0x32#8]⟩)).bind
        fun t => (closeCall.run t).ended.map fun u =>
          ((t.nand.answers t.nand.asked).fails, u.2.nand.events)) =
      some (false, [.fclose 1, .fread 1 4#32, .issue 100#32 1, .fopen [[0x61#8]] .rb 1]) := by
    decide +kernel
  obtain ⟨m, _, hrun⟩ := Option.bind_eq_some_iff.mp hrun
  obtain ⟨t, ht, hrun⟩ := Option.bind_eq_some_iff.mp hrun
  obtain ⟨⟨r, u⟩, hu, hwell⟩ := Option.map_eq_some_iff.mp hrun
  obtain ⟨hanswer, hevents⟩ := Prod.mk.inj hwell
  have hopen : NandRun ClosesWell [readCall, openCall] t := by
    refine nandRun_of_runNand rfl (fun c h u hsuffix _ fileInfoPtr fd hc => ?_) ht
    have hmem := hsuffix.subset List.mem_cons_self
    rcases List.mem_pair.mp hmem with rfl | rfl
    · cases hc
    · cases hc
  have hclose : NandRun ClosesWell [closeCall, readCall, openCall] u :=
    hopen.call (fun _ _ _ _ _ _ => hanswer) (Coop.ret_of_ended hu)
  exact ⟨u, hclose, hevents, a_stream_is_used_only_while_it_is_open hclose (by decide)⟩

end wii_switch
