-- The backing of the guest address space (source/horizon_guest_flat.cpp). The
-- Wii addresses of one backing fold onto one block of the host heap. The host
-- calls that can fail are given by a `HostEnv`.
import WiiSwitch.Lib.Bytes
import Mathlib.Logic.Function.Basic

namespace wii_switch

open Bytes

abbrev Word := BitVec 32
abbrev Half := BitVec 16
abbrev Word64 := BitVec 64

/-! ## The host heap -/

/-- One live block of the host heap. -/
structure Block where
  size : Nat
  bytes : Nat → Byte

/-- A non-null host pointer. -/
structure HostPtr where
  block : Nat
  off : Nat
deriving DecidableEq

def HostPtr.add (p : HostPtr) (n : Nat) : HostPtr := { p with off := p.off + n }

/-- The host: the live blocks, the number of blocks so far, and the live
reservations of address space. -/
structure Host where
  blocks : Nat → Option Block
  next : Nat
  reservations : List Nat

/-- What the host answers during one initialization. -/
structure HostEnv where
  findAslr : Option Nat
  addReservation : Option Nat
  callocOk : Nat → Bool

namespace Host

/-- `calloc(1, size)`: null, or a new block of zeros. -/
def calloc (ok : Bool) (size : Word64) (h : Host) : Option HostPtr × Host :=
  if ok then
    (some ⟨h.next, 0⟩,
      { h with
        blocks := Function.update h.blocks h.next (some ⟨size.toNat, fun _ => 0⟩)
        next := h.next + 1 })
  else (none, h)

def free (p : Option HostPtr) (h : Host) : Host :=
  match p with
  | none => h
  | some p => { h with blocks := Function.update h.blocks p.block none }

def removeReservation (r : Nat) (h : Host) : Host :=
  { h with reservations := h.reservations.erase r }

/-- The `n` bytes at `p`, when they lie in one live block. -/
def load (h : Host) (p : HostPtr) (n : Nat) : Option (Nat → Byte) :=
  match h.blocks p.block with
  | none => none
  | some b => if p.off + n ≤ b.size then some fun i => b.bytes (p.off + i) else none

/-- Write the `n` bytes `f 0, f 1, …` at `p`, when they lie in one live block. -/
def store (h : Host) (p : HostPtr) (n : Nat) (f : Nat → Byte) : Option Host :=
  match h.blocks p.block with
  | none => none
  | some b =>
    if p.off + n ≤ b.size then
      some { h with
        blocks := Function.update h.blocks p.block (some { b with
          bytes := fun i => if p.off ≤ i ∧ i < p.off + n then f (i - p.off) else b.bytes i }) }
    else none

end Host

/-! ## Sections and regions -/

inductive Backing where
  | owned
  | mem1
  | mem2
deriving DecidableEq

structure RegionRequest where
  base : Word
  size : Word64
  backing : Backing

structure Section where
  backing : Backing
  ownedBase : Word
  size : Word64
  hostView : Option HostPtr

structure RegionMap where
  base : Word
  size : Word64
  sectionOffset : Word64
  sectionIndex : Nat

/-- The module state. `sections` and `regions` are the used entries of the two
fixed tables. -/
structure FlatState where
  sections : List Section
  regions : List RegionMap
  guestBase : Option Nat
  guestReservation : Option Nat
  active : Bool

def FlatState.fresh : FlatState := ⟨[], [], none, none, false⟩

structure InitReport where
  guestWindowFound : Bool
  guestWindowReserved : Bool
  guestBase : Nat
  sectionCount : Nat
  regionCount : Nat
  guestMappingCount : Nat
  result : Word
  failedGuestAddress : Word

def InitReport.empty : InitReport := ⟨false, false, 0, 0, 0, 0, 0, 0⟩

def kGuestSpaceSize : Word64 := 0x100000000#64
def kGuestPageSize : Word64 := 0x1000#64
def kMaxRegions : Nat := 32
def kMaxSections : Nat := 32

def kErrorInvalidInput : Word := 0xFFFF0001#32
def kErrorTooManyRegions : Word := 0xFFFF0002#32
def kErrorTooManySections : Word := 0xFFFF0003#32
def kErrorNoGuestWindow : Word := 0xFFFF0004#32
def kErrorGuestReservation : Word := 0xFFFF0005#32
def kErrorHostAllocation : Word := 0xFFFF0006#32
def kErrorAlreadyActive : Word := 0xFFFF0008#32

def roundUpPage (value : Word64) : Word64 :=
  (value + (kGuestPageSize - 1#64)) &&& ~~~(kGuestPageSize - 1#64)

/-- Where the request starts in its section; null for a MEM2 request below the
MEM2 window. -/
def backingOffset (r : RegionRequest) : Option Word64 :=
  match r.backing with
  | .owned => some 0#64
  | .mem1 => some ((r.base &&& 0x1FFFFFFF#32).setWidth 64)
  | .mem2 =>
    let folded := (r.base &&& 0x1FFFFFFF#32).setWidth 64
    if folded < 0x10000000#64 then none else some (folded - 0x10000000#64)

def sectionOwnedBase (r : RegionRequest) : Word :=
  if r.backing = .owned then r.base else 0#32

def sameSectionKey (s : Section) (r : RegionRequest) : Bool :=
  s.backing = r.backing && s.ownedBase = sectionOwnedBase r

/-- The index of the section of the request, and the sections with it. -/
def findOrCreateSection (sections : List Section) (r : RegionRequest) :
    Option (Nat × List Section) :=
  match sections.findIdx? fun s => sameSectionKey s r with
  | some i => some (i, sections)
  | none =>
    if kMaxSections ≤ sections.length then none
    else some (sections.length,
      sections ++ [{ backing := r.backing, ownedBase := sectionOwnedBase r,
                     size := 0#64, hostView := none }])

def growSection (needed : Word64) (s : Section) : Section :=
  if s.size < needed then { s with size := needed } else s

/-- One turn of the request loop. An error carries the code, the address and
the state that the loop left. -/
def addRegion (st : FlatState) (r : RegionRequest) :
    Except (Word × Word × FlatState) FlatState :=
  if r.size = 0#64 then .ok st
  else if kGuestSpaceSize < r.base.setWidth 64 + r.size then
    .error (kErrorInvalidInput, r.base, st)
  else
    match backingOffset r with
    | none => .error (kErrorInvalidInput, r.base, st)
    | some offset =>
      if kGuestSpaceSize < offset + r.size then .error (kErrorInvalidInput, r.base, st)
      else
        match findOrCreateSection st.sections r with
        | none => .error (kErrorTooManySections, r.base, st)
        | some (index, sections) =>
          let needed := roundUpPage (offset + r.size)
          if needed = 0#64 ∨ kGuestSpaceSize < needed then
            .error (kErrorInvalidInput, r.base, { st with sections := sections })
          else
            let st := { st with sections := sections.modify index (growSection needed) }
            if kMaxRegions ≤ st.regions.length then
              .error (kErrorTooManyRegions, r.base, st)
            else
              .ok { st with regions := st.regions ++ [⟨r.base, r.size, offset, index⟩] }

/-- Allocate the sections in order, up to the first failure. -/
def allocSections (callocOk : Nat → Bool) :
    Nat → List Section → Host → Bool × List Section × Host
  | _, [], h => (true, [], h)
  | i, s :: rest, h =>
    match h.calloc (callocOk i) s.size with
    | (none, h) => (false, { s with hostView := none } :: rest, h)
    | (some p, h) =>
      let (ok, rest, h) := allocSections callocOk (i + 1) rest h
      (ok, { s with hostView := some p } :: rest, h)

def shutdownInternal (st : FlatState) (h : Host) : FlatState × Host :=
  let h := st.sections.foldr (fun s h => h.free s.hostView) h
  let h := match st.guestReservation with
    | none => h
    | some r => h.removeReservation r
  (.fresh, h)

def setReport (st : FlatState) (windowFound reserved : Bool) (result failedAddress : Word) :
    InitReport where
  guestWindowFound := windowFound
  guestWindowReserved := reserved
  guestBase := st.guestBase.getD 0
  sectionCount := st.sections.length
  regionCount := st.regions.length
  guestMappingCount := 0
  result := result
  failedGuestAddress := failedAddress

/-- The outcome of `initializeGuestFlat`: its value, the report, and what it left. -/
structure InitOutcome where
  ok : Bool
  report : InitReport
  state : FlatState
  host : Host

def failInit (result address : Word) (st : FlatState) (h : Host) : InitOutcome :=
  let down := shutdownInternal st h
  ⟨false, setReport st st.guestBase.isSome st.guestReservation.isSome result address,
    down.1, down.2⟩

/-- Find the guest window and reserve it. -/
def reserveWindow (env : HostEnv) (st : FlatState) (h : Host) : FlatState × Host :=
  match env.findAslr with
  | none => (st, h)
  | some candidate =>
    ({ st with guestBase := some candidate, guestReservation := env.addReservation },
      match env.addReservation with
      | none => h
      | some r => { h with reservations := r :: h.reservations })

def initializeGuestFlat (env : HostEnv) (requests : List RegionRequest)
    (st : FlatState) (h : Host) :
    InitOutcome :=
  if st.active ∨ st.guestBase.isSome ∨ st.guestReservation.isSome then
    ⟨false, { InitReport.empty with result := kErrorAlreadyActive }, st, h⟩
  else if kMaxRegions < requests.length then
    ⟨false, { InitReport.empty with result := kErrorTooManyRegions }, st, h⟩
  else
    match requests.foldlM addRegion st with
    | .error (result, address, st) => failInit result address st h
    | .ok st =>
      let (st, h) := reserveWindow env st h
      if st.guestBase.isNone then failInit kErrorNoGuestWindow 0#32 st h
      else if st.guestReservation.isNone then failInit kErrorGuestReservation 0#32 st h
      else
        let (ok, sections, h) := allocSections env.callocOk 0 st.sections h
        let st := { st with sections := sections }
        if ok then
          let st := { st with active := true }
          ⟨true, setReport st true true 0#32 0#32, st, h⟩
        else failInit kErrorHostAllocation 0#32 st h

/-- The region covers the guest address. -/
def RegionMap.covers (r : RegionMap) (address : Word) : Bool :=
  r.base ≤ address && (address.setWidth 64 - r.base.setWidth 64 < r.size)

/-- The host view of a guest address: the first region that covers it decides. -/
def hostPointer (st : FlatState) (address : Word) : Option HostPtr :=
  if st.active then
    match st.regions.find? fun r => r.covers address with
    | none => none
    | some r =>
      match st.sections[r.sectionIndex]? with
      | none => none
      | some s => s.hostView.map fun p =>
          (p.add r.sectionOffset.toNat).add (address.setWidth 64 - r.base.setWidth 64).toNat
  else none

end wii_switch
