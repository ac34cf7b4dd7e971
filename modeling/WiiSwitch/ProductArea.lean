-- SCGetProductArea (include/switch_sc_hle_traits.hpp). The guest holds a table of thirteen entries
-- at most, an id and a C string of three characters at most in five bytes each, and an id of 0xFF
-- ends it early. LookupProductArea finds in it the id of the first entry with a given name.
import WiiSwitch.DvdRuns
import WiiSwitch.NandReads

namespace wii_switch

open Bytes OS

/-! ## The source -/

def kProductAreaTable : Word := 0x8029CEB0#32
def kProductAreaStride : Nat := 5
def kProductAreaCount : Nat := 13
def kDefaultPalArea : List Byte := ascii "EUR"

/-- `memcmp(p, value, length) == 0`. -/
def sameBytes (h : Host) (p : HostPtr) (value : List Byte) (length : Nat) : Bool :=
  (List.range length).map (fun i => h.byte (p.add i)) = value.take length

/-- The loop of `LookupProductArea`, with `left` entries to go from `entry` on. -/
def lookupFrom (m : Memory) (value : List Byte) (length : Nat) : Nat → Word → Word
  | 0, _ => 0xFFFFFFFF#32
  | left + 1, entry =>
    if m.contains entry (BitVec.ofNat 64 kProductAreaStride) = false then 0xFFFFFFFF#32
    else
      match m.getPointer entry (BitVec.ofNat 64 kProductAreaStride) with
      | none => 0xFFFFFFFF#32
      | some bytes =>
        if m.host.byte bytes = 0xFF#8 then 0xFFFFFFFF#32
        else if sameBytes m.host (bytes.add 1) value length = true ∧
            m.host.byte (bytes.add (1 + length)) = 0#8 then
          (m.host.byte bytes).setWidth 32
        else lookupFrom m value length left (entry + BitVec.ofNat 32 kProductAreaStride)

/-- `LookupProductArea`. The value is the bytes at the pointer, `none` for a null pointer. -/
def lookupProductArea (m : Memory) (value : Option (List Byte)) (length : Word) : Word :=
  match value with
  | none => 0xFFFFFFFF#32
  | some value =>
    if kProductAreaStride - 1 ≤ length.toNat then 0xFFFFFFFF#32
    else lookupFrom m value length.toNat kProductAreaCount kProductAreaTable

/-- `SCGetProductArea`. -/
def scGetProductArea (cpu : CpuPtr) : OS Unit := do
  if cpu = 0 then return ()
  let area ← Routine.gets fun s => lookupProductArea s.mem (some kDefaultPalArea) 3#32
  setGpr cpu 3 area

/-! ## Tables -/

/-- An area that an entry can hold. -/
structure Area where
  id : Byte
  name : List Byte
  used : id ≠ 0xFF#8
  short : name.length < kProductAreaStride - 1
  text : 0#8 ∉ name

/-- The five bytes of an entry. -/
def Area.entry (e : Area) : List Byte :=
  e.id :: (e.name ++ List.replicate (kProductAreaStride - 1 - e.name.length) 0#8)

/-- The bytes of a table with room for so many entries. -/
def tableBytes : Nat → List Area → List Byte
  | 0, _ => []
  | _ + 1, [] => [0xFF#8]
  | left + 1, e :: rest => e.entry ++ tableBytes left rest

/-- The first `length` bytes of a value are a name that an entry can hold. -/
structure Names (value : List Byte) (length : Nat) (name : List Byte) : Prop where
  bytes : value.take length = name
  length_eq : name.length = length
  short : length < kProductAreaStride - 1
  text : 0#8 ∉ name

/-- The id of the first area of that name. -/
def areaOf (table : List Area) (name : List Byte) : Word :=
  match table.find? fun e => e.name = name with
  | none => 0xFFFFFFFF#32
  | some e => e.id.setWidth 32

section

variable {config : List RegionConfig} {m : Memory} {a entry : Word} {p : HostPtr}
  {value name : List Byte} {length left : Nat}

@[simp] theorem Area.length_entry (e : Area) : e.entry.length = kProductAreaStride := by
  have := e.short
  simp only [entry, List.length_cons, List.length_append, List.length_replicate]
  omega

/-- The bytes of the name, and zeros behind it. -/
theorem Area.entry_name (e : Area) {i : Nat} (hi : i < kProductAreaStride - 1) :
    e.entry.getD (1 + i) 0#8 = e.name.getD i 0#8 := by
  rw [Nat.add_comm, entry, List.getD_cons_succ]
  by_cases hname : i < e.name.length
  · rw [List.getD_append _ _ _ _ hname]
  · rw [List.getD_append_right _ _ _ _ (by omega), List.getD_replicate _ (by omega),
      List.getD_eq_default _ _ (by omega)]

/-- An entry has the name that its bytes spell up to a zero. -/
theorem Area.name_eq_iff (e : Area) (h : Names value length name) :
    ((List.range length).map (fun i => e.entry.getD (1 + i) 0#8) = value.take length ∧
      e.entry.getD (1 + length) 0#8 = 0#8) ↔ e.name = name := by
  obtain ⟨hvalue, rfl, hshort, htext⟩ := h
  rw [hvalue]
  have hmap : (List.range name.length).map (fun i => e.entry.getD (1 + i) 0#8) =
      (List.range name.length).map fun i => e.name.getD i 0#8 := by
    refine List.map_congr_left fun i hi => e.entry_name ?_
    have := List.mem_range.mp hi
    omega
  rw [hmap, e.entry_name hshort]
  constructor
  · rintro ⟨hsame, hend⟩
    have hget : ∀ i (hi : i < name.length), e.name.getD i 0#8 = name[i] := by
      intro i hi
      simpa [hi] using congrArg (fun l => l[i]?) hsame
    have hle : e.name.length ≤ name.length := by
      by_contra hlt
      push Not at hlt
      rw [List.getD_eq_getElem _ _ hlt] at hend
      exact e.text (hend ▸ List.getElem_mem hlt)
    have hge : name.length ≤ e.name.length := by
      by_contra hlt
      push Not at hlt
      have hzero := hget e.name.length hlt
      rw [List.getD_eq_default _ _ (le_refl _)] at hzero
      exact htext (hzero ▸ List.getElem_mem hlt)
    refine List.ext_getElem (le_antisymm hle hge) fun i hi hi' => ?_
    rw [← hget i hi', List.getD_eq_getElem _ _ hi]
  · rintro rfl
    refine ⟨List.ext_getElem (by simp) fun i _ hi => ?_, List.getD_eq_default _ _ (le_refl _)⟩
    simp [hi]

/-! ## Through the host pointer -/

/-- The bytes behind a pointer are the bytes that the guest reads. -/
theorem guestBytes_pointer (hs : Serves config m) {n : Nat} (hn : 0 < n) (hn' : n ≤ 0x100000000)
    (hp : m.getPointer a (BitVec.ofNat 64 n) = some p) :
    guestBytes m a n = (List.range n).map fun i => m.host.byte (p.add i) := by
  obtain ⟨block, f, hm⟩ := hs.holds
  have hc := hs.admissible
  obtain ⟨r, hr, hcov, hpr⟩ := (getPointer_laid hc hm.laid a hn hn' p).mp hp
  refine List.map_congr_left fun i hi => ?_
  have hi := List.mem_range.mp hi
  have hadd : (a + BitVec.ofNat 32 i).toNat = a.toNat + i := by
    have := hc.end_le hr
    have := hcov.2
    rw [BitVec.toNat_add, BitVec.toNat_ofNat]
    omega
  have hhas : r.Has (a.toNat + i) := hcov.has hi
  have hone : InOneRegion config (a + BitVec.ofNat 32 i).toNat 1 := by
    rw [hadd]
    exact ⟨r, hr, hhas.1, hhas.2⟩
  rw [holds_read8 hc hm hone, Option.getD_some, hadd, ← hm.bytes r hr _ hhas,
    byteAt_add block hcov.1, hpr]
  rfl

theorem guestBytes_add (m : Memory) (a : Word) (k n : Nat) :
    guestBytes m a (k + n) = guestBytes m a k ++ guestBytes m (a + BitVec.ofNat 32 k) n := by
  unfold guestBytes
  rw [List.range_add, List.map_append, List.map_map]
  congr 1
  refine List.map_congr_left fun i _ => ?_
  rw [Function.comp_apply, BitVec.ofNat_add, BitVec.add_assoc]

@[simp] theorem length_guestBytes (m : Memory) (a : Word) (n : Nat) :
    (guestBytes m a n).length = n := by
  simp [guestBytes]

/-- An address is one byte of what lies there. -/
theorem guestBytes_split {k n : Nat} {front back : List Byte} (hk : front.length = k)
    (h : guestBytes m a (k + n) = front ++ back) :
    guestBytes m a k = front ∧ guestBytes m (a + BitVec.ofNat 32 k) n = back := by
  rw [guestBytes_add] at h
  exact List.append_inj h (by rw [length_guestBytes, hk])

/-- The loop of the source, at an entry that the guest can read. -/
theorem lookupFrom_entry (hs : Serves config m) (h : Names value length name) {e : Area}
    (hin : InOneRegion config entry.toNat kProductAreaStride)
    (hbytes : guestBytes m entry kProductAreaStride = e.entry) :
    lookupFrom m value length (left + 1) entry =
      if e.name = name then e.id.setWidth 32
      else lookupFrom m value length left (entry + BitVec.ofNat 32 kProductAreaStride) := by
  have hshort := h.short
  have hcontains := (hs.contains_iff entry (by decide) (by decide)).mpr hin
  obtain ⟨p, hp⟩ := Option.isSome_iff_exists.mp hcontains
  have hpointer := (guestBytes_pointer hs (by decide) (by decide) hp).symm.trans hbytes
  have hbyte : ∀ i < kProductAreaStride, m.host.byte (p.add i) = e.entry.getD i 0#8 := by
    intro i hi
    rw [← hpointer]
    simp [hi]
  have hid : m.host.byte p = e.id := hbyte 0 (by decide)
  have hsame : sameBytes m.host (p.add 1) value length =
      decide ((List.range length).map (fun i => e.entry.getD (1 + i) 0#8) = value.take length) := by
    unfold sameBytes
    congr 2
    refine List.map_congr_left fun i hi => ?_
    have := List.mem_range.mp hi
    have hadd : (p.add 1).add i = p.add (1 + i) := by
      simp only [HostPtr.add, Nat.add_assoc]
    rw [hadd, hbyte (1 + i) (by omega)]
  rw [lookupFrom, if_neg (by rw [hcontains]; decide), hp]
  dsimp only
  rw [hid, if_neg e.used]
  refine if_congr ?_ rfl rfl
  rw [hsame, decide_eq_true_iff, hbyte (1 + length) (by omega)]
  exact e.name_eq_iff h

/-- The byte 0xFF ends the table, whether or not there is room for an entry. -/
theorem lookupFrom_end (hs : Serves config m) (hbytes : guestBytes m entry 1 = [0xFF#8]) :
    lookupFrom m value length (left + 1) entry = 0xFFFFFFFF#32 := by
  rw [lookupFrom]
  split
  · rfl
  cases hp : m.getPointer entry (BitVec.ofNat 64 kProductAreaStride) with
  | none => rfl
  | some p =>
    have hpointer : guestBytes m entry (1 + 4) = [m.host.byte p] ++
        (List.range 4).map fun i => m.host.byte (p.add (1 + i)) :=
      guestBytes_pointer hs (by decide) (by decide) hp
    have hfirst := (guestBytes_split (k := 1) rfl hpointer).1
    rw [hbytes] at hfirst
    exact if_pos (List.cons.inj hfirst).1.symm

/-- The loop of the source finds what the rest of the table has. -/
theorem lookupFrom_table (hs : Serves config m) (h : Names value length name) {table : List Area}
    (hroom : table.length ≤ left) (hspace : entry.toNat + kProductAreaStride * left < 2 ^ 32)
    (hin : InOneRegion config entry.toNat (tableBytes left table).length)
    (hbytes : guestBytes m entry (tableBytes left table).length = tableBytes left table) :
    lookupFrom m value length left entry = areaOf table name := by
  fun_induction tableBytes left table generalizing entry with
  | case1 table =>
    obtain rfl := List.length_eq_zero_iff.mp (Nat.le_zero.mp hroom)
    rfl
  | case2 left => exact lookupFrom_end hs hbytes
  | case3 left e rest ih =>
    rw [List.length_append, e.length_entry] at hin hbytes
    obtain ⟨hentry, hrest⟩ := guestBytes_split e.length_entry hbytes
    have hnext : (entry + BitVec.ofNat 32 kProductAreaStride).toNat =
        entry.toNat + kProductAreaStride := by
      rw [BitVec.toNat_add]
      exact Nat.mod_eq_of_lt (by simp only [kProductAreaStride, BitVec.toNat_ofNat] at *; omega)
    rw [lookupFrom_entry hs h (hin.part (le_refl _) (by omega)) hentry]
    unfold areaOf
    by_cases hname : e.name = name
    · rw [if_pos hname, List.find?_cons_of_pos (by simpa using hname)]
    · rw [if_neg hname, List.find?_cons_of_neg (by simpa using hname)]
      rw [List.length_cons] at hroom
      refine ih (by omega) ?_ ?_ hrest
      · rw [hnext]
        rw [Nat.mul_succ] at hspace
        omega
      · rw [hnext]
        exact hin.part (by omega) (by omega)

/-- No area has a name of four bytes or more. -/
theorem areaOf_long (table : List Area) (h : kProductAreaStride - 1 ≤ name.length) :
    areaOf table name = 0xFFFFFFFF#32 := by
  have hnone : table.find? (fun e => e.name = name) = none := by
    refine List.find?_eq_none.mpr fun e _ hname => ?_
    rw [← of_decide_eq_true hname] at h
    exact absurd e.short (Nat.not_lt.mpr h)
  rw [areaOf, hnone]

/-- Where the guest holds the bytes of a table, the source answers each text with the id of the
first area of that name, and the guest is told that of EUR. -/
theorem a_product_area_is_the_first_of_its_name {s : Machine Memory} (hs : Serves config s.mem)
    {table : List Area} (hroom : table.length ≤ kProductAreaCount)
    (hin : InOneRegion config kProductAreaTable.toNat (tableBytes kProductAreaCount table).length)
    (hbytes : guestBytes s.mem kProductAreaTable (tableBytes kProductAreaCount table).length =
      tableBytes kProductAreaCount table) :
    (∀ (value : List Byte) (length : Word), length.toNat ≤ value.length →
      0#8 ∉ value.take length.toNat →
        lookupProductArea s.mem (some value) length = areaOf table (value.take length.toNat)) ∧
    ∀ cpu, cpu ≠ 0 →
      scGetProductArea cpu s = .ret () (s.setGpr cpu 3 (areaOf table kDefaultPalArea)) := by
  have hlookup : ∀ (value : List Byte) (length : Word), length.toNat ≤ value.length →
      0#8 ∉ value.take length.toNat →
        lookupProductArea s.mem (some value) length = areaOf table (value.take length.toNat) := by
    intro value length hlength htext
    have hname : (value.take length.toNat).length = length.toNat := List.length_take_of_le hlength
    unfold lookupProductArea
    by_cases hlong : kProductAreaStride - 1 ≤ length.toNat
    · rw [areaOf_long table (hname.symm ▸ hlong)]
      exact if_pos hlong
    · have hnames : Names value length.toNat (value.take length.toNat) :=
        ⟨rfl, hname, Nat.not_le.mp hlong, htext⟩
      rw [← lookupFrom_table hs hnames hroom (by decide) hin hbytes]
      exact if_neg hlong
  refine ⟨hlookup, fun cpu hcpu => ?_⟩
  have hdefault : lookupProductArea s.mem (some kDefaultPalArea) 3#32 =
      areaOf table kDefaultPalArea := hlookup kDefaultPalArea 3#32 (by decide) (by decide)
  unfold scGetProductArea
  rw [if_neg hcpu, ← hdefault]
  rfl

end

/-- Two areas of one name, behind one whose name is the beginning of theirs. -/
def threeAreas : List Area :=
  [⟨0x10#8, ascii "EU", by decide, by decide, by decide⟩,
   ⟨0x20#8, ascii "EUR", by decide, by decide, by decide⟩,
   ⟨0x30#8, ascii "EUR", by decide, by decide, by decide⟩]

/-- On a booted Wii that was given the table, the guest is told the second id. -/
theorem the_first_eur_is_found : ∃ s : Machine Memory, Serves wiiDefaults s.mem ∧
    guestBytes s.mem kProductAreaTable 16 = tableBytes kProductAreaCount threeAreas ∧
      scGetProductArea 1 s = .ret () (s.setGpr 1 3 0x20#32) := by
  have hin : InOneRegion wiiDefaults kProductAreaTable.toNat
      (tableBytes kProductAreaCount threeAreas).length :=
    lowMemory_mapped (by decide) (by decide)
  obtain ⟨m, hm⟩ := Option.isSome_iff_exists.mp wiiBoot_isSome
  obtain ⟨_, host, _, _, hserves, hputs⟩ := (wiiBoot_serves hm).puts (by decide) hin (le_refl _)
  have hbytes := hputs.guestBytes (by decide)
  have hfound := (a_product_area_is_the_first_of_its_name (s := bootMachine { m with host := host })
    hserves (by decide) hin hbytes).2 1 (by decide)
  exact ⟨bootMachine { m with host := host }, hserves, hbytes, hfound⟩

end wii_switch
