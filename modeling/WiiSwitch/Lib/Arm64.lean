-- A piece of the 64-bit Arm machine: the registers, a memory of bytes, and the
-- instructions that move words between them. A block runs to its first branch. The
-- rules say what a block of stores leaves in a frame of memory.
import Mathlib.Data.BitVec
import Mathlib.Data.List.Pairwise
import Mathlib.Data.Set.Defs
import Mathlib.Logic.Function.Basic

namespace Arm64

abbrev Addr := BitVec 64

abbrev Quad := BitVec 128

/-! ## Memory -/

/-- Memory, a byte at each address. -/
abbrev Ram := Addr → BitVec 8

/-- The word of eight bytes at `a`, the least byte first. -/
def Ram.read64 (m : Ram) (a : Addr) : BitVec 64 :=
  m (a + 7#64) ++ m (a + 6#64) ++ m (a + 5#64) ++ m (a + 4#64) ++
    m (a + 3#64) ++ m (a + 2#64) ++ m (a + 1#64) ++ m a

def Ram.write64 (m : Ram) (a : Addr) (v : BitVec 64) : Ram := fun b =>
  if (b - a).toNat < 8 then v.extractLsb' (8 * (b - a).toNat) 8 else m b

def Ram.read128 (m : Ram) (a : Addr) : Quad :=
  m.read64 (a + 8#64) ++ m.read64 a

def Ram.write128 (m : Ram) (a : Addr) (v : Quad) : Ram :=
  (m.write64 a (v.extractLsb' 0 64)).write64 (a + 8#64) (v.extractLsb' 64 64)

/-- The `n` addresses from `a` on. -/
def span (a : Addr) (n : Nat) : Set Addr := { b | (b - a).toNat < n }

theorem mem_span {a b : Addr} {n : Nat} : b ∈ span a n ↔ (b - a).toNat < n := Iff.rfl

theorem add_mem_span (a : Addr) {k n : Nat} (hk : k < n) : a + BitVec.ofNat 64 k ∈ span a n := by
  rw [mem_span, BitVec.add_comm, BitVec.add_sub_cancel, BitVec.toNat_ofNat]
  exact lt_of_le_of_lt (Nat.mod_le _ _) hk

theorem span_mono (a : Addr) {k n : Nat} (h : k ≤ n) : span a k ⊆ span a n :=
  fun _ hb => lt_of_lt_of_le hb h

/-- A span within a span. -/
theorem span_add_subset (a : Addr) {k l n : Nat} (h : k + l ≤ n) (hn : n ≤ 2 ^ 64) :
    span (a + BitVec.ofNat 64 k) l ⊆ span a n := by
  intro b hb
  rw [mem_span] at hb ⊢
  bv_omega

/-- Two spans at offsets that are apart have no address in common. -/
theorem span_apart (a : Addr) {k l k' l' : Nat} (h : k + l ≤ k') (hn : k' + l' ≤ 2 ^ 64) :
    ∀ b ∈ span (a + BitVec.ofNat 64 k) l, b ∉ span (a + BitVec.ofNat 64 k') l' := by
  intro b hb hb'
  rw [mem_span] at hb hb'
  bv_omega

theorem write64_outside (m : Ram) (v : BitVec 64) {a b : Addr} (h : b ∉ span a 8) :
    m.write64 a v b = m b := if_neg h

theorem write64_inside (m : Ram) (a : Addr) (v : BitVec 64) {k : Nat} (hk : k < 8) :
    m.write64 a v (a + BitVec.ofNat 64 k) = v.extractLsb' (8 * k) 8 := by
  have hsub : (a + BitVec.ofNat 64 k - a).toNat = k := by
    rw [BitVec.add_comm, BitVec.add_sub_cancel, BitVec.toNat_ofNat]
    omega
  unfold Ram.write64
  rw [hsub, if_pos hk]

/-- A word only reads its own bytes. -/
theorem read64_congr {m m' : Ram} {a : Addr} (h : ∀ b ∈ span a 8, m' b = m b) :
    m'.read64 a = m.read64 a := by
  have hk (k : Nat) (hk : k < 8) := h _ (add_mem_span a hk)
  have h0 : m' a = m a := by simpa using hk 0 (by omega)
  unfold Ram.read64
  rw [h0, hk 1 (by omega), hk 2 (by omega), hk 3 (by omega), hk 4 (by omega), hk 5 (by omega),
    hk 6 (by omega), hk 7 (by omega)]

theorem read64_write64 (m : Ram) (a : Addr) (v : BitVec 64) : (m.write64 a v).read64 a = v := by
  have h0 : m.write64 a v a = v.extractLsb' 0 8 := by
    simpa using write64_inside m a v (k := 0) (by omega)
  unfold Ram.read64
  rw [h0, write64_inside m a v (k := 1) (by omega), write64_inside m a v (k := 2) (by omega),
    write64_inside m a v (k := 3) (by omega), write64_inside m a v (k := 4) (by omega),
    write64_inside m a v (k := 5) (by omega), write64_inside m a v (k := 6) (by omega),
    write64_inside m a v (k := 7) (by omega)]
  ext i hi
  simp only [BitVec.getElem_append, BitVec.getElem_extractLsb']
  grind

theorem read128_congr {m m' : Ram} {a : Addr} (h : ∀ b ∈ span a 16, m' b = m b) :
    m'.read128 a = m.read128 a := by
  unfold Ram.read128
  rw [read64_congr fun b hb => h b (span_mono a (by omega) hb),
    read64_congr fun b hb => h b (span_add_subset a (k := 8) (by omega) (by omega) hb)]

theorem write128_outside (m : Ram) (v : Quad) {a b : Addr} (h : b ∉ span a 16) :
    m.write128 a v b = m b := by
  unfold Ram.write128
  rw [write64_outside _ _ fun hb => h (span_add_subset a (k := 8) (by omega) (by omega) hb),
    write64_outside _ _ fun hb => h (span_mono a (by omega) hb)]

theorem read128_write128 (m : Ram) (a : Addr) (v : Quad) : (m.write128 a v).read128 a = v := by
  have hlow : (m.write128 a v).read64 a = v.extractLsb' 0 64 := by
    have h := span_apart a (Nat.le_refl (0 + 8)) (Nat.le_of_ble_eq_true rfl : 8 + 8 ≤ 2 ^ 64)
    rw [BitVec.add_zero] at h
    unfold Ram.write128
    rw [read64_congr (m := m.write64 a (v.extractLsb' 0 64)), read64_write64]
    exact fun b hb => write64_outside _ _ (h b hb)
  have hhigh : (m.write128 a v).read64 (a + 8#64) = v.extractLsb' 64 64 := read64_write64 _ _ _
  unfold Ram.read128
  rw [hlow, hhigh]
  ext i hi
  simp only [BitVec.getElem_append, BitVec.getElem_extractLsb']
  grind

/-! ## Frames -/

/-- A value in a frame, at its offset. -/
inductive Cell
  | word (offset : Nat) (v : BitVec 64)
  | quad (offset : Nat) (v : Quad)

def Cell.offset : Cell → Nat
  | .word k _ => k
  | .quad k _ => k

def Cell.size : Cell → Nat
  | .word _ _ => 8
  | .quad _ _ => 16

/-- The addresses of the cell in the frame at `base`. -/
def Cell.place (c : Cell) (base : Addr) : Set Addr :=
  span (base + BitVec.ofNat 64 c.offset) c.size

/-- The cell is in the frame at `base`. -/
def Ram.Holds (m : Ram) (base : Addr) : Cell → Prop
  | .word k v => m.read64 (base + BitVec.ofNat 64 k) = v
  | .quad k v => m.read128 (base + BitVec.ofNat 64 k) = v

def Ram.put (m : Ram) (base : Addr) : Cell → Ram
  | .word k v => m.write64 (base + BitVec.ofNat 64 k) v
  | .quad k v => m.write128 (base + BitVec.ofNat 64 k) v

/-- The first cell ends before the second, or the second before the first. -/
def Cell.Apart (c d : Cell) : Prop :=
  c.offset + c.size ≤ d.offset ∨ d.offset + d.size ≤ c.offset

instance (c d : Cell) : Decidable (c.Apart d) := inferInstanceAs (Decidable (_ ∨ _))

theorem put_holds (m : Ram) (base : Addr) (c : Cell) : (m.put base c).Holds base c := by
  cases c with
  | word k v => exact read64_write64 _ _ _
  | quad k v => exact read128_write128 _ _ _

theorem put_outside (m : Ram) {base b : Addr} {c : Cell} (h : b ∉ c.place base) :
    m.put base c b = m b := by
  cases c with
  | word k v => exact write64_outside _ _ h
  | quad k v => exact write128_outside _ _ h

theorem holds_congr {m m' : Ram} {base : Addr} {c : Cell} (h : ∀ b ∈ c.place base, m' b = m b)
    (hc : m.Holds base c) : m'.Holds base c := by
  cases c with
  | word k v => exact (read64_congr h).trans hc
  | quad k v => exact (read128_congr h).trans hc

theorem Cell.Apart.outside {c d : Cell} (h : c.Apart d) {n : Nat} (hn : n ≤ 2 ^ 64)
    (hc : c.offset + c.size ≤ n) (hd : d.offset + d.size ≤ n) (base : Addr) :
    ∀ b ∈ c.place base, b ∉ d.place base := by
  intro b hb hb'
  rcases h with h | h
  · exact span_apart base h (by omega) b hb hb'
  · exact span_apart base h (by omega) b hb' hb

/-- The memory after the cells are stored in order. -/
def Ram.puts (m : Ram) (base : Addr) (l : List Cell) : Ram :=
  l.foldl (fun m c => m.put base c) m

/-- The cells of a frame of `n` bytes, no two of which overlap. -/
structure Laid (n : Nat) (l : List Cell) : Prop where
  apart : l.Pairwise Cell.Apart
  within : ∀ c ∈ l, c.offset + c.size ≤ n

theorem place_subset_span {c : Cell} {n : Nat} (hn : n ≤ 2 ^ 64) (hc : c.offset + c.size ≤ n)
    (base : Addr) : c.place base ⊆ span base n :=
  span_add_subset base hc hn

theorem Laid.tail {n : Nat} {c : Cell} {l : List Cell} (h : Laid n (c :: l)) : Laid n l :=
  ⟨h.apart.of_cons, fun d hd => h.within d (List.mem_cons_of_mem _ hd)⟩

theorem Laid.puts_outside {n : Nat} {l : List Cell} (h : Laid n l) (hn : n ≤ 2 ^ 64) (m : Ram)
    {base b : Addr} (hb : b ∉ span base n) : m.puts base l b = m b := by
  induction l generalizing m with
  | nil => rfl
  | cons c l ih =>
    have hc := h.within c List.mem_cons_self
    calc (m.put base c).puts base l b = m.put base c b := ih h.tail _
      _ = m b := put_outside m fun hp => hb (place_subset_span hn hc base hp)

/-- The stores leave a cell that is apart from all of theirs. -/
theorem Laid.puts_keep {n : Nat} {l : List Cell} (h : Laid n l) (hn : n ≤ 2 ^ 64) {m : Ram}
    {base : Addr} {c : Cell} (hc : c.offset + c.size ≤ n) (hl : ∀ d ∈ l, c.Apart d)
    (hm : m.Holds base c) : (m.puts base l).Holds base c := by
  induction l generalizing m with
  | nil => exact hm
  | cons d l ih =>
    have hd := h.within d List.mem_cons_self
    have hout := (hl d List.mem_cons_self).outside hn hc hd base
    apply ih h.tail fun e he => hl e (List.mem_cons_of_mem _ he)
    exact holds_congr (fun b hb => put_outside m (hout b hb)) hm

/-- After the stores every cell of the frame holds its value. -/
theorem Laid.puts_hold {n : Nat} {l : List Cell} (h : Laid n l) (hn : n ≤ 2 ^ 64) (m : Ram)
    (base : Addr) : ∀ c ∈ l, (m.puts base l).Holds base c := by
  induction l generalizing m with
  | nil => simp
  | cons d l ih =>
    intro c hc
    rcases List.mem_cons.mp hc with rfl | hc
    · exact h.tail.puts_keep hn (h.within c List.mem_cons_self)
        (List.pairwise_cons.mp h.apart).1 (put_holds m base c)
    · exact ih h.tail (m.put base d) c hc

/-! ## Instructions -/

/-- There are general registers to number. -/
instance generalNeZero : NeZero 31 := ⟨by decide⟩

/-- There are vector registers to number. -/
instance vectorNeZero : NeZero 32 := ⟨by decide⟩

inductive Reg
  | x (i : Fin 31)
  | sp
  | zr
  deriving DecidableEq

structure Cpu where
  x : Fin 31 → BitVec 64
  q : Fin 32 → Quad
  sp : Addr
  pc : Addr
  mem : Ram

@[simp] def Cpu.get (s : Cpu) : Reg → BitVec 64
  | .x i => s.x i
  | .sp => s.sp
  | .zr => 0#64

@[simp] def Cpu.set (s : Cpu) : Reg → BitVec 64 → Cpu
  | .x i, v => { s with x := Function.update s.x i v }
  | .sp, v => { s with sp := v }
  | .zr, _ => s

@[simp] def Cpu.setQ (s : Cpu) (i : Fin 32) (v : Quad) : Cpu :=
  { s with q := Function.update s.q i v }

/-- The instructions. A register that is written comes first, one that is stored does
too; the base of an address comes next, and its offset last. -/
inductive Instr
  | add (d n : Reg) (imm : Nat)
  | sub (d n : Reg) (imm : Nat)
  | bic (d n : Reg) (imm : Nat)
  | mov (d n : Reg)
  | adr (d : Reg) (label : Addr)
  | str (t n : Reg) (imm : Nat)
  | stp (t u n : Reg) (imm : Nat)
  | stpQ (t u : Fin 32) (n : Reg) (imm : Nat)
  | ldr (t n : Reg) (imm : Nat)
  | ldp (t u n : Reg) (imm : Nat)
  | ldpQ (t u : Fin 32) (n : Reg) (imm : Nat)
  | blr (n : Reg)
  | ret
  | brk

/-- The instructions that end a block. -/
@[simp] def Instr.branches : Instr → Bool
  | .blr _ => true
  | .ret => true
  | .brk => true
  | _ => false

@[simp] def Cpu.next (s : Cpu) : Cpu := { s with pc := s.pc + 4#64 }

/-- The address of an access, from a base register and an offset. -/
@[simp] def Cpu.address (s : Cpu) (n : Reg) (imm : Nat) : Addr := s.get n + BitVec.ofNat 64 imm

@[simp] def exec : Instr → Cpu → Cpu
  | .add d n k, s => (s.set d (s.get n + BitVec.ofNat 64 k)).next
  | .sub d n k, s => (s.set d (s.get n - BitVec.ofNat 64 k)).next
  | .bic d n k, s => (s.set d (s.get n &&& ~~~BitVec.ofNat 64 k)).next
  | .mov d n, s => (s.set d (s.get n)).next
  | .adr d label, s => (s.set d label).next
  | .str t n k, s => { s with mem := s.mem.put (s.get n) (.word k (s.get t)) }.next
  | .stp t u n k, s =>
    let mem := s.mem.put (s.get n) (.word k (s.get t))
    { s with mem := mem.put (s.get n) (.word (k + 8) (s.get u)) }.next
  | .stpQ t u n k, s =>
    let mem := s.mem.put (s.get n) (.quad k (s.q t))
    { s with mem := mem.put (s.get n) (.quad (k + 16) (s.q u)) }.next
  | .ldr t n k, s => (s.set t (s.mem.read64 (s.address n k))).next
  | .ldp t u n k, s =>
    ((s.set t (s.mem.read64 (s.address n k))).set u (s.mem.read64 (s.address n (k + 8)))).next
  | .ldpQ t u n k, s =>
    ((s.setQ t (s.mem.read128 (s.address n k))).setQ u (s.mem.read128 (s.address n (k + 16)))).next
  | .blr n, s => { s.set (.x 30) (s.pc + 4#64) with pc := s.get n }
  | .ret, s => { s with pc := s.x 30 }
  -- The trap does not come back.
  | .brk, s => s

/-- A block up to its first branch. -/
@[simp] def run : List Instr → Cpu → Cpu
  | [], s => s
  | i :: is, s => if i.branches then exec i s else run is (exec i s)

theorem run_append {is js : List Instr} (h : ∀ i ∈ is, i.branches = false) (s : Cpu) :
    run (is ++ js) s = run js (run is s) := by
  induction is generalizing s with
  | nil => rfl
  | cons i is ih =>
    have hi := h i List.mem_cons_self
    simp only [List.cons_append, run, hi, Bool.false_eq_true, if_false]
    exact ih (fun j hj => h j (List.mem_cons_of_mem _ hj)) _

end Arm64
