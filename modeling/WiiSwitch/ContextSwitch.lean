-- The switch of host stacks in assembly. A call leaves the registers that a callee must
-- keep in a frame on its own stack, and takes those of the target from the frame of the
-- target. A new context starts from a frame made by hand.
import WiiSwitch.Lib.Arm64
import WiiSwitch.Lib.Bytes
import Mathlib.Data.Set.Insert
import Mathlib.Tactic.FinCases

namespace wii_switch.context_switch

open Arm64 Reg

/-! ## The routines -/

/-- Saves the registers of the caller below its stack pointer, leaves the stack pointer at
the address in `x1`, and takes over the stack pointer at the address in `x0`. -/
def mkw_switch_co_switch : List Instr :=
  [.sub sp sp 240,
    .str (x 18) sp 0,
    .stp (x 19) (x 20) sp 16,
    .stp (x 21) (x 22) sp 32,
    .stp (x 23) (x 24) sp 48,
    .stp (x 25) (x 26) sp 64,
    .stp (x 27) (x 28) sp 80,
    .stp (x 29) (x 30) sp 96,
    .stpQ 8 9 sp 112,
    .stpQ 10 11 sp 144,
    .stpQ 12 13 sp 176,
    .stpQ 14 15 sp 208,
    .mov (x 2) sp,
    .str (x 2) (x 1) 0,
    .ldr (x 2) (x 0) 0,
    .mov sp (x 2),
    .ldr (x 18) sp 0,
    .ldp (x 19) (x 20) sp 16,
    .ldp (x 21) (x 22) sp 32,
    .ldp (x 23) (x 24) sp 48,
    .ldp (x 25) (x 26) sp 64,
    .ldp (x 27) (x 28) sp 80,
    .ldp (x 29) (x 30) sp 96,
    .ldpQ 8 9 sp 112,
    .ldpQ 10 11 sp 144,
    .ldpQ 12 13 sp 176,
    .ldpQ 14 15 sp 208,
    .add sp sp 240,
    .ret]

/-- Makes the first frame of a context from the end of its stack in `x0`, the entry in
`x1` and its argument in `x2`. -/
def mkw_switch_co_init (mkw_switch_co_entry_trampoline : Addr) : List Instr :=
  [.bic (x 0) (x 0) 0xf,
    .sub (x 0) (x 0) 240,
    .str (x 18) (x 0) 0,
    .str (x 1) (x 0) 16,
    .str (x 2) (x 0) 24,
    .str zr (x 0) 96,
    .adr (x 3) mkw_switch_co_entry_trampoline,
    .str (x 3) (x 0) 104,
    .ret]

def mkw_switch_co_entry_trampoline : List Instr :=
  [.mov (x 0) (x 20),
    .blr (x 19),
    .brk]

/-! ## The two halves of a call -/

/-- A call up to the store of its stack pointer. -/
def suspend (s : Cpu) : Cpu := run (mkw_switch_co_switch.take 14) s

/-- A call from the load of the other stack pointer on. -/
def resume (s : Cpu) : Cpu := run (mkw_switch_co_switch.drop 14) s

theorem switch_eq (s : Cpu) : run mkw_switch_co_switch s = resume (suspend s) := by
  have hstraight : ∀ i ∈ mkw_switch_co_switch.take 14, i.branches = false := by
    simp [mkw_switch_co_switch, Instr.branches]
  have h : run (mkw_switch_co_switch.take 14 ++ mkw_switch_co_switch.drop 14) s =
      resume (suspend s) := run_append hstraight s
  rw [List.take_append_drop] at h
  exact h

/-- The registers that a call keeps, at their offsets. -/
def savedFrame (s : Cpu) : List Cell :=
  [.word 0 (s.x 18), .word 16 (s.x 19), .word 24 (s.x 20), .word 32 (s.x 21),
    .word 40 (s.x 22), .word 48 (s.x 23), .word 56 (s.x 24), .word 64 (s.x 25),
    .word 72 (s.x 26), .word 80 (s.x 27), .word 88 (s.x 28), .word 96 (s.x 29),
    .word 104 (s.x 30), .quad 112 (s.q 8), .quad 128 (s.q 9), .quad 144 (s.q 10),
    .quad 160 (s.q 11), .quad 176 (s.q 12), .quad 192 (s.q 13), .quad 208 (s.q 14),
    .quad 224 (s.q 15)]

theorem savedFrame_laid (s : Cpu) : Laid 240 (savedFrame s) where
  apart := by simp [savedFrame, Cell.Apart, Cell.offset, Cell.size]
  within := by simp [savedFrame, Cell.offset, Cell.size]

theorem suspend_mem (s : Cpu) : (suspend s).mem =
    (s.mem.puts (s.sp - 240#64) (savedFrame s)).write64 (s.x 1) (s.sp - 240#64) := by
  simp [suspend, mkw_switch_co_switch, Ram.puts, savedFrame, Ram.put]

theorem suspend_x0 (s : Cpu) : (suspend s).x 0 = s.x 0 := rfl

/-- The offset of the register `x18`, …, `x30` in the frame. -/
def slotX (i : Fin 31) : Nat := if i = 18 then 0 else 8 * (i.val - 17)

/-- The offset of the register `q8`, …, `q15` in the frame. -/
def slotQ (i : Fin 32) : Nat := 112 + 16 * (i.val - 8)

theorem word_mem_savedFrame (s : Cpu) {i : Fin 31} (hi : 18 ≤ i) :
    .word (slotX i) (s.x i) ∈ savedFrame s := by
  fin_cases i
  all_goals first
    | exact absurd hi (by decide)
    | simp [savedFrame, slotX]

theorem quad_mem_savedFrame (s : Cpu) {i : Fin 32} (hi : 8 ≤ i) (hi' : i ≤ 15) :
    .quad (slotQ i) (s.q i) ∈ savedFrame s := by
  fin_cases i
  all_goals first
    | exact absurd hi (by decide)
    | exact absurd hi' (by decide)
    | simp [savedFrame, slotQ]

/-- The stack pointer that the call takes over. -/
def target (s : Cpu) : Addr := s.mem.read64 (s.x 0)

theorem resume_sp (s : Cpu) : (resume s).sp = target s + 240#64 := by
  simp [resume, mkw_switch_co_switch, target]

theorem resume_pc (s : Cpu) : (resume s).pc = s.mem.read64 (target s + 104#64) := by
  simp [resume, mkw_switch_co_switch, target]

theorem resume_mem (s : Cpu) : (resume s).mem = s.mem := by
  simp [resume, mkw_switch_co_switch]

theorem resume_x (s : Cpu) {i : Fin 31} (hi : 18 ≤ i) :
    (resume s).x i = s.mem.read64 (target s + BitVec.ofNat 64 (slotX i)) := by
  fin_cases i
  all_goals first
    | exact absurd hi (by decide)
    | simp [resume, mkw_switch_co_switch, target, slotX]

theorem resume_q (s : Cpu) {i : Fin 32} (hi : 8 ≤ i) (hi' : i ≤ 15) :
    (resume s).q i = s.mem.read128 (target s + BitVec.ofNat 64 (slotQ i)) := by
  fin_cases i
  all_goals first
    | exact absurd hi (by decide)
    | exact absurd hi' (by decide)
    | simp [resume, mkw_switch_co_switch, target, slotQ]

/-- A call leaves its registers in the frame, and the address of the frame in its slot. -/
theorem suspend_holds (s : Cpu) (h : ∀ b ∈ span (s.sp - 240#64) 240, b ∉ span (s.x 1) 8) :
    (suspend s).mem.read64 (s.x 1) = s.sp - 240#64 ∧
      ∀ c ∈ savedFrame s, (suspend s).mem.Holds (s.sp - 240#64) c := by
  have hlaid := savedFrame_laid s
  rw [suspend_mem]
  constructor
  · exact read64_write64 _ _ _
  · intro c hc
    have hsub := place_subset_span (by omega) (hlaid.within c hc) (s.sp - 240#64)
    have hput := hlaid.puts_hold (by omega) s.mem (s.sp - 240#64) c hc
    exact holds_congr (fun b hb => write64_outside _ _ (h b (hsub hb))) hput

/-- A call only writes its frame and its slot. -/
theorem suspend_outside {s : Cpu} {b : Addr} (hframe : b ∉ span (s.sp - 240#64) 240)
    (hslot : b ∉ span (s.x 1) 8) : (suspend s).mem b = s.mem b := by
  rw [suspend_mem, write64_outside _ _ hslot]
  exact (savedFrame_laid s).puts_outside (by omega) s.mem hframe

/-! ## A new frame -/

/-- The base of the first frame on a stack with the end `top`. -/
def firstBase (top : Addr) : Addr := (top &&& ~~~15#64) - 240#64

def firstFrame (mkw_switch_co_entry_trampoline : Addr) (s : Cpu) : List Cell :=
  [.word 0 (s.x 18), .word 16 (s.x 1), .word 24 (s.x 2), .word 96 0#64,
    .word 104 mkw_switch_co_entry_trampoline]

theorem firstFrame_laid (trampoline : Addr) (s : Cpu) : Laid 240 (firstFrame trampoline s) where
  apart := by simp [firstFrame, Cell.Apart, Cell.offset, Cell.size]
  within := by simp [firstFrame, Cell.offset, Cell.size]

theorem init_x0 (trampoline : Addr) (s : Cpu) :
    (run (mkw_switch_co_init trampoline) s).x 0 = firstBase (s.x 0) := by
  simp [mkw_switch_co_init, firstBase]

theorem init_mem (trampoline : Addr) (s : Cpu) :
    (run (mkw_switch_co_init trampoline) s).mem =
      s.mem.puts (firstBase (s.x 0)) (firstFrame trampoline s) := by
  simp [mkw_switch_co_init, firstBase, firstFrame, Ram.puts, Ram.put]

theorem trampoline_pc (s : Cpu) : (run mkw_switch_co_entry_trampoline s).pc = s.x 19 := by
  simp [mkw_switch_co_entry_trampoline]

theorem trampoline_x0 (s : Cpu) : (run mkw_switch_co_entry_trampoline s).x 0 = s.x 20 := by
  simp [mkw_switch_co_entry_trampoline]

theorem trampoline_x29 (s : Cpu) : (run mkw_switch_co_entry_trampoline s).x 29 = s.x 29 := by
  simp [mkw_switch_co_entry_trampoline]

theorem trampoline_sp (s : Cpu) : (run mkw_switch_co_entry_trampoline s).sp = s.sp := by
  simp [mkw_switch_co_entry_trampoline]

/-! ## The contexts -/

/-- Where the contexts have their stacks, and the slots of their stack pointers. -/
structure Homes (κ : Type) where
  stack : κ → Set Addr
  slot : κ → Addr
  stacks_apart : ∀ c d, c ≠ d → ∀ b ∈ stack c, b ∉ stack d
  slots_apart : ∀ c d, c ≠ d → ∀ b ∈ span (slot c) 8, b ∉ span (slot d) 8
  slots_off_stacks : ∀ c d, ∀ b ∈ span (slot c) 8, b ∉ stack d

variable {κ : Type} {homes : Homes κ} {trampoline : Addr}

/-- The bytes that only `c` may write, or a switch from `c`. -/
def Homes.own (homes : Homes κ) (c : κ) : Set Addr :=
  homes.stack c ∪ span (homes.slot c) 8

theorem Homes.own_outside (homes : Homes κ) {c d : κ} (h : c ≠ d) {b : Addr}
    (hb : b ∈ homes.own c) : b ∉ homes.stack d ∧ b ∉ span (homes.slot d) 8 := by
  rcases hb with hb | hb
  · exact ⟨homes.stacks_apart c d h b hb, fun hd => homes.slots_off_stacks d c b hd hb⟩
  · exact ⟨homes.slots_off_stacks c d b hb, homes.slots_apart c d h b hb⟩

/-- The machine, the context that runs, and those that wait: they were made, or called a
switch, and were not resumed since. -/
structure System (κ : Type) where
  cpu : Cpu
  current : κ
  waiting : Set κ

inductive Event (κ : Type)
  | computes
  | makes (d : κ) (top entry arg : Addr)
  | drops (d : κ)
  | switches (source target : κ)

/-- A context after `mkw_switch_co_init`, with the result in its slot. -/
def made (trampoline slot : Addr) (s : Cpu) : Cpu :=
  let s' := run (mkw_switch_co_init trampoline) s
  { s' with mem := s'.mem.write64 slot (s'.x 0) }

/-- What the running context can do. Its own code does anything to the registers and to
memory, but leaves the stacks and slots of the others. -/
inductive Step (homes : Homes κ) (trampoline : Addr) :
    System κ → Event κ → System κ → Prop
  | computes {σ : System κ} {cpu : Cpu}
      (others : ∀ d, d ≠ σ.current → ∀ b ∈ homes.own d, cpu.mem b = σ.cpu.mem b) :
      Step homes trampoline σ .computes { σ with cpu := cpu }
  | makes {σ : System κ} {d : κ} (other : d ≠ σ.current) (unmade : d ∉ σ.waiting)
      (room : span (firstBase (σ.cpu.x 0)) 240 ⊆ homes.stack d) :
      Step homes trampoline σ (.makes d (σ.cpu.x 0) (σ.cpu.x 1) (σ.cpu.x 2))
        { σ with
          cpu := made trampoline (homes.slot d) σ.cpu
          waiting := insert d σ.waiting }
  | drops {σ : System κ} {d : κ} (other : d ≠ σ.current) :
      Step homes trampoline σ (.drops d) { σ with waiting := σ.waiting \ {d} }
  | switches {σ : System κ} {t : κ} (waits : t ∈ insert σ.current σ.waiting)
      (source : σ.cpu.x 1 = homes.slot σ.current) (target : σ.cpu.x 0 = homes.slot t)
      (room : span (σ.cpu.sp - 240#64) 240 ⊆ homes.stack σ.current) :
      Step homes trampoline σ (.switches σ.current t)
        { cpu := run mkw_switch_co_switch σ.cpu
          current := t
          waiting := insert σ.current σ.waiting \ {t} }

/-- The event neither resumes `c` nor frees it. -/
def Event.Leaves (c : κ) : Event κ → Prop
  | .computes => True
  | .makes _ _ _ _ => True
  | .drops d => d ≠ c
  | .switches _ t => t ≠ c

/-- A run in which `c` is neither resumed nor freed. -/
inductive Others (homes : Homes κ) (trampoline : Addr) (c : κ) : System κ → System κ → Prop
  | refl (σ : System κ) : Others homes trampoline c σ σ
  | step {σ σ' σ'' : System κ} {e : Event κ} (run : Others homes trampoline c σ σ')
      (last : Step homes trampoline σ' e σ'') (leaves : e.Leaves c) :
      Others homes trampoline c σ σ''

/-- The context waits, with its stack and its slot as in the memory `m`. -/
structure System.Rests (σ : System κ) (homes : Homes κ) (c : κ) (m : Ram) : Prop where
  waits : c ∈ σ.waiting
  away : σ.current ≠ c
  same : ∀ b ∈ homes.own c, σ.cpu.mem b = m b

/-- A call only writes to the stack and the slot of its context. -/
theorem suspend_own {σ : System κ} (source : σ.cpu.x 1 = homes.slot σ.current)
    (room : span (σ.cpu.sp - 240#64) 240 ⊆ homes.stack σ.current) {c : κ}
    (hc : c ≠ σ.current) {b : Addr} (hb : b ∈ homes.own c) : (suspend σ.cpu).mem b =
      σ.cpu.mem b := by
  have hout := homes.own_outside hc hb
  apply suspend_outside
  · exact fun h => hout.1 (room h)
  · rw [source]
    exact hout.2

theorem made_own {σ : System κ} {d : κ}
    (room : span (firstBase (σ.cpu.x 0)) 240 ⊆ homes.stack d) {c : κ} (hc : c ≠ d) {b : Addr}
    (hb : b ∈ homes.own c) : (made trampoline (homes.slot d) σ.cpu).mem b = σ.cpu.mem b := by
  have hout := homes.own_outside hc hb
  unfold made
  simp only [init_mem]
  rw [write64_outside _ _ hout.2]
  exact (firstFrame_laid trampoline σ.cpu).puts_outside (by omega) _ fun h => hout.1 (room h)

/-- One step of the others leaves a context that rests as it is. -/
theorem Step.rests {σ σ' : System κ} {e : Event κ} {c : κ} {m : Ram}
    (h : Step homes trampoline σ e σ') (hleaves : e.Leaves c) (hc : σ.Rests homes c m) :
    σ'.Rests homes c m := by
  cases h with
  | computes others =>
    exact ⟨hc.waits, hc.away, fun b hb => (others c hc.away.symm b hb).trans (hc.same b hb)⟩
  | @makes d other unmade room =>
    have hne : c ≠ d := by
      intro h
      exact unmade (h ▸ hc.waits)
    exact ⟨Or.inr hc.waits, hc.away, fun b hb => (made_own room hne hb).trans (hc.same b hb)⟩
  | drops other =>
    exact ⟨⟨hc.waits, fun h => hleaves h.symm⟩, hc.away, hc.same⟩
  | switches waits source target room =>
    refine ⟨⟨Or.inr hc.waits, fun h => hleaves h.symm⟩, hleaves, ?_⟩
    intro b hb
    rw [switch_eq, resume_mem, suspend_own source room hc.away.symm hb]
    exact hc.same b hb

/-- So does any run of the others. -/
theorem Others.rests {σ σ' : System κ} {c : κ} {m : Ram} (h : Others homes trampoline c σ σ')
    (hc : σ.Rests homes c m) : σ'.Rests homes c m := by
  induction h with
  | refl => exact hc
  | step _ last leaves ih => exact last.rests leaves ih

/-! ## Resuming -/

/-- The registers that a callee keeps are those at the call, and it has returned. -/
structure Kept (atCall after : Cpu) : Prop where
  x : ∀ i, 18 ≤ i → after.x i = atCall.x i
  q : ∀ i, 8 ≤ i → i ≤ 15 → after.q i = atCall.q i
  sp : after.sp = atCall.sp
  pc : after.pc = atCall.x 30

/-- The rest of a call that takes over the frame of an earlier one restores its registers. -/
theorem resume_kept {s s₀ : Cpu} (ht : target s = s₀.sp - 240#64)
    (h : ∀ c ∈ savedFrame s₀, s.mem.Holds (s₀.sp - 240#64) c) : Kept s₀ (resume s) where
  x i hi := by
    rw [resume_x s hi, ht]
    exact h _ (word_mem_savedFrame s₀ hi)
  q i hi hi' := by
    rw [resume_q s hi hi', ht]
    exact h _ (quad_mem_savedFrame s₀ hi hi')
  sp := by rw [resume_sp, ht, BitVec.sub_add_cancel]
  pc := by
    rw [resume_pc, ht]
    exact h _ (word_mem_savedFrame s₀ (i := 30) (by decide))

/-- The context has its frame at `base`, and the memory `m` says so. -/
structure Homes.Framed (homes : Homes κ) (c : κ) (m : Ram) (base : Addr) : Prop where
  slot : m.read64 (homes.slot c) = base
  room : span base 240 ⊆ homes.stack c

/-- A switch to a context that rests finds its frame as it was left. -/
theorem System.Rests.found {σ : System κ} {c : κ} {m : Ram} {base : Addr}
    (h : σ.Rests homes c m) (hf : homes.Framed c m base) (hto : σ.cpu.x 0 = homes.slot c)
    (source : σ.cpu.x 1 = homes.slot σ.current)
    (room : span (σ.cpu.sp - 240#64) 240 ⊆ homes.stack σ.current) :
    target (suspend σ.cpu) = base ∧
      ∀ cell : Cell, cell.offset + cell.size ≤ 240 → m.Holds base cell →
        (suspend σ.cpu).mem.Holds base cell := by
  have hsame : ∀ b ∈ homes.own c, (suspend σ.cpu).mem b = m b := by
    intro b hb
    rw [suspend_own source room h.away.symm hb, h.same b hb]
  constructor
  · unfold target
    rw [suspend_x0, hto, read64_congr fun b hb => hsame b (Or.inr hb), hf.slot]
  · intro cell hcell hm
    have hsub := place_subset_span (by omega) hcell base
    exact holds_congr (fun b hb => hsame b (Or.inl (hf.room (hsub hb)))) hm

/-- `c` calls a switch, and goes on in the last system. -/
inductive Away (homes : Homes κ) (trampoline : Addr) (c : κ) (σ₀ : System κ) :
    System κ → Prop
  | self {σ : System κ} (call : Step homes trampoline σ₀ (.switches c c) σ) :
      Away homes trampoline c σ₀ σ
  | back {σ₁ σ₂ σ : System κ} {t d : κ} (other : t ≠ c)
      (call : Step homes trampoline σ₀ (.switches c t) σ₁)
      (others : Others homes trampoline c σ₁ σ₂)
      (back : Step homes trampoline σ₂ (.switches d c) σ) : Away homes trampoline c σ₀ σ

/-- `c` is made, and is resumed for the first time in the last system. -/
inductive Begins (homes : Homes κ) (trampoline : Addr) (c : κ) (top entry arg : Addr)
    (σ₀ : System κ) : System κ → Prop
  | first {σ₁ σ₂ σ : System κ} {d : κ}
      (make : Step homes trampoline σ₀ (.makes c top entry arg) σ₁)
      (others : Others homes trampoline c σ₁ σ₂)
      (first : Step homes trampoline σ₂ (.switches d c) σ) :
      Begins homes trampoline c top entry arg σ₀ σ

/-- The machine is at the start of the trampoline, which enters `entry` with `arg`. -/
structure Started (trampoline top entry arg : Addr) (s : Cpu) : Prop where
  pc : s.pc = trampoline
  entry : (run mkw_switch_co_entry_trampoline s).pc = entry
  x0 : (run mkw_switch_co_entry_trampoline s).x 0 = arg
  x29 : (run mkw_switch_co_entry_trampoline s).x 29 = 0#64
  sp : (run mkw_switch_co_entry_trampoline s).sp.toNat = top.toNat / 16 * 16

theorem switch_inv {σ σ' : System κ} {c t : κ}
    (h : Step homes trampoline σ (.switches c t) σ') :
    σ.current = c ∧ σ.cpu.x 1 = homes.slot c ∧ σ.cpu.x 0 = homes.slot t ∧
      span (σ.cpu.sp - 240#64) 240 ⊆ homes.stack c ∧
      σ' = { cpu := resume (suspend σ.cpu), current := t, waiting :=
        insert c σ.waiting \ {t} } := by
  cases h with
  | switches waits source target room =>
    exact ⟨rfl, source, target, room, by rw [switch_eq]⟩

/-- A call leaves a frame with the registers of its context. -/
theorem call_framed {σ σ' : System κ} {c t : κ}
    (h : Step homes trampoline σ (.switches c t) σ') :
    homes.Framed c (suspend σ.cpu).mem (σ.cpu.sp - 240#64) ∧
      ∀ cell ∈ savedFrame σ.cpu, (suspend σ.cpu).mem.Holds (σ.cpu.sp - 240#64) cell := by
  obtain ⟨-, source, -, room, -⟩ := switch_inv h
  have hoff : ∀ b ∈ span (σ.cpu.sp - 240#64) 240, b ∉ span (σ.cpu.x 1) 8 := by
    intro b hb hs
    rw [source] at hs
    exact homes.slots_off_stacks c c b hs (room hb)
  have hholds := suspend_holds σ.cpu hoff
  rw [source] at hholds
  exact ⟨⟨hholds.1, room⟩, hholds.2⟩

/-- Whatever runs until a context goes on, it has its registers then. -/
theorem Away.kept {σ₀ σ : System κ} {c : κ} (h : Away homes trampoline c σ₀ σ) :
    Kept σ₀.cpu σ.cpu := by
  cases h with
  | self call =>
    obtain ⟨hframed, hholds⟩ := call_framed call
    obtain ⟨-, source, target, -, rfl⟩ := switch_inv call
    apply resume_kept _ hholds
    unfold context_switch.target
    rw [suspend_x0, target]
    exact hframed.slot
  | @back σ₁ σ₂ _ t d other call others back =>
    obtain ⟨hframed, hholds⟩ := call_framed call
    obtain ⟨-, -, -, -, rfl⟩ := switch_inv call
    have hrests : System.Rests _ homes c (suspend σ₀.cpu).mem := others.rests
      { waits := ⟨Or.inl rfl, other.symm⟩
        away := other
        same := fun b _ => by rw [resume_mem] }
    obtain ⟨rfl, source, target, room, rfl⟩ := switch_inv back
    obtain ⟨hbase, hkeep⟩ := hrests.found hframed target source room
    exact resume_kept hbase fun cell hcell =>
      hkeep cell ((savedFrame_laid σ₀.cpu).within cell hcell) (hholds cell hcell)

/-- The rest of a call that takes over a frame made by hand starts its entry. -/
theorem resume_started {s s₀ : Cpu} (ht : target s = firstBase (s₀.x 0))
    (h : ∀ c ∈ firstFrame trampoline s₀, s.mem.Holds (firstBase (s₀.x 0)) c) :
    Started trampoline (s₀.x 0) (s₀.x 1) (s₀.x 2) (resume s) := by
  have hx (i : Fin 31) (hi : 18 ≤ i) (v : BitVec 64)
      (hv : .word (slotX i) v ∈ firstFrame trampoline s₀) : (resume s).x i = v := by
    rw [resume_x s hi, ht]
    exact h _ hv
  have hpc : (resume s).pc = trampoline := by
    rw [resume_pc, ht]
    exact h (.word 104 trampoline) (by simp [firstFrame])
  have hsp : (resume s).sp = s₀.x 0 &&& ~~~15#64 := by
    rw [resume_sp, ht]
    exact BitVec.sub_add_cancel _ _
  constructor
  · exact hpc
  · rw [trampoline_pc]
    exact hx 19 (by decide) (s₀.x 1) (by simp [firstFrame, slotX])
  · rw [trampoline_x0]
    exact hx 20 (by decide) (s₀.x 2) (by simp [firstFrame, slotX])
  · rw [trampoline_x29]
    exact hx 29 (by decide) 0#64 (by simp [firstFrame, slotX])
  · rw [trampoline_sp, hsp]
    exact Bytes.toNat_and_not_low (s₀.x 0) 4

theorem makes_inv {σ σ' : System κ} {c : κ} {top entry arg : Addr}
    (h : Step homes trampoline σ (.makes c top entry arg) σ') :
    c ≠ σ.current ∧ span (firstBase top) 240 ⊆ homes.stack c ∧ top = σ.cpu.x 0 ∧
      entry = σ.cpu.x 1 ∧ arg = σ.cpu.x 2 ∧
      σ' = { σ with
        cpu := made trampoline (homes.slot c) σ.cpu
        waiting := insert c σ.waiting } := by
  cases h with
  | makes other unmade room => exact ⟨other, room, rfl, rfl, rfl, rfl⟩

/-- A new context has the frame made by hand. -/
theorem make_framed {σ σ' : System κ} {c : κ} {top entry arg : Addr}
    (h : Step homes trampoline σ (.makes c top entry arg) σ') :
    homes.Framed c σ'.cpu.mem (firstBase top) ∧
      ∀ cell ∈ firstFrame trampoline σ.cpu, σ'.cpu.mem.Holds (firstBase top) cell := by
  obtain ⟨-, room, rfl, -, -, rfl⟩ := makes_inv h
  have hlaid := firstFrame_laid trampoline σ.cpu
  simp only [made, init_mem, init_x0]
  constructor
  · exact ⟨read64_write64 _ _ _, room⟩
  · intro cell hcell
    have hsub := place_subset_span (by omega) (hlaid.within cell hcell) (firstBase (σ.cpu.x 0))
    have hput := hlaid.puts_hold (by omega) σ.cpu.mem (firstBase (σ.cpu.x 0)) cell hcell
    refine holds_congr (fun b hb => write64_outside _ _ fun hs => ?_) hput
    exact homes.slots_off_stacks c c b hs (room (hsub hb))

/-- The first resume of a context enters it on its own empty stack. -/
theorem Begins.started {σ₀ σ : System κ} {c : κ} {top entry arg : Addr}
    (h : Begins homes trampoline c top entry arg σ₀ σ) :
    Started trampoline top entry arg σ.cpu := by
  cases h with
  | @first σ₁ σ₂ _ d make others first =>
    obtain ⟨hframed, hholds⟩ := make_framed make
    obtain ⟨hne, -, htop, hentry, harg, hσ₁⟩ := makes_inv make
    have hrests : System.Rests _ homes c σ₁.cpu.mem := others.rests
      { waits := by rw [hσ₁]; exact Or.inl rfl
        away := by rw [hσ₁]; exact hne.symm
        same := fun b _ => rfl }
    obtain ⟨rfl, source, target, room, rfl⟩ := switch_inv first
    obtain ⟨hbase, hkeep⟩ := hrests.found hframed target source room
    have hcell : ∀ cell ∈ firstFrame trampoline σ₀.cpu,
        (suspend σ₂.cpu).mem.Holds (firstBase top) cell := fun cell hcell =>
      hkeep cell ((firstFrame_laid trampoline σ₀.cpu).within cell hcell) (hholds cell hcell)
    rw [htop, hentry, harg] at *
    exact resume_started hbase hcell

/-- A context goes on with the registers of its own call, whatever the others do with them
until then. A new context starts its entry on an empty stack, with its argument. -/
theorem contexts_keep_their_registers (homes : Homes κ) (trampoline : Addr) (c : κ)
    (σ₀ σ : System κ) :
    (Away homes trampoline c σ₀ σ → Kept σ₀.cpu σ.cpu) ∧
      ∀ top entry arg, Begins homes trampoline c top entry arg σ₀ σ →
        Started trampoline top entry arg σ.cpu := by
  constructor
  · exact Away.kept
  · intro top entry arg
    exact Begins.started

/-! ## Two contexts -/

def twoHomes : Homes Bool where
  stack c := span (if c then 0x2000#64 else 0x1000#64) 0x1000
  slot c := if c then 0x108#64 else 0x100#64
  stacks_apart c d h b := by cases c <;> cases d <;> simp [mem_span] at h ⊢ <;> bv_omega
  slots_apart c d h b := by cases c <;> cases d <;> simp [mem_span] at h ⊢ <;> bv_omega
  slots_off_stacks c d b := by cases c <;> cases d <;> simp [mem_span] <;> bv_omega

/-- The scheduler makes a worker. -/
def makesWorker : System Bool where
  cpu := ⟨fun i => if i = 0 then 0x3008#64 else if i = 1 then 0x5000#64 else 7#64, fun _ => 1#128,
    0x1800#64, 0x4000#64, fun _ => 0#8⟩
  current := false
  waiting := ∅

/-- The scheduler calls the switch to the worker. -/
def callsWorker : System Bool where
  cpu :=
    { made 0x4400#64 0x108#64 makesWorker.cpu with
      x := fun i => if i = 0 then 0x108#64 else if i = 1 then 0x100#64 else 9#64 }
  current := false
  waiting := insert true makesWorker.waiting

def workerBegins : System Bool where
  cpu := run mkw_switch_co_switch callsWorker.cpu
  current := true
  waiting := insert false callsWorker.waiting \ {true}

/-- The worker calls the switch to the scheduler, with other values in its registers. -/
def workerCalls : System Bool where
  cpu :=
    { workerBegins.cpu with
      x := fun i => if i = 0 then 0x100#64 else if i = 1 then 0x108#64 else 5#64
      q := fun _ => 2#128
      sp := 0x2f00#64 }
  current := true
  waiting := workerBegins.waiting

def schedulerGoesOn : System Bool where
  cpu := run mkw_switch_co_switch workerCalls.cpu
  current := false
  waiting := insert true workerCalls.waiting \ {false}

theorem worker_made : Step twoHomes 0x4400#64 makesWorker
    (.makes true 0x3008#64 0x5000#64 7#64)
    { makesWorker with
      cpu := made 0x4400#64 0x108#64 makesWorker.cpu
      waiting := insert true makesWorker.waiting } := by
  apply Step.makes (σ := makesWorker) (d := true)
  · decide
  · exact id
  · exact span_add_subset 0x2000#64 (k := 0xf10) (by omega) (by omega)

theorem worker_called :
    Step twoHomes 0x4400#64 callsWorker (.switches false true) workerBegins := by
  apply Step.switches (σ := callsWorker)
  · exact Or.inr (Or.inl rfl)
  · rfl
  · rfl
  · exact span_add_subset 0x1000#64 (k := 0x710) (by omega) (by omega)

theorem scheduler_called :
    Step twoHomes 0x4400#64 workerCalls (.switches true false) schedulerGoesOn := by
  apply Step.switches (σ := workerCalls)
  · exact Or.inr ⟨Or.inl rfl, Bool.false_ne_true⟩
  · rfl
  · rfl
  · exact span_add_subset 0x2000#64 (k := 0xe10) (by omega) (by omega)

/-- The worker starts, and the scheduler has its registers when it goes on. -/
theorem scheduler_and_worker_keep_their_registers :
    Kept callsWorker.cpu schedulerGoesOn.cpu ∧
      Started 0x4400#64 0x3008#64 0x5000#64 7#64 workerBegins.cpu := by
  have hsame {σ : System Bool} (cpu : Cpu) (h : cpu.mem = σ.cpu.mem) :
      Step twoHomes 0x4400#64 σ .computes { σ with cpu := cpu } :=
    Step.computes fun _ _ b _ => congrFun h b
  constructor
  · apply (contexts_keep_their_registers twoHomes 0x4400#64 false callsWorker schedulerGoesOn).1
    exact .back (by decide) worker_called
      ((Others.refl _).step (hsame workerCalls.cpu rfl) trivial) scheduler_called
  · apply (contexts_keep_their_registers twoHomes 0x4400#64 true makesWorker workerBegins).2
    exact .first worker_made ((Others.refl _).step (hsame callsWorker.cpu rfl) trivial)
      worker_called

end wii_switch.context_switch
