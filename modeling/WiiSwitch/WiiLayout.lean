-- Layouts of finitely many blocks in the cached MEM1 of a Wii. A computation says
-- whether their blocks overlap, and when they do not the layout is sound. A booted
-- Wii shows zeros, and from there a memory can come to show any finite view.
import WiiSwitch.InterruptLaws
import WiiSwitch.View

namespace wii_switch

open Bytes

/-- All blocks of a layout with these threads, wait queues and mutexes. -/
def blocksOf (threads waits mutexes : List Word) : List OSBlock :=
  kernelWords.map .global ++
    (List.finRange 32).map (fun p => .queue (runQueueOf (BitVec.ofNat 32 p))) ++
    waits.map .queue ++ threads.map .thread ++ mutexes.map .mutex

def wiiLayout (threads waits mutexes : List Word) : Layout :=
  ⟨wiiDefaults, {t | t ∈ threads}, {q | q ∈ waits}, {m | m ∈ mutexes}, ∅⟩

/-- The blocks lie in cached MEM1, and no two of them overlap. -/
def fitTogether (blocks : List OSBlock) : Bool :=
  blocks.all fun b => 0x80000000 ≤ b.address.toNat ∧ b.address.toNat + b.size ≤ 0x81800000 ∧
    blocks.all fun c => b = c ∨ b.address.toNat + b.size ≤ c.address.toNat ∨
      c.address.toNat + c.size ≤ b.address.toNat

theorem mem_blocksOf {threads waits mutexes : List Word} {b : OSBlock}
    (h : (wiiLayout threads waits mutexes).HasBlock b) : b ∈ blocksOf threads waits mutexes := by
  simp only [blocksOf, List.mem_append, List.mem_map, List.mem_finRange, true_and]
  cases b with
  | global a => exact Or.inl (Or.inl (Or.inl (Or.inl ⟨a, h, rfl⟩)))
  | queue q =>
    rcases h with ⟨p, rfl⟩ | h
    · exact Or.inl (Or.inl (Or.inl (Or.inr ⟨p, rfl⟩)))
    · exact Or.inl (Or.inl (Or.inr ⟨q, h, rfl⟩))
  | thread t => exact Or.inl (Or.inr ⟨t, h, rfl⟩)
  | mutex m => exact Or.inr ⟨m, h, rfl⟩
  | word a => exact h.elim

theorem sound_of_fit {L : Layout} (hconfig : L.config = wiiDefaults) {blocks : List OSBlock}
    (hmem : ∀ b, L.HasBlock b → b ∈ blocks) (h : fitTogether blocks = true) : L.Sound := by
  simp only [fitTogether, List.all_eq_true, decide_eq_true_eq] at h
  refine ⟨hconfig ▸ wiiDefaults_admissible, fun b hb => ?_, fun b hb h0 => ?_,
    fun b c hb hc hne => ?_⟩
  · obtain ⟨h1, h2, _⟩ := h b (hmem b hb)
    rw [hconfig]
    exact lowMemory_mapped h1 h2
  · obtain ⟨h1, _, _⟩ := h b (hmem b hb)
    rw [h0] at h1
    exact absurd h1 (by decide)
  · obtain ⟨h1, h2, h3⟩ := h b (hmem b hb)
    obtain ⟨h4, h5, _⟩ := h c (hmem c hc)
    have hdis := (h3 c (hmem c hc)).resolve_left hne
    refine apart_of_mod _ ?_ ?_ ?_ <;> omega

theorem wiiLayout_sound {threads waits mutexes : List Word}
    (h : fitTogether (blocksOf threads waits mutexes) = true) :
    (wiiLayout threads waits mutexes).Sound :=
  sound_of_fit rfl (fun _ => mem_blocksOf) h

/-! ## Views of a Wii -/

/-- The view with the given cells and states, and zeros elsewhere. -/
def View.ofList (cells : List (Cell × Word)) (states : List (Word × Half)) : View :=
  states.foldl (fun v e => v.putState e.1 e.2)
    (cells.foldl (fun v e => v.put e.1 e.2) ⟨fun _ => 0#32, fun _ => 0#16⟩)

theorem wiiBoot_isSome : wiiBoot.isSome = true := by decide +kernel

/-- A booted Wii shows zeros. -/
theorem wiiBoot_read {m : Memory} (hm : wiiBoot = some m) (k : Width) {a : Word}
    (hin : InOneRegion wiiDefaults a.toNat k.bytes) : m.read k a = some 0#k.bits := by
  obtain ⟨block, hholds⟩ := init_holds wiiDefaults_admissible (.start _) hm
  have hread := readAs_holds wiiDefaults_admissible hholds k.bits_eq k.bytes_pos k.bytes_lt hin
  rw [ofBE_zero] at hread
  rw [Memory.read_eq, hread]

/-- A Wii with a given finite view. -/
theorem exists_view {L : Layout} (hL : L.Sound) (hconfig : L.config = wiiDefaults)
    (cells : List (Cell × Word)) (states : List (Word × Half))
    (hcells : ∀ e ∈ cells, L.HasCell e.1) (hstates : ∀ e ∈ states, e.1 ∈ L.threads) :
    ∃ m, Represents L m (View.ofList cells states) := by
  obtain ⟨m, hm⟩ := Option.isSome_iff_exists.mp wiiBoot_isSome
  have hcell := fun {c} (hc : L.HasCell c) => hconfig ▸ hL.cell_mapped hc
  have hstate := fun {t} (ht : t ∈ L.threads) => hconfig ▸ hL.state_mapped ht
  have hzero : Represents L m ⟨fun _ => 0#32, fun _ => 0#16⟩ :=
    ⟨hL, hconfig ▸ wiiBoot_serves hm, fun _ hc => wiiBoot_read hm .w32 (hcell hc),
      fun _ ht => wiiBoot_read hm .w16 (hstate ht)⟩
  have hput : ∀ (l : List (Cell × Word)) (v : View), (∀ e ∈ l, L.HasCell e.1) →
      (∃ m, Represents L m v) → ∃ m,
      Represents L m (l.foldl (fun v e => v.put e.1 e.2) v) := by
    intro l
    induction l with
    | nil => exact fun v _ hv => hv
    | cons e l ih =>
      rintro v hl ⟨m, hv⟩
      obtain ⟨m', _, hm'⟩ := hv.write (hl e List.mem_cons_self) e.2
      exact ih _ (fun e' he' => hl e' (List.mem_cons_of_mem _ he')) ⟨m', hm'⟩
  have hputState : ∀ (l : List (Word × Half)) (v : View), (∀ e ∈ l, e.1 ∈ L.threads) →
      (∃ m, Represents L m v) → ∃ m,
      Represents L m (l.foldl (fun v e => v.putState e.1 e.2) v) := by
    intro l
    induction l with
    | nil => exact fun v _ hv => hv
    | cons e l ih =>
      rintro v hl ⟨m, hv⟩
      obtain ⟨m', _, hm'⟩ := hv.writeState (hl e List.mem_cons_self) e.2
      exact ih _ (fun e' he' => hl e' (List.mem_cons_of_mem _ he')) ⟨m', hm'⟩
  exact hputState states _ hstates (hput cells _ hcells ⟨m, hzero⟩)

theorem exists_wii {threads waits mutexes : List Word}
    (h : fitTogether (blocksOf threads waits mutexes) = true) (cells : List (Cell × Word))
    (states : List (Word × Half))
    (hcells : ∀ e ∈ cells, (wiiLayout threads waits mutexes).HasCell e.1)
    (hstates : ∀ e ∈ states, e.1 ∈ threads) :
    ∃ m, Represents (wiiLayout threads waits mutexes) m (View.ofList cells states) :=
  exists_view (wiiLayout_sound h) rfl cells states hcells hstates

/-! ## More words -/

/-- The layout with words of its own. -/
def Layout.withWords (L : Layout) (words : List Word) : Layout :=
    { L with words := {a | a ∈ words} }

theorem mem_blocksOf_withWords {threads waits mutexes words : List Word} {b : OSBlock}
    (h : ((wiiLayout threads waits mutexes).withWords words).HasBlock b) :
    b ∈ blocksOf threads waits mutexes ++ words.map .word := by
  rw [List.mem_append]
  cases b with
  | word a => exact Or.inr (List.mem_map.mpr ⟨a, h, rfl⟩)
  | _ => exact Or.inl (mem_blocksOf h)

end wii_switch
