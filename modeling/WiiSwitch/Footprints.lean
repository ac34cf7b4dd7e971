-- What a routine leaves outside the cells of a layout. A routine that writes cells alone is
-- decided by the view that it leaves: two such routines that leave one view leave one memory.
import WiiSwitch.View

namespace wii_switch

open OS Routine

/-! ## Outside the cells -/

/-- Every read apart from the cells and the thread states gives what it gave before. -/
def Elsewhere (L : Layout) (m m' : Memory) : Prop :=
  ∀ (k : Width) (a : Word),
    (∀ c, L.HasCell c → Apart L.config a.toNat k.bytes c.address.toNat 4) →
    (∀ t ∈ L.threads, Apart L.config a.toNat k.bytes (t + kThreadStateOffset).toNat 2) →
      m'.read k a = m.read k a

section

variable {L : Layout} {m m' m'' : Memory} {v w : View}

theorem Elsewhere.refl (L : Layout) (m : Memory) : Elsewhere L m m := fun _ _ _ _ => rfl

theorem Elsewhere.trans (h : Elsewhere L m m') (h' : Elsewhere L m' m'') : Elsewhere L m m'' := by
  intro k a hcells hstates
  rw [h' k a hcells hstates, h k a hcells hstates]

theorem Represents.write_elsewhere (h : Represents L m v) {c : Cell} (hc : L.HasCell c) (x : Word) :
    ∃ m', m.write32 c.address x = some m' ∧ Represents L m' (v.put c x) ∧
    Elsewhere L m m' := by
  obtain ⟨m', hw, hm'⟩ := h.write hc x
  refine ⟨m', hw, hm', fun k a hcells _ => ?_⟩
  exact h.serves.read_frame (k := .w32) hw (hcells c hc).symm

theorem Represents.writeState_elsewhere (h : Represents L m v) {t : Word} (ht : t ∈ L.threads)
    (x : Half) : ∃ m', m.write16 (t + kThreadStateOffset) x = some m' ∧
      Represents L m' (v.putState t x) ∧ Elsewhere L m m' := by
  obtain ⟨m', hw, hm'⟩ := h.writeState ht x
  refine ⟨m', hw, hm', fun k a _ hstates => ?_⟩
  exact h.serves.read_frame (k := .w16) hw (hstates t ht).symm

theorem not_apart_byte {config : List RegionConfig} {a b n : Nat} (h : ¬ Apart config a 1 b n) :
    ∃ i < n, SameByte config (b + i) a := by
  unfold Apart at h
  push Not at h
  obtain ⟨i, hi, j, hj, hs⟩ := h
  obtain rfl : i = 0 := by omega
  exact ⟨j, hj, hs.symm⟩

/-- Two memories that came from one without a change outside the cells give the same reads
where the cells have the same words. -/
theorem Represents.read_eq {m₁ m₂ : Memory} (h₁ : Represents L m₁ v)
    (h₂ : Represents L m₂ w) (e₁ : Elsewhere L m m₁) (e₂ : Elsewhere L m m₂)
    {k : Width} {a : Word} (hwords : ∀ c, L.HasCell c →
      v.word c = w.word c ∨ Apart L.config a.toNat k.bytes c.address.toNat 4)
    (hstates : ∀ t ∈ L.threads, v.state t = w.state t) : m₂.read k a = m₁.read k a := by
  refine h₁.serves.read_of_read8 h₂.serves ?_
  rintro b ⟨i, hi, hb⟩
  by_cases hcell : ∃ c, L.HasCell c ∧ ¬ Apart L.config b.toNat 1 c.address.toNat 4
  · -- the byte is in a cell
    obtain ⟨c, hc, hnot⟩ := hcell
    obtain ⟨j, hj, hs⟩ := not_apart_byte hnot
    have hword : v.word c = w.word c := by
      refine (hwords c hc).resolve_right fun hap => hap i hi j hj ?_
      rw [← hb]
      exact hs.symm
    refine h₁.serves.read8_of_read h₂.serves (k := .w32) hj (h₁.sound.cell_mapped hc) hs ?_
    change m₂.read32 c.address = m₁.read32 c.address
    rw [h₁.words c hc, h₂.words c hc, hword]
  · by_cases hstate : ∃ t ∈ L.threads,
      ¬ Apart L.config b.toNat 1 (t + kThreadStateOffset).toNat 2
    · -- the byte is in the state of a thread
      obtain ⟨t, ht, hnot⟩ := hstate
      obtain ⟨j, hj, hs⟩ := not_apart_byte hnot
      refine h₁.serves.read8_of_read h₂.serves (k := .w16) hj (h₁.sound.state_mapped ht) hs ?_
      change m₂.read16 (t + kThreadStateOffset) = m₁.read16 (t + kThreadStateOffset)
      rw [h₁.states t ht, h₂.states t ht, hstates t ht]
    · push Not at hcell hstate
      change m₂.read .w8 b = m₁.read .w8 b
      rw [e₁ .w8 b hcell hstate, e₂ .w8 b hcell hstate]

end

/-! ## Routines that write cells alone -/

/-- From every machine whose memory represents `v`, the routine ends with `a`. It writes cells
alone, and the memory then represents `w`. -/
def Writes {α : Type} (L : Layout) (x : OS α) (v : View) (a : α) (w : View) : Prop :=
  ∀ s, Represents L s.mem v → ∃ m, x s = .ret a (s.withMem m) ∧ Represents L m w ∧
    Elsewhere L s.mem m

section

variable {L : Layout} {α β : Type} {v w u : View}

theorem Writes.runs {x : OS α} {a : α} (h : Writes L x v a w) : Runs L x v a w := by
  intro s hs
  obtain ⟨m, hrun, hm, _⟩ := h s hs
  exact ⟨m, hrun, hm⟩

theorem Writes.to {x : OS α} {a : α} {w' : View} (h : Writes L x v a w) (hw : w = w') :
    Writes L x v a w' := hw ▸ h

theorem Sees.writes {x : OS α} {a : α} (h : Sees L x v a) : Writes L x v a v := fun s hs =>
  ⟨s.mem, h s hs, hs, Elsewhere.refl L s.mem⟩

theorem writes_pure (a : α) : Writes L (pure a) v a v := (sees_pure a).writes

theorem writes_bind {x : OS α} {y : α → OS β} {a : α} {b : β} (hx : Writes L x v a w)
    (hy : Writes L (y a) w b u) : Writes L (x >>= y) v b u := by
  intro s hs
  obtain ⟨m, hxs, hm, he⟩ := hx s hs
  obtain ⟨m', hys, hm', he'⟩ := hy (s.withMem m) hm
  exact ⟨m', (bind_of hxs).trans hys, hm', he.trans he'⟩

theorem writes_read {c : Cell} (hc : L.HasCell c) {a : Word} (ha : a = c.address) :
    Writes L (read32 a) v (v.word c) v := (sees_read hc ha).writes

theorem writes_write {c : Cell} (hc : L.HasCell c) {a : Word} (ha : a = c.address) (x : Word) :
    Writes L (write32 a x) v () (v.put c x) := by
  intro s hs
  obtain ⟨m, hw, hm, he⟩ := hs.write_elsewhere hc x
  exact ⟨m, write32_ret (ha ▸ hw), hm, he⟩

theorem writes_write_state {t : Word} (ht : t ∈ L.threads) (x : Half) :
    Writes L (write16 (t + kThreadStateOffset) x) v () (v.putState t x) := by
  intro s hs
  obtain ⟨m, hw, hm, he⟩ := hs.writeState_elsewhere ht x
  exact ⟨m, write16_ret hw, hm, he⟩

/-- Two routines that leave one view leave one memory. -/
theorem Writes.same_memory {x y : OS α} {a b : α} (hx : Writes L x v a w) (hy : Writes L y v b w)
    {s : Machine Memory} (hs : Represents L s.mem v) : ∃ m₁ m₂,
    x s = .ret a (s.withMem m₁) ∧
      y s = .ret b (s.withMem m₂) ∧ ∀ k p, m₂.read k p = m₁.read k p := by
  obtain ⟨m₁, hx₁, h₁, e₁⟩ := hx s hs
  obtain ⟨m₂, hy₂, h₂, e₂⟩ := hy s hs
  refine ⟨m₁, m₂, hx₁, hy₂, fun k p => ?_⟩
  exact h₁.read_eq h₂ e₁ e₂ (fun _ _ => Or.inl rfl) fun _ _ => rfl

end

end wii_switch
