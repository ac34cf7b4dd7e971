-- The laws of the mutexes. The owner words, the counts and the held lists of guest
-- memory track a set of re-entrant locks; each call that does not reach a boundary
-- makes one step there. What holds of the locks over a history then holds of memory.
import WiiSwitch.Lib.Locks
import WiiSwitch.Lib.Ring
import WiiSwitch.View
import WiiSwitch.InterruptReturn

namespace wii_switch

open OS Routine Ring

/-! ## Held lists -/

/-- The word that leads on from `x` in the held list of `t`. -/
def heldNextCell (t x : Word) : Cell := if x = 0#32 then .thread .heldHead t else .mutex .next x

/-- The word that leads back from `x` in the held list of `t`. -/
def heldPrevCell (t x : Word) : Cell := if x = 0#32 then .thread .heldTail t else .mutex .prev x

namespace View

/-- The mutexes that a thread holds, in the order of its list. -/
def HeldList (v : View) (t : Word) (ms : List Word) : Prop :=
  Linked (fun x => v.word (heldNextCell t x)) (fun x => v.word (heldPrevCell t x)) 0#32 ms

/-- The mutex `m` at the tail of the held list of `t`. -/
def holdLast (v : View) (t m : Word) : View :=
  (((v.put (heldNextCell t (v.word (.thread .heldTail t))) m).put (.mutex .prev m)
    (v.word (.thread .heldTail t))).put (.mutex .next m) 0#32).put (.thread .heldTail t) m

/-- The mutex `m` out of the held list of `t`. -/
def unhold (v : View) (t m : Word) : View :=
  (v.put (heldPrevCell t (v.word (.mutex .next m))) (v.word (.mutex .prev m))).put
    (heldNextCell t (v.word (.mutex .prev m))) (v.word (.mutex .next m))

theorem HeldList.holdLast {v : View} {t m : Word} {ms : List Word} (h : v.HeldList t ms)
    (hm0 : m ≠ 0#32) (hm : m ∉ ms) : (v.holdLast t m).HeldList t (ms ++ [m]) := by
  rw [HeldList, ← List.append_nil ms] at h
  refine Linked.insert h (by simp [hm0, hm]) rfl (fun x => ?_) fun x => ?_
  · simp only [View.holdLast, put_word, heldNextCell, heldPrevCell, first_nil]
    grind
  · simp only [View.holdLast, put_word, heldNextCell, heldPrevCell, first_nil]
    grind

theorem HeldList.ne_zero {v : View} {t m : Word} {ms : List Word} (h : v.HeldList t ms)
    (hm : m ∈ ms) : m ≠ 0#32 := by
  rintro rfl
  exact (List.nodup_cons.mp h.2).1 hm

theorem HeldList.unhold {v : View} {t m : Word} {ms : List Word} (h : v.HeldList t ms)
    (hm : m ∈ ms) : (v.unhold t m).HeldList t (ms.erase m) := by
  have hm0 := h.ne_zero hm
  obtain ⟨xs, ys, rfl⟩ := List.append_of_mem hm
  have hxs : m ∉ xs := by
    have := (List.nodup_cons.mp h.2).2
    rw [List.nodup_append] at this
    exact fun hx => this.2.2 m hx m List.mem_cons_self rfl
  rw [List.erase_append_right _ hxs, List.erase_cons_head]
  refine Linked.remove h (fun x _ => ?_) fun x _ => ?_
  · simp only [View.unhold, put_word, heldNextCell, heldPrevCell, if_neg hm0]
    grind
  · simp only [View.unhold, put_word, heldNextCell, heldPrevCell, if_neg hm0]
    grind

/-- The links next to a held mutex are held mutexes, or null. -/
theorem HeldList.next_mem {v : View} {t m : Word} {ms : List Word} (h : v.HeldList t ms)
    (hm : m ∈ ms) : v.word (.mutex .next m) ∈ 0#32 :: ms ∧
    v.word (.mutex .prev m) ∈ 0#32 :: ms := by
  have hm0 := h.ne_zero hm
  obtain ⟨xs, ys, rfl⟩ := List.append_of_mem hm
  obtain ⟨h1, h2⟩ := path_append.mp h.1
  have hb := h1.bk_mem
  have hf := h2.fd_eq
  simp only [heldPrevCell, heldNextCell, if_neg hm0] at hb hf
  refine ⟨?_, ?_⟩
  · rw [hf]
    cases ys with
    | nil => simp
    | cons y ys => simp
  · rcases List.mem_cons.mp hb with hb | hb
    · rw [hb]
      exact List.mem_cons_self
    · exact List.mem_cons_of_mem _ (List.mem_append_left _ hb)

theorem HeldList.tail_mem {v : View} {t : Word} {ms : List Word} (h : v.HeldList t ms) :
    v.word (.thread .heldTail t) ∈ 0#32 :: ms := h.1.bk_mem

end View

/-- The words of the locks: those of the mutexes, and the held lists of the threads. -/
def Cell.OfLocks : Cell → Prop
  | .mutex _ _ => True
  | .thread f _ => f = .heldHead ∨ f = .heldTail
  | _ => False

/-! ## Tracking -/

/-- The words of the view say what the locks are. -/
structure Tracks (L : Layout) (v : View) (l : Locks Word Word) : Prop where
  owned : ∀ m t, l.owner m = some t → m ∈ L.mutexes ∧ t ∈ L.threads
  owner : ∀ m ∈ L.mutexes, v.word (.mutex .owner m) = (l.owner m).getD 0#32
  count : ∀ m ∈ L.mutexes, v.word (.mutex .count m) = BitVec.ofNat 32 (l.count m)
  held : ∀ t ∈ L.threads, v.HeldList t (l.held t)

variable {L : Layout} {v w : View} {l l' : Locks Word Word} {t m : Word}

theorem Tracks.mem_mutexes (h : Tracks L v l) (hl : l.Good) {k : Word} (hk : k ∈ l.held t) :
    k ∈ L.mutexes := (h.owned k t ((hl.held_iff t k).mp hk)).1

theorem Tracks.congr (h : Tracks L v l) (hl : l.Good)
    (hw : ∀ c, L.HasCell c → c.OfLocks → w.word c = v.word c) : Tracks L w l := by
  refine ⟨h.owned, fun m hm => ?_, fun m hm => ?_, fun t ht => ?_⟩
  · rw [hw (.mutex .owner m) hm trivial]
    exact h.owner m hm
  · rw [hw (.mutex .count m) hm trivial]
    exact h.count m hm
  · refine (h.held t ht).congr (fun x hx => ?_) fun x hx => ?_
    · by_cases hx0 : x = 0#32
      · simpa [heldNextCell, hx0] using hw (.thread .heldHead t) ht (Or.inl rfl)
      · have hxm := h.mem_mutexes hl ((List.mem_cons.mp hx).resolve_left hx0)
        simpa [heldNextCell, hx0] using hw (.mutex .next x) hxm trivial
    · by_cases hx0 : x = 0#32
      · simpa [heldPrevCell, hx0] using hw (.thread .heldTail t) ht (Or.inr rfl)
      · have hxm := h.mem_mutexes hl ((List.mem_cons.mp hx).resolve_left hx0)
        simpa [heldPrevCell, hx0] using hw (.mutex .prev x) hxm trivial

/-- Another count of an owned mutex. -/
theorem Tracks.setCount (h : Tracks L v l) (n : Nat) :
    Tracks L (v.put (.mutex .count m) (BitVec.ofNat 32 n)) (l.setCount m n) := by
  refine ⟨h.owned, fun k hk => ?_, fun k hk => ?_, fun u hu => ?_⟩
  · simpa [Locks.setCount] using h.owner k hk
  · by_cases hkm : k = m
    · simp [Locks.setCount, hkm]
    · simpa [Locks.setCount, hkm] using h.count k hk
  · refine (h.held u hu).congr (fun x _ => ?_) fun x _ => ?_
    · simp only [heldNextCell]
      split <;> simp
    · simp only [heldPrevCell]
      split <;> simp

/-- The first lock of a free mutex. -/
theorem Tracks.acquire (h : Tracks L v l) (hl : l.Good) (hL : L.Sound) (ht : t ∈ L.threads)
    (hm : m ∈ L.mutexes) (hfree : l.owner m = none) :
    Tracks L (((v.put (.mutex .owner m) t).put (.mutex .count m) 1#32).holdLast t m)
      (l.acquire t m) := by
  have hm0 := hL.mutex_ne_zero hm
  have hnot : ∀ u, m ∉ l.held u := fun u hu => by
    rw [(hl.held_iff u m).mp hu] at hfree
    cases hfree
  have htail := (h.held t ht).tail_mem
  refine ⟨fun k u hu => ?_, fun k hk => ?_, fun k hk => ?_, fun u hu => ?_⟩
  · by_cases hkm : k = m
    · subst hkm
      simp only [Locks.acquire, Function.update_self, Option.some.injEq] at hu
      exact ⟨hm, hu ▸ ht⟩
    · exact h.owned k u (by simpa [Locks.acquire, hkm] using hu)
  · have := h.owner k hk
    simp only [View.holdLast, View.put_word, heldNextCell, Locks.acquire, Function.update_apply]
    grind
  · have := h.count k hk
    simp only [View.holdLast, View.put_word, heldNextCell, Locks.acquire, Function.update_apply]
    grind
  · have hlist : ((v.put (.mutex .owner m) t).put (.mutex .count m) 1#32).HeldList
        u (l.held u) := by
      refine (h.held u hu).congr (fun x _ => ?_) fun x _ => ?_
      · simp only [heldNextCell]
        split <;> simp
      · simp only [heldPrevCell]
        split <;> simp
    by_cases hut : u = t
    · subst hut
      simpa [Locks.acquire] using hlist.holdLast hm0 (hnot u)
    · simp only [Locks.acquire, Function.update_of_ne hut]
      -- the links that change belong to `t` and to its last mutex
      have hlast : ∀ x ∈ l.held u, x ≠ v.word (.thread .heldTail t) := by
        rintro x hx rfl
        have hx0 := (h.held u hu).ne_zero hx
        have hxt := (List.mem_cons.mp htail).resolve_left hx0
        have := (hl.held_iff u _).mp hx
        rw [(hl.held_iff t _).mp hxt, Option.some.injEq] at this
        exact hut this.symm
      have hxm : ∀ x ∈ l.held u, x ≠ m := fun x hx he => hnot u (he ▸ hx)
      refine hlist.congr (fun x hx => ?_) fun x hx => ?_
      · simp only [View.holdLast, View.put_word, heldNextCell, List.mem_cons] at hx ⊢
        grind
      · simp only [View.holdLast, View.put_word, heldNextCell, heldPrevCell, List.mem_cons]
          at hx ⊢
        grind

/-- The last unlock of a mutex. -/
theorem Tracks.release (h : Tracks L v l) (hl : l.Good) (ht : t ∈ L.threads)
    (hown : l.owner m = some t) :
    Tracks L (((v.put (.mutex .count m) 0#32).unhold t m).put (.mutex .owner m) 0#32)
      (l.release t m) := by
  have hmem : m ∈ l.held t := (hl.held_iff t m).mpr hown
  have hlinks := (h.held t ht).next_mem hmem
  refine ⟨fun k u hu => ?_, fun k hk => ?_, fun k hk => ?_, fun u hu => ?_⟩
  · by_cases hkm : k = m
    · subst hkm
      simp [Locks.release] at hu
    · exact h.owned k u (by simpa [Locks.release, hkm] using hu)
  · have := h.owner k hk
    simp only [View.unhold, View.put_word, heldNextCell, heldPrevCell, Locks.release,
      Function.update_apply]
    grind
  · have := h.count k hk
    simp only [View.unhold, View.put_word, heldNextCell, heldPrevCell, Locks.release,
      Function.update_apply]
    grind
  · have hlist : (v.put (.mutex .count m) 0#32).HeldList u (l.held u) := by
      refine (h.held u hu).congr (fun x _ => ?_) fun x _ => ?_
      · simp only [heldNextCell]
        split <;> simp
      · simp only [heldPrevCell]
        split <;> simp
    have hdrop : ∀ {z : View} {ms : List Word}, z.HeldList u ms →
        (z.put (.mutex .owner m) 0#32).HeldList u ms := by
      intro z ms hz
      refine hz.congr (fun x _ => ?_) fun x _ => ?_
      · simp only [heldNextCell]
        split <;> simp
      · simp only [heldPrevCell]
        split <;> simp
    refine hdrop ?_
    by_cases hut : u = t
    · subst hut
      simpa [Locks.release] using hlist.unhold hmem
    · simp only [Locks.release, Function.update_of_ne hut]
      have hapart : ∀ x ∈ l.held u, x ∉ l.held t := by
        intro x hx hxt
        have := (hl.held_iff u x).mp hx
        rw [(hl.held_iff t x).mp hxt, Option.some.injEq] at this
        exact hut this.symm
      have hne : ∀ x ∈ l.held u, x ≠ 0#32 := fun x hx => (h.held u hu).ne_zero hx
      simp only [List.mem_cons] at hlinks
      refine hlist.congr (fun x hx => ?_) fun x hx => ?_
      · simp only [View.unhold, View.put_word, heldNextCell, heldPrevCell, List.mem_cons] at hx ⊢
        grind
      · simp only [View.unhold, View.put_word, heldNextCell, heldPrevCell, List.mem_cons] at hx ⊢
        grind

/-! ## The routines -/

section

variable {cpu : CpuPtr} {irqState : Word}

theorem hasCell_heldNext (ht : t ∈ L.threads) {x : Word} (hx : x = 0#32 ∨ x ∈ L.mutexes) :
    L.HasCell (heldNextCell t x) := by
  unfold heldNextCell
  split
  · exact ht
  · exact hx.resolve_left ‹_›

theorem hasCell_heldPrev (ht : t ∈ L.threads) {x : Word} (hx : x = 0#32 ∨ x ∈ L.mutexes) :
    L.HasCell (heldPrevCell t x) := by
  unfold heldPrevCell
  split
  · exact ht
  · exact hx.resolve_left ‹_›

theorem runs_writeHeldLink (kind : String) (target : Word) {c : Cell} (hc : L.HasCell c)
    {a : Word} (ha : a = c.address) (x : Word) :
    Runs L (Mutex.writeHeldLink kind target m cpu irqState a x) v () (v.put c x) :=
  runs_bind (runs_mapped hc ha) (runs_write hc ha x)

theorem mapped_heldLinks (ht : t ∈ L.threads) (hm : m ∈ L.mutexes) {as : List Word}
    (has : ∀ a ∈ as, a = t + kThreadMutexTailOffset ∨ a = t + kThreadMutexQueueOffset ∨
      a = m + kMutexThreadNextOffset ∨ a = m + kMutexThreadPrevOffset) :
    Runs L (allMapped32 as) v true v := by
  refine runs_allMapped fun a ha => ?_
  rcases has a ha with rfl | rfl | rfl | rfl
  · exact ⟨.thread .heldTail t, ht, rfl⟩
  · exact ⟨.thread .heldHead t, ht, rfl⟩
  · exact ⟨.mutex .next m, hm, rfl⟩
  · exact ⟨.mutex .prev m, hm, rfl⟩

theorem runs_linkMutexToThread (ht : t ∈ L.threads) (hm : m ∈ L.mutexes)
    (htail : v.word (.thread .heldTail t) = 0#32 ∨ v.word (.thread .heldTail t) ∈ L.mutexes) :
    Runs L (Mutex.linkMutexToThread t m cpu irqState) v () (v.holdLast t m) := by
  refine runs_bind (mapped_heldLinks ht hm (by simp)) ?_
  refine runs_bind (runs_read (c := .thread .heldTail t) ht rfl) ?_
  refine runs_bind (a := ()) (w := v.put (heldNextCell t (v.word (.thread .heldTail t))) m) ?_ ?_
  · have hc := hasCell_heldNext ht htail
    by_cases h0 : v.word (.thread .heldTail t) = 0#32
    · rw [if_pos h0]
      rw [heldNextCell, if_pos h0] at hc ⊢
      exact runs_write hc rfl m
    · rw [if_neg h0]
      rw [heldNextCell, if_neg h0] at hc ⊢
      exact runs_writeHeldLink _ _ hc rfl m
  · refine runs_bind (runs_write (c := .mutex .prev m) hm rfl _) ?_
    refine runs_bind (runs_write (c := .mutex .next m) hm rfl _) ?_
    exact runs_write (c := .thread .heldTail t) ht rfl m

theorem runs_unlinkMutexFromThread (ht : t ∈ L.threads) (hm : m ∈ L.mutexes)
    (hn : v.word (.mutex .next m) = 0#32 ∨ v.word (.mutex .next m) ∈ L.mutexes)
    (hp : v.word (.mutex .prev m) = 0#32 ∨ v.word (.mutex .prev m) ∈ L.mutexes) :
    Runs L (Mutex.unlinkMutexFromThread t m cpu irqState) v () (v.unhold t m) := by
  refine runs_bind (mapped_heldLinks ht hm (by simp)) ?_
  refine runs_bind (runs_read (c := .mutex .next m) hm rfl) ?_
  refine runs_bind (runs_read (c := .mutex .prev m) hm rfl) ?_
  refine runs_bind (a := ())
    (w := v.put (heldPrevCell t (v.word (.mutex .next m))) (v.word (.mutex .prev m))) ?_ ?_
  · have hc := hasCell_heldPrev ht hn
    by_cases h0 : v.word (.mutex .next m) = 0#32
    · rw [if_pos h0]
      rw [heldPrevCell, if_pos h0] at hc ⊢
      exact runs_write hc rfl _
    · rw [if_neg h0]
      rw [heldPrevCell, if_neg h0] at hc ⊢
      exact runs_writeHeldLink _ _ hc rfl _
  · have hc := hasCell_heldNext ht hp
    unfold View.unhold
    by_cases h0 : v.word (.mutex .prev m) = 0#32
    · rw [if_pos h0]
      rw [heldNextCell, if_pos h0] at hc ⊢
      exact runs_write hc rfl _
    · rw [if_neg h0]
      rw [heldNextCell, if_neg h0] at hc ⊢
      exact runs_writeHeldLink _ _ hc rfl _

/-- A boundary is no way to return. -/
theorem goes_abort {α : Type} (kind : String) (target : Word) {Q : α → View → Prop} :
    Goes L .any (Mutex.abortMutexBoundary kind target m cpu irqState) v Q := fun _ _ =>
  Coop.meets_bind.mpr (Coop.meets_any _ fun _ _ =>
    Coop.meets_bind.mpr (Coop.meets_any _ fun _ _ => trivial))

/-- What a call does to the locks that the view tracks. -/
def Follows (L : Layout) (v : View) (l : Locks Word Word) (c : LockCall Word Word) (w : View) :
    Prop :=
  w.currentContext = v.currentContext ∧ ∃ l', l.step c = some l' ∧ Tracks L w l'

theorem goes_lockByOwner (h : Tracks L v l) (hl : l.Good) (hL : L.Sound) (ht : t ∈ L.threads)
    (hm : m ∈ L.mutexes) :
    Goes L .any (Mutex.lockByOwner cpu m irqState t) v fun _ w => Follows L v l (.lock t m) w := by
  refine (runs_read (c := .mutex .owner m) hm rfl).then ?_
  rw [h.owner m hm]
  cases hown : l.owner m with
  | none =>
    rw [Option.getD_none, if_pos rfl]
    refine (runs_write (c := .mutex .owner m) hm rfl t).then ?_
    refine (runs_read (c := .mutex .count m) hm rfl).then ?_
    refine (runs_write (c := .mutex .count m) hm rfl _).then ?_
    have hcount : (v.put (.mutex .owner m) t).word (.mutex .count m) + 1#32 = 1#32 := by
      have := h.count m hm
      rw [hl.count_free hown] at this
      simp [this]
    rw [hcount]
    have htail := (h.held t ht).tail_mem
    refine (runs_linkMutexToThread ht hm ?_).goes ⟨?_, _, ?_, h.acquire hl hL ht hm hown⟩
    · simp only [View.put_word, reduceCtorEq, if_false]
      exact (List.mem_cons.mp htail).imp_right fun hk => h.mem_mutexes hl hk
    · simp only [View.currentContext, View.holdLast, View.put_word, heldNextCell]
      grind
    · simp [Locks.step, hown]
  | some u =>
    rw [Option.getD_some, if_neg (hL.thread_ne_zero (h.owned m u hown).2)]
    by_cases hut : u = t
    · subst hut
      rw [if_pos rfl]
      refine (runs_read (c := .mutex .count m) hm rfl).then ?_
      refine (runs_write (c := .mutex .count m) hm rfl _).goes
        ⟨?_, l.setCount m (l.count m + 1), by simp [Locks.step, hown], ?_⟩
      · simp [View.currentContext]
      · rw [h.count m hm, show BitVec.ofNat 32 (l.count m) + 1#32 = BitVec.ofNat 32 (l.count m + 1)
          from (BitVec.ofNat_add ..).symm]
        exact h.setCount _
    · rw [if_neg hut]
      exact goes_abort _ _

/-- OSLockMutex, between the two changes of the interrupt state. -/
theorem goes_lock (h : Tracks L v l) (hl : l.Good) (hL : L.Sound) (ht : t ∈ L.threads)
    (hm : m ∈ L.mutexes) (hrun : v.runningContext = t) :
    Goes L .any (Mutex.lock cpu m irqState) v fun _ w => Follows L v l (.lock t m) w := by
  refine (runs_allMapped fun a ha => ?_).then ?_
  · simp only [List.mem_cons, List.not_mem_nil, or_false] at ha
    rcases ha with rfl | rfl | rfl
    · exact ⟨.global kOSRunningContextAddr, runningContext_mem, rfl⟩
    · exact ⟨.mutex .owner m, hm, rfl⟩
    · exact ⟨.mutex .count m, hm, rfl⟩
  rw [if_pos rfl]
  refine (runs_read (c := .global kOSRunningContextAddr) runningContext_mem rfl).then ?_
  rw [show v.word (.global kOSRunningContextAddr) = t from hrun, if_neg (hL.thread_ne_zero ht)]
  exact goes_lockByOwner h hl hL ht hm

theorem goes_checkLastUnlock (ht : t ∈ L.threads) (hm : m ∈ L.mutexes) :
    Goes L .any (Mutex.checkLastUnlock cpu m irqState t) v fun _ w => w = v := by
  have hhead : L.HasCell (.head m) := Or.inr (Or.inr hm)
  have htail : L.HasCell (.tail m) := Or.inr (Or.inr hm)
  refine (runs_read hhead (BitVec.add_zero m)).then ((runs_read htail rfl).then ?_)
  split
  · exact goes_abort _ _
  refine (runs_allMapped fun a ha => ?_).then ?_
  · simp only [List.mem_cons, List.not_mem_nil, or_false] at ha
    rcases ha with rfl | rfl
    · exact ⟨.thread .priority t, ht, rfl⟩
    · exact ⟨.thread .basePriority t, ht, rfl⟩
  rw [if_pos rfl]
  refine (runs_read (c := .thread .priority t) ht rfl).then ?_
  refine (runs_read (c := .thread .basePriority t) ht rfl).then ?_
  split
  · exact goes_abort _ _
  · exact goes_pure rfl

theorem goes_release (h : Tracks L v l) (hl : l.Good) (ht : t ∈ L.threads)
    (hm : m ∈ L.mutexes) (hown : l.owner m = some t) (hcount : l.count m < 2 ^ 32) :
    Goes L .any (Mutex.release cpu m irqState t) v fun _ w => Follows L v l (.unlock t m) w := by
  have hpos := hl.count_owned hown
  refine (runs_read (c := .mutex .count m) hm rfl).then ?_
  rw [h.count m hm]
  have hne : BitVec.ofNat 32 (l.count m) ≠ 0#32 := by
    rw [ne_eq, ← BitVec.toNat_inj, BitVec.toNat_ofNat]
    simp only [BitVec.toNat_ofNat]
    omega
  have hsub : BitVec.ofNat 32 (l.count m) - 1#32 = BitVec.ofNat 32 (l.count m - 1) := by
    rw [← BitVec.toNat_inj, BitVec.toNat_sub]
    simp only [BitVec.toNat_ofNat]
    omega
  have hone : BitVec.ofNat 32 (l.count m - 1) = 0#32 ↔ l.count m = 1 := by
    rw [← BitVec.toNat_inj]
    simp only [BitVec.toNat_ofNat]
    omega
  rw [if_neg hne, hsub]
  refine goes_bind (R := fun _ w => w = v) ?_ ?_
  · unfold onlyIf
    split
    · exact goes_checkLastUnlock ht hm
    · exact goes_pure rfl
  rintro _ _ rfl
  refine (runs_write (c := .mutex .count m) hm rfl _).then ?_
  by_cases h1 : l.count m = 1
  · rw [if_neg (not_not.mpr (hone.mpr h1))]
    have hlinks := (h.held t ht).next_mem ((hl.held_iff t m).mpr hown)
    refine (runs_unlinkMutexFromThread ht hm ?_ ?_).then ?_
    · simpa using (List.mem_cons.mp hlinks.1).imp_right fun hk => h.mem_mutexes hl hk
    · simpa using (List.mem_cons.mp hlinks.2).imp_right fun hk => h.mem_mutexes hl hk
    rw [hone.mpr h1]
    refine (runs_write (c := .mutex .owner m) hm rfl _).goes ⟨?_, _, ?_, h.release hl ht hown⟩
    · simp only [View.currentContext, View.unhold, View.put_word, heldNextCell, heldPrevCell]
      grind
    · simp [Locks.step, hown, h1]
  · rw [if_pos (mt hone.mp h1)]
    refine goes_pure
      ⟨by simp [View.currentContext], _, by simp [Locks.step, hown, h1], h.setCount _⟩

/-- OSUnlockMutex, between the two changes of the interrupt state. -/
theorem goes_unlock (h : Tracks L v l) (hl : l.Good) (hL : L.Sound) (ht : t ∈ L.threads)
    (hm : m ∈ L.mutexes) (hrun : v.runningContext = t) (hcount : l.count m < 2 ^ 32) :
    Goes L .any (Mutex.unlock cpu m irqState) v fun _ w => Follows L v l (.unlock t m) w ∧
      (l.owner m ≠ some t → w = v) := by
  have hhead : L.HasCell (.head m) := Or.inr (Or.inr hm)
  have htail : L.HasCell (.tail m) := Or.inr (Or.inr hm)
  have ht0 := hL.thread_ne_zero ht
  refine (runs_allMapped fun a ha => ?_).then ?_
  · simp only [List.mem_cons, List.not_mem_nil, or_false] at ha
    rcases ha with rfl | rfl | rfl | rfl | rfl
    · exact ⟨.global kOSRunningContextAddr, runningContext_mem, rfl⟩
    · exact ⟨.head m, hhead, BitVec.add_zero m⟩
    · exact ⟨.tail m, htail, rfl⟩
    · exact ⟨.mutex .owner m, hm, rfl⟩
    · exact ⟨.mutex .count m, hm, rfl⟩
  rw [if_pos rfl]
  refine (runs_read (c := .global kOSRunningContextAddr) runningContext_mem rfl).then ?_
  rw [show v.word (.global kOSRunningContextAddr) = t from hrun, if_neg ht0]
  refine (runs_read (c := .mutex .owner m) hm rfl).then ?_
  rw [h.owner m hm]
  by_cases hown : l.owner m = some t
  · rw [hown, Option.getD_some, if_neg (not_not.mpr rfl)]
    exact (goes_release h hl ht hm hown hcount).mono fun _ _ hw =>
      ⟨hw, fun hne => absurd rfl hne⟩
  · have hne : (l.owner m).getD 0#32 ≠ t := by
      cases hu : l.owner m with
      | none => exact Ne.symm ht0
      | some u => exact fun he => hown (hu.trans (congrArg some he))
    rw [if_pos hne]
    exact goes_pure ⟨⟨rfl, l, by simp [Locks.step, hown], h⟩, fun _ => rfl⟩

end

end wii_switch
