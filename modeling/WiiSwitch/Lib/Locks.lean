-- Re-entrant locks without contention. A lock has an owner and a count, and each
-- owner keeps a list of the locks that it holds. A call that would have to wait is
-- no step. The laws are about whole histories: a count is what its owner locked
-- less what it unlocked, and a list is in the order of acquisition.
import Mathlib.Data.List.Basic
import Mathlib.Data.List.Nodup
import Mathlib.Logic.Function.Basic

/-- A call by the thread `t` on the lock `m`. -/
inductive LockCall (τ μ : Type) where
  | lock (t : τ) (m : μ)
  | unlock (t : τ) (m : μ)
deriving DecidableEq

def LockCall.thread {τ μ : Type} : LockCall τ μ → τ
  | .lock t _ => t
  | .unlock t _ => t

def LockCall.mutex {τ μ : Type} : LockCall τ μ → μ
  | .lock _ m => m
  | .unlock _ m => m

structure Locks (τ μ : Type) where
  owner : μ → Option τ
  count : μ → Nat
  held : τ → List μ

namespace Locks

variable {τ μ : Type}

/-- Every lock is free. -/
def free : Locks τ μ := ⟨fun _ => none, fun _ => 0, fun _ => []⟩

/-- Owner, count and lists agree. -/
structure Good (l : Locks τ μ) : Prop where
  count_pos : ∀ m, (l.owner m).isSome ↔ 1 ≤ l.count m
  held_iff : ∀ t m, m ∈ l.held t ↔ l.owner m = some t
  nodup : ∀ t, (l.held t).Nodup

theorem Good.count_free {l : Locks τ μ} (h : l.Good) {m : μ} (hm : l.owner m = none) :
    l.count m = 0 := by
  have := h.count_pos m
  simp only [hm, Option.isSome_none, Bool.false_eq_true, false_iff] at this
  omega

theorem Good.count_owned {l : Locks τ μ} (h : l.Good) {t : τ} {m : μ}
    (hm : l.owner m = some t) :
    1 ≤ l.count m := (h.count_pos m).mp (by rw [hm]; rfl)

theorem good_free : (free : Locks τ μ).Good :=
  ⟨fun _ => by simp [free], fun _ _ => by simp [free], fun _ => List.nodup_nil⟩

/-- The calls since the last state, newest first, in which a lock was free. A history
holds each call with the state after it. -/
def since {σ κ : Type} (owned : σ → Bool) (h : List (κ × σ)) : List κ :=
  (h.takeWhile fun e => owned e.2).map Prod.fst

/-- Two histories of the same calls, in which the lock was owned at the same times. -/
theorem since_congr {σ σ' κ : Type} {owned : σ → Bool} {owned' : σ' → Bool}
    {h : List (κ × σ)} {h' : List (κ × σ')}
    (hh : List.Forall₂ (fun e e' => e.1 = e'.1 ∧ owned e.2 = owned' e'.2) h h') :
    since owned h = since owned' h' := by
  induction hh with
  | nil => rfl
  | @cons e e' _ _ he _ ih =>
    simp only [since, List.takeWhile_cons, he.2] at ih ⊢
    split
    · rw [List.map_cons, List.map_cons, he.1, ih]
    · rfl

/-- The calls since `m` was free. -/
def sinceFree (m : μ) (h : List (LockCall τ μ × Locks τ μ)) : List (LockCall τ μ) :=
  since (fun l => (l.owner m).isSome) h

theorem sinceFree_cons {h : List (LockCall τ μ × Locks τ μ)} (m : μ) (c : LockCall τ μ)
    (l : Locks τ μ) :
    sinceFree m ((c, l) :: h) = if (l.owner m).isSome then c :: sinceFree m h else [] := by
  simp only [sinceFree, since, List.takeWhile_cons]
  split <;> rfl

variable [DecidableEq μ]

/-- The same locks with another count. -/
def setCount (l : Locks τ μ) (m : μ) (n : Nat) : Locks τ μ :=
  { l with count := Function.update l.count m n }

theorem Good.setCount {l : Locks τ μ} (h : l.Good) {t : τ} {m : μ} (hm : l.owner m = some t)
    {n : Nat} (hn : 1 ≤ n) : (l.setCount m n).Good := by
  refine ⟨fun k => ?_, h.held_iff, h.nodup⟩
  by_cases hk : k = m
  · subst hk
    simp [Locks.setCount, hm, hn]
  · simpa [Locks.setCount, hk] using h.count_pos k

/-! ## One step -/

variable [DecidableEq τ]

/-- The first lock of a free lock. -/
def acquire (l : Locks τ μ) (t : τ) (m : μ) : Locks τ μ :=
  ⟨Function.update l.owner m (some t), Function.update l.count m 1,
    Function.update l.held t (l.held t ++ [m])⟩

/-- The last unlock. -/
def release (l : Locks τ μ) (t : τ) (m : μ) : Locks τ μ :=
  ⟨Function.update l.owner m none, Function.update l.count m 0,
    Function.update l.held t ((l.held t).erase m)⟩

/-- One call. There is no step when a lock belongs to another thread. -/
def step (l : Locks τ μ) : LockCall τ μ → Option (Locks τ μ)
  | .lock t m =>
    match l.owner m with
    | none => some (l.acquire t m)
    | some u => if u = t then some (l.setCount m (l.count m + 1)) else none
  | .unlock t m =>
    if l.owner m = some t then
      if l.count m = 1 then some (l.release t m) else some (l.setCount m (l.count m - 1))
    else some l

/-- What a step is, by its call and the owner. -/
theorem step_cases {l l' : Locks τ μ} {c : LockCall τ μ} (h : l.step c = some l') :
    (∃ t m, c = .lock t m ∧ l.owner m = none ∧ l' = l.acquire t m) ∨
    (∃ t m, c = .lock t m ∧ l.owner m = some t ∧ l' = l.setCount m (l.count m + 1)) ∨
    (∃ t m, c = .unlock t m ∧ l.owner m = some t ∧ l.count m = 1 ∧ l' = l.release t m) ∨
    (∃ t m, c = .unlock t m ∧ l.owner m = some t ∧ l.count m ≠ 1 ∧
      l' = l.setCount m (l.count m - 1)) ∨
    (∃ t m, c = .unlock t m ∧ l.owner m ≠ some t ∧ l' = l) := by
  cases c with
  | lock t m =>
    simp only [step] at h
    split at h
    · exact Or.inl ⟨t, m, rfl, ‹_›, by simpa using h.symm⟩
    · split at h
      · subst t
        exact Or.inr (Or.inl ⟨_, m, rfl, ‹_›, by simpa using h.symm⟩)
      · cases h
  | unlock t m =>
    simp only [step] at h
    split at h
    · split at h
      · exact Or.inr (Or.inr (Or.inl ⟨t, m, rfl, ‹_›, ‹_›, by simpa using h.symm⟩))
      · exact Or.inr
          (Or.inr (Or.inr (Or.inl ⟨t, m, rfl, ‹_›, ‹_›, by simpa using h.symm⟩)))
    · exact Or.inr (Or.inr (Or.inr (Or.inr ⟨t, m, rfl, ‹_›, by simpa using h.symm⟩)))

theorem Good.acquire {l : Locks τ μ} (h : l.Good) {t : τ} {m : μ} (hm : l.owner m = none) :
    (l.acquire t m).Good := by
  have hnot : ∀ u, m ∉ l.held u := fun u hu => by
    rw [(h.held_iff u m).mp hu] at hm
    cases hm
  refine ⟨fun k => ?_, fun u k => ?_, fun u => ?_⟩
  · by_cases hk : k = m
    · subst hk
      simp [Locks.acquire]
    · simpa [Locks.acquire, hk] using h.count_pos k
  · by_cases hk : k = m <;> by_cases hu : u = t
    · simp [Locks.acquire, hk, hu]
    · simp [Locks.acquire, hk, hu, hnot u, Ne.symm hu]
    · simpa [Locks.acquire, hk, hu] using h.held_iff t k
    · simpa [Locks.acquire, hk, hu] using h.held_iff u k
  · by_cases hu : u = t
    · subst hu
      simp only [Locks.acquire, Function.update_self]
      refine List.nodup_append.mpr ⟨h.nodup u, by simp, fun a ha b hb he => hnot u ?_⟩
      rw [List.mem_singleton.mp hb] at he
      exact he ▸ ha
    · simpa [Locks.acquire, hu] using h.nodup u

theorem Good.release {l : Locks τ μ} (h : l.Good) {t : τ} {m : μ} (hm : l.owner m = some t) :
    (l.release t m).Good := by
  refine ⟨fun k => ?_, fun u k => ?_, fun u => ?_⟩
  · by_cases hk : k = m
    · subst hk
      simp [Locks.release]
    · simpa [Locks.release, hk] using h.count_pos k
  · by_cases hu : u = t
    · subst hu
      simp only [Locks.release, Function.update_self, (h.nodup u).mem_erase_iff, h.held_iff]
      by_cases hk : k = m <;> simp [hk]
    · by_cases hk : k = m
      · subst hk
        simp [Locks.release, hu, h.held_iff, hm, Ne.symm hu]
      · simpa [Locks.release, hk, hu] using h.held_iff u k
  · by_cases hu : u = t
    · subst hu
      simpa [Locks.release] using (h.nodup u).erase m
    · simpa [Locks.release, hu] using h.nodup u

theorem Good.step {l l' : Locks τ μ} {c : LockCall τ μ} (hl : l.Good) (h : l.step c = some l') :
    l'.Good := by
  obtain ⟨t, m, _, hm, rfl⟩ | ⟨t, m, _, hm, rfl⟩ | ⟨t, m, _, hm, _, rfl⟩
    | ⟨t, m, _, hm, h1, rfl⟩ |
    ⟨t, m, _, _, rfl⟩ := step_cases h
  · exact hl.acquire hm
  · exact hl.setCount hm (by omega)
  · exact hl.release hm
  · have := hl.count_owned hm
    exact hl.setCount hm (by omega)
  · exact hl

/-! ## Histories -/

/-- The histories from free locks. -/
inductive Run : List (LockCall τ μ × Locks τ μ) → Locks τ μ → Prop
  | start : Run [] free
  | call {h : List (LockCall τ μ × Locks τ μ)} {l l' : Locks τ μ} {c : LockCall τ μ} :
    Run h l → l.step c = some l' → Run ((c, l') :: h) l'

variable {h : List (LockCall τ μ × Locks τ μ)} {l l' : Locks τ μ}

theorem Run.good (hr : Run h l) : l.Good := by
  induction hr with
  | start => exact good_free
  | call _ hs ih => exact ih.step hs

/-- Nothing has happened since a free lock was free. -/
theorem Run.sinceFree_free (hr : Run h l) {m : μ} (hm : l.owner m = none) :
    sinceFree m h = [] := by
  cases hr with
  | start => rfl
  | call _ _ => simp [sinceFree, since, hm]

/-- The count of a lock is what its owner locked less what it unlocked since the lock
was free. -/
theorem Run.count_eq (hr : Run h l) {t : τ} {m : μ} (hm : l.owner m = some t) :
    l.count m + (sinceFree m h).count (.unlock t m) = (sinceFree m h).count (.lock t m) := by
  induction hr with
  | start => cases hm
  | @call h l l' c hr hs ih =>
    have hnil := fun k => hr.sinceFree_free (m := k)
    have hgood := hr.good
    rw [sinceFree_cons, hm]
    simp only [Option.isSome_some, if_true, List.count_cons]
    obtain ⟨u, k, rfl, hk, rfl⟩ | ⟨u, k, rfl, hk, rfl⟩ | ⟨u, k, rfl, hk, h1, rfl⟩ |
      ⟨u, k, rfl, hk, h1, rfl⟩ | ⟨u, k, rfl, hk, rfl⟩ := step_cases hs
    · by_cases hmk : m = k
      · subst hmk
        simp only [Locks.acquire, Function.update_self, Option.some.injEq] at hm
        subst hm
        simp [Locks.acquire, hnil _ hk]
      · have hm' : l.owner m = some t := by simpa [Locks.acquire, hmk] using hm
        have := ih hm'
        simpa [Locks.acquire, hmk, Ne.symm hmk] using this
    · have := ih hm
      by_cases hmk : m = k
      · subst hmk
        have : u = t := by simpa [Locks.setCount, hk] using hm
        subst this
        simp [Locks.setCount]
        omega
      · simpa [Locks.setCount, hmk, Ne.symm hmk] using this
    · by_cases hmk : m = k
      · subst hmk
        simp [Locks.release] at hm
      · have hm' : l.owner m = some t := by simpa [Locks.release, hmk] using hm
        have := ih hm'
        simpa [Locks.release, hmk, Ne.symm hmk] using this
    · have := ih hm
      by_cases hmk : m = k
      · subst hmk
        have : u = t := by simpa [Locks.setCount, hk] using hm
        subst this
        have := hgood.count_owned hk
        simp [Locks.setCount]
        omega
      · simpa [Locks.setCount, hmk, Ne.symm hmk] using this
    · have := ih hm
      by_cases hmk : m = k
      · subst hmk
        have : u ≠ t := fun he => hk (he ▸ hm)
        simpa [this] using ih hm
      · simpa [Ne.symm hmk] using this

/-- A count never exceeds the number of calls. -/
theorem Run.count_le (hr : Run h l) (m : μ) : l.count m ≤ h.length := by
  cases hm : l.owner m with
  | none => rw [hr.good.count_free hm]; omega
  | some t =>
    have h1 := hr.count_eq hm
    have h2 : (sinceFree m h).count (.lock t m) ≤ h.length := by
      refine Nat.le_trans List.count_le_length ?_
      rw [sinceFree, since, List.length_map]
      exact (List.takeWhile_sublist _).length_le
    omega

/-- The list of a thread is in the order of acquisition: longer ago comes first. -/
theorem Run.held_order (hr : Run h l) (t : τ) :
    (l.held t).Pairwise fun a b => (sinceFree b h).length < (sinceFree a h).length := by
  induction hr with
  | start => exact List.Pairwise.nil
  | @call h l l' c hr hs ih =>
    have hgood := hr.good
    have hgood' := hgood.step hs
    have hpos : ∀ a, (l.owner a).isSome → 0 < (sinceFree a h).length := by
      intro a ha
      obtain ⟨u, hu⟩ := Option.isSome_iff_exists.mp ha
      have := hr.count_eq hu
      have := hgood.count_owned hu
      have hlock : 0 < (sinceFree a h).count (.lock u a) := by omega
      exact List.length_pos_of_mem (List.count_pos_iff.mp hlock)
    have hnil := fun k => hr.sinceFree_free (m := k)
    -- an old member has been held for one call more
    have hkeep : ∀ xs : List μ, (∀ a ∈ xs, (l'.owner a).isSome) →
        xs.Pairwise (fun a b => (sinceFree b h).length < (sinceFree a h).length) →
        xs.Pairwise fun a b =>
          (sinceFree b ((c, l') :: h)).length < (sinceFree a ((c, l') :: h)).length := by
      intro xs hxs hp
      refine hp.imp_of_mem fun {a b} ha hb hab => ?_
      rw [sinceFree_cons, sinceFree_cons, if_pos (hxs a ha), if_pos (hxs b hb)]
      simpa using hab
    have howned : ∀ a ∈ l'.held t, (l'.owner a).isSome := fun a ha => by
      rw [(hgood'.held_iff t a).mp ha]
      rfl
    obtain ⟨u, k, rfl, hk, rfl⟩ | ⟨u, k, rfl, hk, rfl⟩ | ⟨u, k, rfl, hk, h1, rfl⟩ |
      ⟨u, k, rfl, hk, h1, rfl⟩ | ⟨u, k, rfl, hk, rfl⟩ := step_cases hs
    · by_cases hu : t = u
      · subst hu
        simp only [Locks.acquire, Function.update_self] at howned ⊢
        refine List.pairwise_append.mpr ⟨?_, List.pairwise_singleton _ _, fun a ha b hb => ?_⟩
        · exact hkeep _ (fun a ha => howned a (by simp [ha])) ih
        · have hb : b = k := by simpa using hb
          subst hb
          have ha' : l.owner a = some t := (hgood.held_iff t a).mp ha
          have hab : a ≠ b := fun he => by rw [he, hk] at ha'; cases ha'
          have := hpos a (by rw [ha']; rfl)
          rw [sinceFree_cons, sinceFree_cons, hnil b hk]
          simp [hab, ha', this]
      · have hheld : (l.acquire u k).held t = l.held t := by simp [Locks.acquire, hu]
        rw [hheld] at howned ⊢
        exact hkeep _ howned ih
    · exact hkeep _ howned ih
    · have hsub : ((l.release u k).held t).Sublist (l.held t) := by
        by_cases hu : t = u
        · subst hu
          simpa [Locks.release] using List.erase_sublist
        · simp [Locks.release, hu]
      exact hkeep _ howned (ih.sublist hsub)
    · exact hkeep _ howned ih
    · exact hkeep _ howned ih

end Locks
