-- Many parties over one state. A routine that gives the state away waits in a pool while
-- others run, and goes on with whatever state it gets back. What they agree on is an
-- invariant over a world that only grows: a routine must keep the invariant at each place
-- where it gives the state away, for every world that it may find when it goes on.
import WiiSwitch.Lib.Coop
import Mathlib.Order.Basic

namespace Coop

variable {ω σ ε ι α β : Type}

/-! ## Contracts over worlds -/

/-- What a routine relies on when it gets the state back, perhaps in another world, and
what it guarantees when it gives the state away. Every stop is allowed. -/
structure WorldContract (ω σ ι : Type) where
  rely : ω → ι → σ → ω → σ → Prop
  guar : ω → ι → σ → Prop

variable {C : WorldContract ω σ ι}

/-- Every way that the routine goes on from a world under the contract. -/
def MeetsIn (C : WorldContract ω σ ι) (Q : ω → α → σ → Prop) :
    Coop σ ε ι α → ω → Prop
  | ret a s, g => Q g a s
  | stop _ _, _ => True
  | call i s k, g => C.guar g i s ∧ ∀ g' s', C.rely g i s g' s' → MeetsIn C Q (k s') g'

@[simp] theorem meetsIn_ret {Q : ω → α → σ → Prop} {g : ω} {a : α} {s : σ} :
    (ret a s : Coop σ ε ι α).MeetsIn C Q g ↔ Q g a s := Iff.rfl

@[simp] theorem meetsIn_call {Q : ω → α → σ → Prop} {g : ω} {i : ι} {s : σ}
    {k : σ → Coop σ ε ι α} : (call i s k).MeetsIn C Q g ↔
      C.guar g i s ∧ ∀ g' s', C.rely g i s g' s' → (k s').MeetsIn C Q g' := Iff.rfl

/-- The rule of sequence. -/
theorem meetsIn_bind {Q : ω → β → σ → Prop} {c : Coop σ ε ι α}
    {f : α → σ → Coop σ ε ι β} {g : ω} : (c.bind f).MeetsIn C Q g ↔
      c.MeetsIn C (fun g' a s => (f a s).MeetsIn C Q g') g := by
  induction c generalizing g with
  | ret a s => rfl
  | stop e s => rfl
  | call i s k ih =>
    simp only [bind_call, meetsIn_call]
    refine and_congr_right fun _ => forall_congr' fun g' => forall_congr' fun s' => ?_
    exact imp_congr_right fun _ => ih s'

/-- The rule of consequence. -/
theorem MeetsIn.mono {Q Q' : ω → α → σ → Prop} {c : Coop σ ε ι α} {g : ω}
    (h : c.MeetsIn C Q g) (hQ : ∀ g' a s, Q g' a s → Q' g' a s) : c.MeetsIn C Q' g := by
  induction c generalizing g with
  | ret a s => exact hQ g a s h
  | stop e s => trivial
  | call i s k ih => exact ⟨h.1, fun g' s' hs' => ih s' (h.2 g' s' hs')⟩

/-- The part of a contract that leaves the world as it is. -/
def WorldContract.still (C : WorldContract ω σ ι) (g : ω) : Contract σ ε ι where
  rely i s s' := C.rely g i s g s'
  guar i s := C.guar g i s ∧ ∀ g' s', C.rely g i s g' s' → g' = g
  stops _ _ := True

/-- A routine that gives the state away only where the world stays. -/
theorem Meets.meetsIn {Q : α → σ → Prop} {c : Coop σ ε ι α} {g : ω}
    (h : c.Meets (C.still g) Q) :
    c.MeetsIn C (fun g' a s => g' = g ∧ Q a s) g := by
  induction c with
  | ret a s => exact ⟨rfl, h⟩
  | stop e s => trivial
  | call i s k ih =>
    refine ⟨h.1.1, fun g' s' hs' => ?_⟩
    have hg := h.1.2 g' s' hs'
    subst hg
    exact ih s' (h.2 s' hs')

/-- A routine that calls nothing meets every contract. -/
theorem Meets.meetsIn_of_alone {Q : α → σ → Prop} {c : Coop σ ε ι α} {g : ω}
    (h : c.Meets .any Q) (hq : c.Meets .alone fun _ _ => True) :
    c.MeetsIn C (fun g' a s => g' = g ∧ Q a s) g := by
  cases c with
  | ret a s => exact ⟨rfl, h⟩
  | stop e s => trivial
  | call i s k => exact hq.1.elim

/-- Two facts about a routine that calls nothing. -/
theorem Meets.alone_and {Q R : α → σ → Prop} {c : Coop σ ε ι α} (h : c.Meets .alone Q)
    (h' : c.Meets .any R) : c.Meets .alone fun a s => Q a s ∧ R a s := by
  cases c with
  | ret a s => exact ⟨h, h'⟩
  | stop e s => trivial
  | call i s k => exact h.1.elim

/-- Two contracts at once. -/
def WorldContract.both {ω' : Type} (C : WorldContract ω σ ι) (D : WorldContract ω' σ ι) :
    WorldContract (ω × ω') σ ι where
  rely g i s g' s' := C.rely g.1 i s g'.1 s' ∧ D.rely g.2 i s g'.2 s'
  guar g i s := C.guar g.1 i s ∧ D.guar g.2 i s

theorem MeetsIn.both {ω' : Type} {D : WorldContract ω' σ ι} {Q : ω → α → σ → Prop}
    {R : ω' → α → σ → Prop} {c : Coop σ ε ι α} {g : ω} {g' : ω'}
    (h : c.MeetsIn C Q g) (h' : c.MeetsIn D R g') :
    c.MeetsIn (C.both D) (fun w a s => Q w.1 a s ∧ R w.2 a s) (g, g') := by
  induction c generalizing g g' with
  | ret a s => exact ⟨h, h'⟩
  | stop e s => trivial
  | call i s k ih =>
    exact ⟨⟨h.1, h'.1⟩, fun w s' hs' => ih s' (h.2 w.1 s' hs'.1) (h'.2 w.2 s' hs'.2)⟩

/-- The contract with an unknown outside. The world is `f` of the state that the outside
left last. -/
def lastLeft {γ : Type} (f : σ → γ) : WorldContract γ σ ι where
  rely _ _ _ g' s' := g' = f s'
  guar _ _ _ := True

/-! ## Pools -/

/-- A routine up to its end, or up to the next call at which it waits, with the rest of it;
`shared` calls give the state to the others, and the rest are answered at once. -/
inductive Settles (shared : ι → Prop) (answers : ι → σ → σ → Prop) :
    Coop σ ε ι α → σ → Option (ι × (σ → Coop σ ε ι α)) → Prop
  | ret (a : α) (s : σ) : Settles shared answers (ret a s) s none
  | answered {i : ι} {s s' t : σ} {k : σ → Coop σ ε ι α}
    {o : Option (ι × (σ → Coop σ ε ι α))} :
    ¬shared i → answers i s s' → Settles shared answers (k s') t o →
    Settles shared answers (call i s k) t o
  | waits {i : ι} {s : σ} {k : σ → Coop σ ε ι α} : shared i →
    Settles shared answers (call i s k) s (some (i, k))

/-- The contract of parties that share a state under an invariant. A party that gives the
state away moves the world by `note` first. -/
def sharing [Preorder ω] (shared : ι → Prop) (answers : ι → σ → σ → Prop)
    (Inv : ω → σ → Prop) (note : ω → ι → σ → ω) : WorldContract ω σ ι where
  rely g i s g' s' :=
    (shared i ∧ note g i s ≤ g' ∧ Inv g' s') ∨ (¬shared i ∧ g' = g ∧ answers i s s')
  guar g i s := shared i → Inv (note g i s) s

section

variable [Preorder ω] {shared : ι → Prop} {answers : ι → σ → σ → Prop}
    {Inv : ω → σ → Prop}
  {note : ω → ι → σ → ω}

/-- The rest of a routine may go on in every greater world. -/
def Resumable (shared : ι → Prop) (answers : ι → σ → σ → Prop)
    (Inv : ω → σ → Prop) (note : ω → ι → σ → ω) (Q : ω → α → σ → Prop)
    (k : σ → Coop σ ε ι α) (g : ω) : Prop :=
  ∀ g' s', g ≤ g' → Inv g' s' → (k s').MeetsIn (sharing shared answers Inv note) Q g'

/-- What holds of a routine that ends. -/
theorem Settles.ended {Q : ω → α → σ → Prop} {c : Coop σ ε ι α} {g : ω} {t : σ}
    (h : Settles shared answers c t none) (hc : c.MeetsIn (sharing shared answers Inv note) Q g) :
    ∃ a, Q g a t := by
  generalize ho : (none : Option (ι × (σ → Coop σ ε ι α))) = o at h
  induction h with
  | ret a s => exact ⟨a, hc⟩
  | answered hi hs _ ih => exact ih (hc.2 g _ (Or.inr ⟨hi, rfl, hs⟩)) ho
  | waits hi => cases ho

/-- What holds of a routine that waits. -/
theorem Settles.left {Q : ω → α → σ → Prop} {c : Coop σ ε ι α}
    {g : ω} {t : σ} {i : ι} {k : σ → Coop σ ε ι α}
    (h : Settles shared answers c t (some (i, k)))
    (hc : c.MeetsIn (sharing shared answers Inv note) Q g) :
    Inv (note g i t) t ∧ Resumable shared answers Inv note Q k (note g i t) := by
  generalize ho : some (i, k) = o at h
  induction h with
  | ret a s => cases ho
  | answered hi hs _ ih => exact ih (hc.2 g _ (Or.inr ⟨hi, rfl, hs⟩)) ho
  | waits hi =>
    cases ho
    exact ⟨hc.1 hi, fun g' s' hg hs' => hc.2 g' s' (Or.inl ⟨hi, hg, hs'⟩)⟩

end

/-- An operation of a party: its code, how the world moves at a call at which it waits, and
the world once it has ended in a state. -/
structure Operation (ω σ ε ι : Type) where
  code : σ → Coop σ ε ι Unit
  note : ω → ι → σ → ω
  grow : ω → σ → ω

/-- The operation with the rest of its code. -/
def Operation.rest (x : Operation ω σ ε ι) (k : σ → Coop σ ε ι Unit) :
    Operation ω σ ε ι :=
  { x with code := k }

/-- The world, the state, and the operations that wait. -/
structure Pool (ω σ ε ι : Type) where
  world : ω
  state : σ
  waiting : List (Operation ω σ ε ι)

/-- The runs of a pool: a party begins an operation, one that waits goes on, or something
else happens between the operations. -/
inductive PoolRun (shared : ι → Prop) (answers : ι → σ → σ → Prop)
    (start : ω → σ → Prop) (begins : ω → σ → Operation ω σ ε ι → Prop)
    (other : ω → σ → ω → σ → Prop) :
    Pool ω σ ε ι → Prop
  | start {g : ω} {s : σ} : start g s →
    PoolRun shared answers start begins other ⟨g, s, []⟩
  | other {p : Pool ω σ ε ι} {g : ω} {s : σ} : PoolRun shared answers start begins other p →
    other p.world p.state g s →
    PoolRun shared answers start begins other ⟨g, s, p.waiting⟩
  | ends {p : Pool ω σ ε ι} {x : Operation ω σ ε ι} {t : σ} :
    PoolRun shared answers start begins other p → begins p.world p.state x →
    Settles shared answers (x.code p.state) t none →
    PoolRun shared answers start begins other ⟨x.grow p.world t, t, p.waiting⟩
  | waits {p : Pool ω σ ε ι} {x : Operation ω σ ε ι} {t : σ} {i : ι}
    {k : σ → Coop σ ε ι Unit} :
    PoolRun shared answers start begins other p → begins p.world p.state x →
    Settles shared answers (x.code p.state) t (some (i, k)) →
    PoolRun shared answers start begins other ⟨x.note p.world i t, t, x.rest k :: p.waiting⟩
  | goesOn {g : ω} {s t : σ} {l l' : List (Operation ω σ ε ι)} {x : Operation ω σ ε ι} :
    PoolRun shared answers start begins other ⟨g, s, l ++ x :: l'⟩ →
    Settles shared answers (x.code s) t none →
    PoolRun shared answers start begins other ⟨x.grow g t, t, l ++ l'⟩
  | waitsAgain {g : ω} {s t : σ} {l l' : List (Operation ω σ ε ι)}
    {x : Operation ω σ ε ι} {i : ι}
    {k : σ → Coop σ ε ι Unit} :
    PoolRun shared answers start begins other ⟨g, s, l ++ x :: l'⟩ →
    Settles shared answers (x.code s) t (some (i, k)) →
    PoolRun shared answers start begins other ⟨x.note g i t, t, l ++ x.rest k :: l'⟩

section

variable [Preorder ω] {shared : ι → Prop} {answers : ι → σ → σ → Prop}
    {Inv : ω → σ → Prop}
  {start : ω → σ → Prop} {begins : ω → σ → Operation ω σ ε ι → Prop}
    {other : ω → σ → ω → σ → Prop}

/-- The operation only lets the world grow. -/
structure Operation.Grows (x : Operation ω σ ε ι) : Prop where
  note : ∀ g i s, g ≤ x.note g i s
  grow : ∀ g s, g ≤ x.grow g s

/-- The operation keeps the invariant, in the world that it grows. -/
def Operation.Keeps (x : Operation ω σ ε ι) (shared : ι → Prop)
    (answers : ι → σ → σ → Prop) (Inv : ω → σ → Prop) (g : ω) : Prop :=
  x.Grows ∧ Resumable shared answers Inv x.note (fun g' _ t => Inv (x.grow g' t) t) x.code g

/-- An operation that waits keeps the invariant in a greater world too. -/
theorem Operation.Keeps.mono {x : Operation ω σ ε ι} {g g' : ω}
    (h : x.Keeps shared answers Inv g) (hg : g ≤ g') : x.Keeps shared answers Inv g' :=
  ⟨h.1, fun g'' s hg'' hs => h.2 g'' s (hg.trans hg'') hs⟩

variable (Inv) in
/-- A run of the pool keeps the invariant when each operation that begins does, from the
state where it begins. -/
theorem PoolRun.keeps {p : Pool ω σ ε ι} (hstart : ∀ g s, start g s → Inv g s)
    (hother : ∀ g s g' s', Inv g s → other g s g' s' → g ≤ g' ∧ Inv g' s')
    (hbegins : ∀ g s x, Inv g s → begins g s x → x.Grows ∧
      (x.code s).MeetsIn (sharing shared answers Inv x.note) (fun g' _ t => Inv (x.grow g' t) t) g)
    (h : PoolRun shared answers start begins other p) :
    Inv p.world p.state ∧ ∀ x ∈ p.waiting, x.Keeps shared answers Inv p.world := by
  induction h with
  | start hs => exact ⟨hstart _ _ hs, fun x hx => absurd hx List.not_mem_nil⟩
  | other _ hs ih =>
    obtain ⟨hgrow, hinv⟩ := hother _ _ _ _ ih.1 hs
    exact ⟨hinv, fun x hx => (ih.2 x hx).mono hgrow⟩
  | ends _ hx hsettles ih =>
    obtain ⟨hgrows, hmeets⟩ := hbegins _ _ _ ih.1 hx
    obtain ⟨_, hinv⟩ := hsettles.ended hmeets
    exact ⟨hinv, fun y hy => (ih.2 y hy).mono (hgrows.grow _ _)⟩
  | waits _ hx hsettles ih =>
    obtain ⟨hgrows, hmeets⟩ := hbegins _ _ _ ih.1 hx
    obtain ⟨hinv, hrest⟩ := hsettles.left hmeets
    refine ⟨hinv,
      List.forall_mem_cons.mpr ⟨⟨⟨hgrows.note, hgrows.grow⟩, hrest⟩, fun y hy => ?_⟩⟩
    exact (ih.2 y hy).mono (hgrows.note _ _ _)
  | @goesOn g s t l l' x _ hsettles ih =>
    have hall := List.forall_mem_append.mp ih.2
    have hx := hall.2 x List.mem_cons_self
    obtain ⟨_, hinv⟩ := hsettles.ended (hx.2 _ _ le_rfl ih.1)
    refine ⟨hinv, List.forall_mem_append.mpr ⟨fun y hy => ?_, fun y hy => ?_⟩⟩
    · exact (hall.1 y hy).mono (hx.1.grow _ _)
    · exact (hall.2 y (List.mem_cons_of_mem x hy)).mono (hx.1.grow _ _)
  | @waitsAgain g s t l l' x i k _ hsettles ih =>
    have hall := List.forall_mem_append.mp ih.2
    have hx := hall.2 x List.mem_cons_self
    obtain ⟨hinv, hrest⟩ := hsettles.left (hx.2 _ _ le_rfl ih.1)
    refine ⟨hinv, List.forall_mem_append.mpr ⟨fun y hy => ?_,
      List.forall_mem_cons.mpr ⟨⟨⟨hx.1.note, hx.1.grow⟩, hrest⟩, fun y hy => ?_⟩⟩⟩
    · exact (hall.1 y hy).mono (hx.1.note _ _ _)
    · exact (hall.2 y (List.mem_cons_of_mem x hy)).mono (hx.1.note _ _ _)

end

/-- What holds of the rest of every operation that has come to wait. -/
theorem PoolRun.rests {shared : ι → Prop} {answers : ι → σ → σ → Prop}
    {start : ω → σ → Prop} {begins : ω → σ → Operation ω σ ε ι → Prop}
    {other : ω → σ → ω → σ → Prop} {R : Operation ω σ ε ι → Prop}
    {p : Pool ω σ ε ι} (hbegins : ∀ p x t i k, PoolRun shared answers start begins other p →
      begins p.world p.state x → Settles shared answers (x.code p.state) t (some (i, k)) →
      R (x.rest k))
    (hagain : ∀ p x t i k, PoolRun shared answers start begins other p → R x →
      Settles shared answers (x.code p.state) t (some (i, k)) → R (x.rest k))
    (h : PoolRun shared answers start begins other p) : ∀ x ∈ p.waiting, R x := by
  induction h with
  | start _ => exact fun x hx => absurd hx List.not_mem_nil
  | other _ _ ih => exact ih
  | ends _ _ _ ih => exact ih
  | waits hrun hx hsettles ih =>
    exact List.forall_mem_cons.mpr ⟨hbegins _ _ _ _ _ hrun hx hsettles, ih⟩
  | goesOn _ _ ih =>
    have hall := List.forall_mem_append.mp ih
    exact List.forall_mem_append.mpr ⟨hall.1, fun y hy => hall.2 y (List.mem_cons_of_mem _ hy)⟩
  | waitsAgain hrun hsettles ih =>
    have hall := List.forall_mem_append.mp ih
    have hagain' := hagain _ _ _ _ _ hrun (hall.2 _ List.mem_cons_self) hsettles
    refine List.forall_mem_append.mpr ⟨hall.1, List.forall_mem_cons.mpr ⟨hagain', ?_⟩⟩
    exact fun y hy => hall.2 y (List.mem_cons_of_mem _ hy)

end Coop

namespace Routine

open Coop

variable {σ ε ι α β γ : Type} {f : σ → γ}

/-- The routine itself does not change `f` of the state: at its end this is as the outside
left it, or as it was at the start. -/
def Passes (f : σ → γ) (x : Routine σ ε ι α) : Prop :=
  ∀ s, (x s).MeetsIn (lastLeft f) (fun g _ t => f t = g) (f s)

theorem passes_pure (a : α) : Passes f (pure a : Routine σ ε ι α) := fun _ => rfl

theorem passes_gets (g : σ → α) : Passes f (gets g : Routine σ ε ι α) := fun _ => rfl

theorem passes_modify {g : σ → σ} (h : ∀ s, f (g s) = f s) :
    Passes f (modify g : Routine σ ε ι Unit) := fun s => h s

theorem passes_stop (e : ε) : Passes f (stop e : Routine σ ε ι α) := fun _ => trivial

theorem passes_call (i : ι) : Passes f (call i : Routine σ ε ι Unit) :=
  fun _ => ⟨trivial, fun _ _ hg => hg.symm⟩

theorem passes_bind {x : Routine σ ε ι α} {y : α → Routine σ ε ι β} (hx : Passes f x)
    (hy : ∀ a, Passes f (y a)) : Passes f (x >>= y) := by
  intro s
  refine meetsIn_bind.mpr ((hx s).mono ?_)
  rintro g a t rfl
  exact hy a t

theorem passes_ite {c : Prop} [Decidable c] {x y : Routine σ ε ι α} (hx : Passes f x)
    (hy : Passes f y) : Passes f (if c then x else y) := by
  split
  · exact hx
  · exact hy

/-- The routine calls nothing outside. -/
abbrev Quiet (x : Routine σ ε ι α) : Prop := Alone (fun _ => ()) x

theorem Keeps.alone {x : Routine σ ε ι α} (h : Keeps f x) (hq : Quiet x) : Alone f x :=
  fun s => ((hq s).alone_and (h s)).mono fun _ _ ht => ht.2

theorem Alone.passes {x : Routine σ ε ι α} (h : Alone f x) : Passes f x := by
  intro s
  refine ((h s).any.meetsIn_of_alone ((h s).mono fun _ _ _ => trivial)).mono ?_
  rintro _ a t ⟨rfl, ht⟩
  exact ht

end Routine
