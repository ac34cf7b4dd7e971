-- Routines that run alone until they give the machine away. A native routine
-- of a cooperative system ends, stops the process, or calls outside: another
-- party then owns the state, and the routine goes on with whatever state it
-- gets back. A contract says what the routine may rely on at such a call and
-- what it guarantees there.
import Mathlib.Logic.Basic

/-- What a routine does from one state. `call i s k` hands the state `s` to the
outside for the reason `i`; `k` is the rest of the routine. -/
inductive Coop (σ ε ι α : Type) : Type where
  | ret (a : α) (s : σ)
  | stop (e : ε) (s : σ)
  | call (i : ι) (s : σ) (k : σ → Coop σ ε ι α)

namespace Coop

variable {σ ε ι α β : Type}

/-- First `c`, then the routine `f` on its result. -/
def bind : Coop σ ε ι α → (α → σ → Coop σ ε ι β) → Coop σ ε ι β
  | ret a s, f => f a s
  | stop e s, _ => stop e s
  | call i s k, f => call i s fun s' => bind (k s') f

@[simp] theorem bind_ret (a : α) (s : σ) (f : α → σ → Coop σ ε ι β) :
    (ret a s).bind f = f a s := rfl

@[simp] theorem bind_stop (e : ε) (s : σ) (f : α → σ → Coop σ ε ι β) :
    (stop e s).bind f = stop e s := rfl

@[simp] theorem bind_call (i : ι) (s : σ) (k : σ → Coop σ ε ι α)
    (f : α → σ → Coop σ ε ι β) :
    (call i s k).bind f = call i s fun s' => (k s').bind f := rfl

theorem bind_pure (c : Coop σ ε ι α) : (c.bind fun a s => ret a s) = c := by
  induction c with
  | ret a s => rfl
  | stop e s => rfl
  | call i s k ih => simp only [bind_call, ih]

theorem bind_assoc {γ : Type} (c : Coop σ ε ι α) (f : α → σ → Coop σ ε ι β)
    (g : β → σ → Coop σ ε ι γ) :
    (c.bind f).bind g = c.bind fun a s => (f a s).bind g := by
  induction c with
  | ret a s => rfl
  | stop e s => rfl
  | call i s k ih => simp only [bind_call, ih]

/-- The same routine beside another state, which only the outside changes. -/
def beside {τ : Type} (t : τ) : Coop σ ε ι α → Coop (σ × τ) ε ι α
  | ret a s => ret a (s, t)
  | stop e s => stop e (s, t)
  | call i s k => call i (s, t) fun p => beside p.2 (k p.1)

/-- The end of a routine that never gives the machine away. -/
def ended : Coop σ ε ι α → Option (α × σ)
  | ret a s => some (a, s)
  | _ => none

theorem ret_of_ended {c : Coop σ ε ι α} {a : α} {s : σ} (h : c.ended = some (a, s)) :
    c = ret a s := by
  cases c with
  | ret b t =>
    simp only [ended, Option.some.injEq, Prod.mk.injEq] at h
    rw [h.1, h.2]
  | stop e t => cases h
  | call i t k => cases h

/-- The first time that a routine gives the machine away, and what it gives. -/
def firstCall : Coop σ ε ι α → Option (ι × σ)
  | call i s _ => some (i, s)
  | _ => none

theorem call_of_firstCall {c : Coop σ ε ι α} {i : ι} {s : σ} (h : c.firstCall = some (i, s)) :
    ∃ k, c = call i s k := by
  cases c with
  | ret b t => cases h
  | stop e t => cases h
  | call j t k =>
    simp only [firstCall, Option.some.injEq, Prod.mk.injEq] at h
    rw [h.1, h.2]
    exact ⟨k, rfl⟩

/-! ## Contracts -/

/-- What a routine relies on when it gets the state back, what it guarantees
when it gives the state away, and the stops that it may reach. -/
structure Contract (σ ε ι : Type) where
  rely : ι → σ → σ → Prop
  guar : ι → σ → Prop
  stops : ε → σ → Prop

/-- Every way that the routine goes on under the contract: each call keeps the
guarantee, each stop is allowed, and each end meets `Q`. -/
def Meets (C : Contract σ ε ι) (Q : α → σ → Prop) : Coop σ ε ι α → Prop
  | ret a s => Q a s
  | stop e s => C.stops e s
  | call i s k => C.guar i s ∧ ∀ s', C.rely i s s' → Meets C Q (k s')

/-- The contract with an unknown outside: it relies on nothing, and it allows every
call and every stop. -/
def Contract.any : Contract σ ε ι := ⟨fun _ _ _ => True, fun _ _ => True, fun _ _ => True⟩

/-- The contract of a routine that calls nothing outside. -/
def Contract.alone : Contract σ ε ι :=
    ⟨fun _ _ _ => False, fun _ _ => False, fun _ _ => True⟩

/-- The contract of a routine that returns: it calls nothing outside and does not stop. -/
def Contract.total : Contract σ ε ι :=
    ⟨fun _ _ _ => False, fun _ _ => False, fun _ _ => False⟩

variable {C : Contract σ ε ι}

@[simp] theorem meets_ret {Q : α → σ → Prop} {a : α} {s : σ} :
    (ret a s : Coop σ ε ι α).Meets C Q ↔ Q a s := Iff.rfl

@[simp] theorem meets_stop {Q : α → σ → Prop} {e : ε} {s : σ} :
    (stop e s : Coop σ ε ι α).Meets C Q ↔ C.stops e s := Iff.rfl

@[simp] theorem meets_call {Q : α → σ → Prop} {i : ι} {s : σ}
    {k : σ → Coop σ ε ι α} : (call i s k).Meets C Q ↔ C.guar i s ∧ ∀ s',
    C.rely i s s' → (k s').Meets C Q := Iff.rfl

/-- The rule of sequence. -/
theorem meets_bind {Q : β → σ → Prop} {c : Coop σ ε ι α}
    {f : α → σ → Coop σ ε ι β} : (c.bind f).Meets C Q ↔ c.Meets C fun a s =>
    (f a s).Meets C Q := by
  induction c with
  | ret a s => rfl
  | stop e s => rfl
  | call i s k ih =>
    simp only [bind_call, meets_call]
    refine and_congr_right fun _ => forall_congr' fun s' => ?_
    exact imp_congr_right fun _ => ih s'

/-- The rule of consequence. -/
theorem Meets.mono {Q Q' : α → σ → Prop} {c : Coop σ ε ι α} (h : c.Meets C Q)
    (hQ : ∀ a s, Q a s → Q' a s) : c.Meets C Q' := by
  induction c with
  | ret a s => exact hQ a s h
  | stop e s => exact h
  | call i s k ih => exact ⟨h.1, fun s' hs' => ih s' (h.2 s' hs')⟩

/-- A routine does not meet two contracts that contradict each other. -/
theorem Meets.absurd {D : Contract σ ε ι} {Q R : α → σ → Prop} {c : Coop σ ε ι α}
    (h : c.Meets C Q) (h' : c.Meets D R) (hret : ∀ a s, Q a s → ¬ R a s)
    (hstop : ∀ e s, C.stops e s → ¬ D.stops e s)
    (hcall : ∀ i s, C.guar i s → D.guar i s → ∃ s', C.rely i s s' ∧ D.rely i s s') :
    False := by
  induction c with
  | ret a s => exact hret a s h h'
  | stop e s => exact hstop e s h h'
  | call i s k ih =>
    obtain ⟨s', hs, hs'⟩ := hcall i s h.1 h'.1
    exact ih s' (h.2 s' hs) (h'.2 s' hs')

/-- A routine that calls nothing does not depend on the outside. -/
theorem Meets.of_alone {Q : α → σ → Prop} {c : Coop σ ε ι α} (h : c.Meets .alone Q)
    (hstop : ∀ e s, C.stops e s) : c.Meets C Q := by
  cases c with
  | ret a s => exact h
  | stop e s => exact hstop e s
  | call i s k => exact h.1.elim

theorem Meets.any {Q : α → σ → Prop} {c : Coop σ ε ι α} (h : c.Meets .alone Q) :
    c.Meets .any Q := h.of_alone fun _ _ => trivial

theorem meets_total {Q : α → σ → Prop} {c : Coop σ ε ι α} :
    c.Meets .total Q ↔ ∃ a s, c = .ret a s ∧ Q a s := by
  cases c with
  | ret a s =>
    refine ⟨fun h => ⟨a, s, rfl, h⟩, fun ⟨a', s', heq, h⟩ => ?_⟩
    cases heq
    exact h
  | stop e s => exact ⟨False.elim, fun ⟨_, _, heq, _⟩ => by cases heq⟩
  | call i s k => exact ⟨fun h => h.1.elim, fun ⟨_, _, heq, _⟩ => by cases heq⟩

theorem meets_any {Q : α → σ → Prop} (c : Coop σ ε ι α) (h : ∀ a s, Q a s) :
    c.Meets .any Q := by
  induction c with
  | ret a s => exact h a s
  | stop e s => trivial
  | call i s k ih => exact ⟨trivial, fun s' _ => ih s'⟩

/-- Wherever the routine ends or calls outside, `f` of the state is what it was when the
routine last got the state; at first it was `x`. -/
def Steady {γ : Type} (f : σ → γ) (x : γ) : Coop σ ε ι α → Prop
  | ret _ s => f s = x
  | stop _ s => f s = x
  | call _ s k => f s = x ∧ ∀ s', Steady f (f s') (k s')

theorem steady_bind {γ : Type} {f : σ → γ} {x : γ} {c : Coop σ ε ι α}
    {g : α → σ → Coop σ ε ι β} (hc : c.Steady f x)
    (hg : ∀ a s, (g a s).Steady f (f s)) : (c.bind g).Steady f x := by
  induction c generalizing x with
  | ret a s =>
    have hs : f s = x := hc
    rw [← hs]
    exact hg a s
  | stop e s => exact hc
  | call i s k ih => exact ⟨hc.1, fun s' => ih s' (hc.2 s')⟩

/-- The same beside another state. -/
theorem Steady.beside {γ τ : Type} {f : σ → γ} {x : γ} {c : Coop σ ε ι α}
    (h : c.Steady f x) (t : τ) : (c.beside t).Steady (fun p => (f p.1, p.2)) (x, t) := by
  induction c generalizing x t with
  | ret a s => exact Prod.ext h rfl
  | stop e s => exact Prod.ext h rfl
  | call i s k ih => exact ⟨Prod.ext h.1 rfl, fun p => ih p.1 (h.2 p.1) p.2⟩

end Coop

/-! ## Routines -/

/-- A routine: from each state, what it does. -/
def Routine (σ ε ι α : Type) : Type := σ → Coop σ ε ι α

namespace Routine

variable {σ ε ι α β : Type}

instance : Monad (Routine σ ε ι) where
  pure a := fun s => .ret a s
  bind x f := fun s => (x s).bind fun a s' => f a s'

/-- Read the state through `f`. -/
def gets (f : σ → α) : Routine σ ε ι α := fun s => .ret (f s) s

/-- Change the state. -/
def modify (f : σ → σ) : Routine σ ε ι Unit := fun s => .ret () (f s)

/-- Stop the process. -/
def stop (e : ε) : Routine σ ε ι α := fun s => .stop e s

/-- Give the state to the outside and wait for it. -/
def call (i : ι) : Routine σ ε ι Unit := fun s => .call i s fun s' => .ret () s'

@[simp] theorem pure_apply (a : α) (s : σ) :
    (pure a : Routine σ ε ι α) s = .ret a s := rfl

@[simp] theorem bind_apply (x : Routine σ ε ι α) (f : α → Routine σ ε ι β) (s : σ) :
    (x >>= f) s = (x s).bind fun a s' => f a s' := rfl

/-- One step of a run: the first routine returns. -/
theorem bind_of {x : Routine σ ε ι α} {f : α → Routine σ ε ι β} {s s' : σ} {a : α}
    (h : x s = .ret a s') : (x >>= f) s = f a s' := by
  rw [bind_apply, h, Coop.bind_ret]

/-- A routine that returns as a whole returns in both parts. -/
theorem bind_eq_ret {x : Routine σ ε ι α} {f : α → Routine σ ε ι β} {s t : σ} {b : β}
    (h : (x >>= f) s = .ret b t) :
    ∃ a u, x s = .ret a u ∧ f a u = .ret b t := by
  rw [bind_apply] at h
  cases hx : x s with
  | ret a u =>
    rw [hx] at h
    exact ⟨a, u, rfl, h⟩
  | stop e u =>
    rw [hx] at h
    cases h
  | call i u k =>
    rw [hx] at h
    cases h

@[simp] theorem gets_apply (f : σ → α) (s : σ) :
    (gets f : Routine σ ε ι α) s = .ret (f s) s := rfl

@[simp] theorem modify_apply (f : σ → σ) (s : σ) :
    (modify f : Routine σ ε ι Unit) s = .ret () (f s) := rfl

@[simp] theorem stop_apply (e : ε) (s : σ) :
    (stop e : Routine σ ε ι α) s = .stop e s := rfl

@[simp] theorem call_apply (i : ι) (s : σ) :
    (call i : Routine σ ε ι Unit) s = .call i s fun s' => .ret () s' := rfl

@[simp] theorem ite_apply (c : Prop) [Decidable c] (x y : Routine σ ε ι α) (s : σ) :
    (if c then x else y) s = if c then x s else y s := by
  split <;> rfl

/-- What the routine keeps: `f` of the state is the same at its end, whatever the
outside does at its calls, as far as the routine does not rely on it. -/
def Keeps {γ : Type} (f : σ → γ) (x : Routine σ ε ι α) : Prop :=
  ∀ s, (x s).Meets .any fun _ t => f t = f s

section Keeps

variable {γ : Type} {f : σ → γ}

theorem keeps_pure (a : α) : Keeps f (pure a : Routine σ ε ι α) := fun _ => rfl

theorem keeps_gets (g : σ → α) : Keeps f (gets g : Routine σ ε ι α) := fun _ => rfl

theorem keeps_modify {g : σ → σ} (h : ∀ s, f (g s) = f s) :
    Keeps f (modify g : Routine σ ε ι Unit) := fun s => h s

theorem keeps_stop (e : ε) : Keeps f (stop e : Routine σ ε ι α) := fun _ => trivial

theorem keeps_bind {x : Routine σ ε ι α} {y : α → Routine σ ε ι β} (hx : Keeps f x)
    (hy : ∀ a, Keeps f (y a)) : Keeps f (x >>= y) := by
  intro s
  refine Coop.meets_bind.mpr ((hx s).mono fun a t ht => ?_)
  exact (hy a t).mono fun _ _ hu => hu.trans ht

theorem keeps_ite {c : Prop} [Decidable c] {x y : Routine σ ε ι α} (hx : Keeps f x)
    (hy : Keeps f y) : Keeps f (if c then x else y) := by
  split
  · exact hx
  · exact hy

end Keeps

/-- The routine calls nothing outside, and `f` of the state is the same at its end. -/
def Alone {γ : Type} (f : σ → γ) (x : Routine σ ε ι α) : Prop :=
  ∀ s, (x s).Meets .alone fun _ t => f t = f s

section Alone

variable {γ : Type} {f : σ → γ}

theorem alone_pure (a : α) : Alone f (pure a : Routine σ ε ι α) := fun _ => rfl

theorem alone_gets (g : σ → α) : Alone f (gets g : Routine σ ε ι α) := fun _ => rfl

theorem alone_modify {g : σ → σ} (h : ∀ s, f (g s) = f s) :
    Alone f (modify g : Routine σ ε ι Unit) := fun s => h s

theorem alone_bind {x : Routine σ ε ι α} {y : α → Routine σ ε ι β} (hx : Alone f x)
    (hy : ∀ a, Alone f (y a)) : Alone f (x >>= y) := by
  intro s
  refine Coop.meets_bind.mpr ((hx s).mono fun a t ht => ?_)
  exact (hy a t).mono fun _ _ hu => hu.trans ht

theorem alone_ite {c : Prop} [Decidable c] {x y : Routine σ ε ι α} (hx : Alone f x)
    (hy : Alone f y) : Alone f (if c then x else y) := by
  split
  · exact hx
  · exact hy

/-- A function of what is kept is kept. -/
theorem Alone.of {δ : Type} {x : Routine σ ε ι α} (h : Alone f x) (g : γ → δ) :
    Alone (fun s => g (f s)) x := fun s => (h s).mono fun _ _ ht => congrArg g ht

end Alone

/-- From each state with `P`, the end of the routine has `Q`, whatever the outside does
at its calls. -/
def Leads (P : σ → Prop) (x : Routine σ ε ι α) (Q : α → σ → Prop) : Prop :=
  ∀ s, P s → (x s).Meets .any Q

section Leads

variable {P : σ → Prop} {Q : α → σ → Prop}

theorem leads_pure {a : α} (h : ∀ s, P s → Q a s) : Leads P (pure a : Routine σ ε ι α) Q :=
  h

theorem leads_gets {g : σ → α} (h : ∀ s, P s → Q (g s) s) :
    Leads P (gets g : Routine σ ε ι α) Q := h

theorem leads_bind {R : α → σ → Prop} {Q : β → σ → Prop} {x : Routine σ ε ι α}
    {y : α → Routine σ ε ι β} (hx : Leads P x R) (hy : ∀ a, Leads (R a) (y a) Q) :
    Leads P (x >>= y) Q := fun s hs =>
  Coop.meets_bind.mpr ((hx s hs).mono fun a t ht => hy a t ht)

theorem leads_ite {c : Prop} [Decidable c] {x y : Routine σ ε ι α} (hx : c → Leads P x Q)
    (hy : ¬c → Leads P y Q) : Leads P (if c then x else y) Q := by
  split
  · exact hx ‹c›
  · exact hy ‹¬c›

theorem Leads.mono {Q' : α → σ → Prop} {x : Routine σ ε ι α} (h : Leads P x Q)
    (hQ : ∀ a s, Q a s → Q' a s) : Leads P x Q' := fun s hs => (h s hs).mono hQ

/-- Any property of what the routine keeps. -/
theorem Keeps.leads {γ : Type} {f : σ → γ} {x : Routine σ ε ι α} (h : Keeps f x)
    (P : γ → Prop) :
    Leads (fun s => P (f s)) x fun _ s => P (f s) := fun s hs =>
  (h s).mono fun _ _ ht => ht ▸ hs

theorem Alone.leads {γ : Type} {f : σ → γ} {x : Routine σ ε ι α} (h : Alone f x)
    (P : γ → Prop) :
    Leads (fun s => P (f s)) x fun _ s => P (f s) := fun s hs =>
  (h s).any.mono fun _ _ ht => ht ▸ hs

end Leads

/-- Only the outside changes `f` of the state. -/
def Steady {γ : Type} (f : σ → γ) (x : Routine σ ε ι α) : Prop := ∀ s,
    (x s).Steady f (f s)

section Steady

variable {γ : Type} {f : σ → γ}

theorem steady_pure (a : α) : Steady f (pure a : Routine σ ε ι α) := fun _ => rfl

theorem steady_gets (g : σ → α) : Steady f (gets g : Routine σ ε ι α) := fun _ => rfl

theorem steady_modify {g : σ → σ} (h : ∀ s, f (g s) = f s) :
    Steady f (modify g : Routine σ ε ι Unit) := h

theorem steady_stop (e : ε) : Steady f (stop e : Routine σ ε ι α) := fun _ => rfl

theorem steady_call (i : ι) : Steady f (call i : Routine σ ε ι Unit) :=
  fun _ => ⟨rfl, fun _ => rfl⟩

theorem steady_bind {x : Routine σ ε ι α} {y : α → Routine σ ε ι β} (hx : Steady f x)
    (hy : ∀ a, Steady f (y a)) : Steady f (x >>= y) := fun s => Coop.steady_bind (hx s) hy

theorem steady_ite {c : Prop} [Decidable c] {x y : Routine σ ε ι α} (hx : Steady f x)
    (hy : Steady f y) : Steady f (if c then x else y) := by
  split
  · exact hx
  · exact hy

end Steady

/-- The routine returns from every state, and calls nothing outside. -/
def Total (x : Routine σ ε ι α) : Prop := ∀ s, ∃ a t, x s = .ret a t

section Total

theorem total_pure (a : α) : Total (pure a : Routine σ ε ι α) := fun s => ⟨a, s, rfl⟩

theorem total_gets (g : σ → α) : Total (gets g : Routine σ ε ι α) :=
    fun s => ⟨g s, s, rfl⟩

theorem total_modify (g : σ → σ) : Total (modify g : Routine σ ε ι Unit) := fun s =>
    ⟨(), g s, rfl⟩

theorem total_bind {x : Routine σ ε ι α} {y : α → Routine σ ε ι β} (hx : Total x)
    (hy : ∀ a, Total (y a)) : Total (x >>= y) := by
  intro s
  obtain ⟨a, t, hrun⟩ := hx s
  rw [bind_of hrun]
  exact hy a t

theorem total_ite {c : Prop} [Decidable c] {x y : Routine σ ε ι α} (hx : Total x)
    (hy : Total y) : Total (if c then x else y) := by
  split
  · exact hx
  · exact hy

end Total

end Routine
