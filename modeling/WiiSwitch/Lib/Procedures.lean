-- Who answers the calls of a routine. A program has a body for each reason to call outside,
-- and a run of the program answers each call with a run of the body; where every body meets a
-- contract that it may assume of its own calls, every run meets it. Or the outside has a state
-- of its own, from which it answers.
import WiiSwitch.Lib.Coop

namespace Coop

variable {σ ε ι α β : Type}

/-- A run of a routine to its end, in which each call is answered by a run of the body of its
reason. -/
inductive Completes (body : ι → σ → Coop σ ε ι Unit) :
    {α : Type} → Coop σ ε ι α → α → σ → Prop
  | ret {α : Type} (a : α) (s : σ) : Completes body (ret a s) a s
  | call {α : Type} {i : ι} {s s' t : σ} {k : σ → Coop σ ε ι α} {a : α} :
    Completes body (body i s) () s' → Completes body (k s') a t →
    Completes body (call i s k) a t

section

variable {body : ι → σ → Coop σ ε ι Unit} {c : Coop σ ε ι α}

/-- The rule of recursive procedures: each body may assume of the calls in it what it must
show of itself. -/
theorem Completes.meets {C : Contract σ ε ι} {Q : α → σ → Prop} {a : α} {t : σ}
    (hbody : ∀ i s, C.guar i s → (body i s).Meets C fun _ s' => C.rely i s s')
    (h : Completes body c a t) (hc : c.Meets C Q) : Q a t := by
  induction h with
  | ret a s => exact hc
  | call _ _ ihbody ihrest =>
    obtain ⟨hguar, hrest⟩ := hc
    exact ihrest (hrest _ (ihbody (hbody _ _ hguar)))

end

/-! ## An outside with a state -/

/-- A run of a routine against an outside with a state of its own, as far as it answers: how the
routine ends, and the two states there. -/
def against {κ : Type} (answer : ι → κ → σ → Option (σ × κ)) :
    Coop σ ε ι α → κ → Option (Except ε α × σ × κ)
  | ret a s, x => some (.ok a, s, x)
  | stop e s, x => some (.error e, s, x)
  | call i s k, x =>
    match answer i x s with
    | none => none
    | some (s', x') => against answer (k s') x'

section

variable {κ : Type} {answer : ι → κ → σ → Option (σ × κ)} {x x' : κ} {s s' : σ}

@[simp] theorem against_ret (a : α) (s : σ) (x : κ) :
    (ret a s : Coop σ ε ι α).against answer x = some (.ok a, s, x) := rfl

@[simp] theorem against_stop (e : ε) (s : σ) (x : κ) :
    (stop e s : Coop σ ε ι α).against answer x = some (.error e, s, x) := rfl

theorem against_call {i : ι} {k : σ → Coop σ ε ι α} (h : answer i x s = some (s', x')) :
    (call i s k).against answer x = (k s').against answer x' := by
  rw [against, h]

/-- The first routine of a sequence comes to its end, and the rest goes on from there. -/
theorem against_bind {c : Coop σ ε ι α} {f : α → σ → Coop σ ε ι β} {a : α}
    (h : c.against answer x = some (.ok a, s, x')) :
    (c.bind f).against answer x = (f a s).against answer x' := by
  induction c generalizing x with
  | ret b t =>
    simp only [against_ret, Option.some.injEq, Prod.mk.injEq, Except.ok.injEq] at h
    obtain ⟨rfl, rfl, rfl⟩ := h
    rfl
  | stop e t => cases h
  | call i t k ih =>
    rw [bind_call]
    cases heq : answer i x t with
    | none => simp [against, heq] at h
    | some r =>
      rw [against_call heq] at h ⊢
      exact ih r.1 h

end

end Coop
