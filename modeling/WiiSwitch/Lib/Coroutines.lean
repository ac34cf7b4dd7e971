-- Coroutines. One party has the turn. When it hands the turn to another, it leaves what it
-- needs to go on, and it finds just that when the turn comes back to it.
import Mathlib.Logic.Function.Basic

/-- Who has the turn, and what the parties have left; a party that has left nothing has yet
to start. -/
structure Coroutines (τ ρ : Type) where
  running : τ
  parked : τ → Option ρ

namespace Coroutines

variable {τ ρ : Type}

/-- The party `t` takes the turn, and the running one is given up. -/
def seize (co : Coroutines τ ρ) (t : τ) : Coroutines τ ρ := { co with running := t }

@[simp] theorem seize_running (co : Coroutines τ ρ) (t : τ) : (co.seize t).running = t := rfl

@[simp] theorem seize_parked (co : Coroutines τ ρ) (t : τ) :
    (co.seize t).parked = co.parked := rfl

variable [DecidableEq τ]

/-- The running party leaves `kept`, and `t` gets the turn. -/
def handTo (co : Coroutines τ ρ) (t : τ) (kept : ρ) : Coroutines τ ρ :=
  ⟨t, Function.update co.parked co.running (some kept)⟩

/-- The party `t` is to start from its beginning. -/
def renew (co : Coroutines τ ρ) (t : τ) : Coroutines τ ρ :=
  { co with parked := Function.update co.parked t none }

@[simp] theorem handTo_running (co : Coroutines τ ρ) (t : τ) (kept : ρ) :
    (co.handTo t kept).running = t := rfl

@[simp] theorem renew_running (co : Coroutines τ ρ) (t : τ) :
    (co.renew t).running = co.running := rfl

/-- A party that hands the turn over finds what it has left. -/
@[simp] theorem handTo_parked_self (co : Coroutines τ ρ) (t : τ) (kept : ρ) :
    (co.handTo t kept).parked co.running = some kept := Function.update_self ..

/-- The others find what they have left before. -/
theorem handTo_parked_other (co : Coroutines τ ρ) (t : τ) (kept : ρ) {u : τ}
    (hu : u ≠ co.running) : (co.handTo t kept).parked u = co.parked u :=
  Function.update_of_ne hu ..

@[simp] theorem renew_parked_self (co : Coroutines τ ρ) (t : τ) :
    (co.renew t).parked t = none := Function.update_self ..

theorem renew_parked_other (co : Coroutines τ ρ) {t u : τ} (hu : u ≠ t) :
    (co.renew t).parked u = co.parked u := Function.update_of_ne hu ..

end Coroutines
