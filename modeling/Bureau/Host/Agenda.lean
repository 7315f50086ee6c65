/-!
Agendas: what is to be done at later ticks. Entries stand in the order in which they were made, and
those for one tick fall due in that order.
-/

set_option autoImplicit false

namespace Bureau

/-- Something to be done at a tick. -/
structure Alarm (α : Type) where
  tick : Nat
  job : α
deriving DecidableEq

/-- An agenda, the oldest entry first. -/
structure Agenda (α : Type) where
  alarms : List (Alarm α)

namespace Agenda

variable {α : Type}

def empty : Agenda α := ⟨[]⟩

def add (a : Agenda α) (tick : Nat) (job : α) : Agenda α := ⟨a.alarms ++ [⟨tick, job⟩]⟩

def due (a : Agenda α) (now : Nat) : List α :=
  (a.alarms.filter fun alarm => alarm.tick ≤ now).map (·.job)

def later (a : Agenda α) (now : Nat) : Agenda α :=
  ⟨a.alarms.filter fun alarm => !decide (alarm.tick ≤ now)⟩

def without (a : Agenda α) (kind : α → Bool) : Agenda α :=
  ⟨a.alarms.filter fun alarm => !kind alarm.job⟩

def next? (a : Agenda α) : Option Nat := (a.alarms.map (·.tick)).min?

end Agenda

end Bureau
