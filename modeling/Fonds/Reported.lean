import Fonds.Event

/-!
Computations that report events. The events of a computation that fails are those from before its
failure.
-/
namespace Fonds

/-- A result with the events on the way to it. -/
structure Reported (ε α : Type) where
  events : List Event
  outcome : Except ε α

namespace Reported

variable {ε α β : Type}

def pure (a : α) : Reported ε α := ⟨[], .ok a⟩

def report (event : Event) : Reported ε Unit := ⟨[event], .ok ()⟩

def ofExcept (x : Except ε α) : Reported ε α := ⟨[], x⟩

/-- Goes on from a result, with the events of both parts in order. -/
def bind (x : Reported ε α) (f : α → Reported ε β) : Reported ε β :=
  match x.outcome with
  | .ok a => ⟨x.events ++ (f a).events, (f a).outcome⟩
  | .error e => ⟨x.events, .error e⟩

instance : Monad (Reported ε) where
  pure := Reported.pure
  bind := Reported.bind

/-- Puts another kind of failure in place of this one. -/
def mapError {ε' : Type} (f : ε → ε') (x : Reported ε α) : Reported ε' α :=
  ⟨x.events, x.outcome.mapError f⟩

end Reported

end Fonds
