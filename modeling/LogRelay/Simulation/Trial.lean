import LogRelay.Delivery.Patience

/-!
# Trials

An operation whose tries are settled in advance: how long each takes and what it shows. Tries
beyond those ask for another. This is the ground on which the timing of retries can be observed.
-/

namespace LogRelay.Simulation

structure Trial (ε α : Type) where
  latency : Duration
  outcome : Patience.Try ε α

/-- A clock, the tries to come, the latency of those beyond, and the times at which tries began. -/
structure Trials (ε α : Type) where
  now : Instant := 0
  coming : List (Trial ε α)
  latency : Duration
  begun : Array Instant := #[]

namespace Trials

variable {ε α : Type}

/-- The API of an operation without arguments. -/
abbrev api (ε α : Type) : Api := ⟨Unit, fun _ => Patience.Try ε α⟩

def operation : Plan (api ε α) (Patience.Try ε α) := Plan.request (A := api ε α) ()

def attempt (t : Trials ε α) : Patience.Try ε α × Trials ε α :=
  let t := { t with begun := t.begun.push t.now }
  match t.coming with
  | [] => (.ok none, { t with now := t.now + t.latency })
  | trial :: coming => (trial.outcome, { t with now := t.now + trial.latency, coming })

def ground : Ground (api ε α) (Trials ε α) where
  now t := t.now
  elapse d t := { t with now := t.now + d }
  note _ t := t
  consult _ := none
  remember _ t := t
  draw t := (0, t)
  call _ t := let (outcome, t) := t.attempt; (.ok outcome, t)

end Trials

end LogRelay.Simulation
