import LogRelay.Delivery.Plan

/-!
# Patience

How long to go on trying. An operation that is not ready yet is tried again after a delay, which
may double each time, until a timeout has passed; the last delay is cut so that the last try falls
on the deadline. A deadline that the clock cannot show is a panic, before anything is tried.
-/

namespace LogRelay

structure Patience where
  initialDelay : Duration
  timeout : Duration
  exponential : Bool
deriving DecidableEq, Repr

namespace Patience

variable {A : Api} {α ε : Type}

/-- What one try shows: `none` asks for another. -/
abbrev Try (ε α : Type) := Except ε (Option α)

/-- Tries at most `tries` more times. -/
def attempts (p : Patience) (op : Plan A (Try ε α)) (deadline : Instant) :
    Nat → Duration → Plan A (Try ε α)
  | 0, _ => .done (.ok none)
  | tries + 1, delay => do
    match ← op with
    | .error e => return .error e
    | .ok (some a) => return .ok (some a)
    | .ok none =>
      let now ← Plan.now
      if deadline ≤ now then return .ok none
      -- a delay that has doubled out of the range of spans is cut here all the same
      Plan.pause (min delay (deadline - now))
      p.attempts op deadline tries (if p.exponential then delay * 2 else delay)

/-- The clock can show when the timeout will have passed. -/
def Fits (p : Patience) (start : Instant) : Prop := start + p.timeout ≤ Instant.last

instance (p : Patience) (start : Instant) : Decidable (p.Fits start) :=
  inferInstanceAs (Decidable (_ ≤ _))

/-- Tries until the operation is ready or the timeout has passed; at least once. Every delay is a
tick at least, so there is no room for more tries than the timeout has ticks, and two. -/
def invoke (p : Patience) (op : Plan A (Try ε α)) : Plan A (Try ε α) := do
  let start ← Plan.now
  if p.Fits start then p.attempts op (start + p.timeout) (p.timeout + 2) p.initialDelay
  else .raise .instantTooLate

/-- Tries an operation of a service; running out of patience is a failure too. -/
def require (p : Patience) (message : String) (op : Plan A (Try Fault α)) : Attempt A α :=
  ExceptT.mk do
    match ← p.invoke op with
    | .ok (some a) => return .ok a
    | .ok none =>
      return .error (({ message } : Failure).withContext "timeout_ms" (toString p.timeout.millis))
    | .error f => return .error (({ message } : Failure).withFault f)

/-- A transient fault asks for another try. -/
def unlessTransient : Except Fault α → Try Fault α
  | .ok a => .ok (some a)
  | .error f => if f.isTransient then .ok none else .error f

/-- As `unlessTransient`, and what already exists counts as created. -/
def created : Except Fault Unit → Try Fault Unit
  | .error f =>
    if f.kind = .resourceAlreadyExists then .ok (some ()) else unlessTransient (.error f)
  | .ok () => .ok (some ())

end Patience

end LogRelay
