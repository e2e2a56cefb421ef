/-!
# Rotation

When to leave one log stream for the next: after a number of messages, after a span of time, or at
the boundaries of hours and days in UTC.
-/

namespace LogRelay

inductive RotationMode
  | none
  | count
  | interval
  | hourly
  | daily
deriving DecidableEq, Repr

namespace RotationMode

def name : RotationMode → String
  | none => "none"
  | count => "count"
  | interval => "interval"
  | hourly => "hourly"
  | daily => "daily"

def all : List RotationMode := [none, count, interval, hourly, daily]

def ofName? (s : String) : Option RotationMode := all.find? (·.name == s)

end RotationMode

/-- How far the current period has come. Times are in milliseconds since 1970. -/
structure Rotation where
  mode : RotationMode
  interval : Nat
  messages : UInt64
  since : Int
deriving Repr

namespace Rotation

def begin (mode : RotationMode) (interval : Nat) (now : Int) : Rotation :=
  { mode, interval, messages := 0, since := now }

/-- The number of the period of `length` milliseconds that `t` lies in. -/
def period (length t : Int) : Int := t.fdiv length

def millisPerHour : Int := 60 * 60 * 1000

def millisPerDay : Int := 24 * millisPerHour

/-- A new period starts before the message that is about to be added. -/
def isDue (r : Rotation) (now : Int) : Bool :=
  match r.mode with
  | .none => false
  | .count => 0 < r.interval && r.interval ≤ r.messages.toNat
  | .interval => 0 < r.interval && (r.interval : Int) < now - r.since
  | .hourly => period millisPerHour r.since != period millisPerHour now
  | .daily => period millisPerDay r.since != period millisPerDay now

/-- The count is a word, and is taken not to come to its end within a period. -/
def countMessage (r : Rotation) : Rotation := { r with messages := r.messages + 1 }

def restart (r : Rotation) (now : Int) : Rotation := { r with messages := 0, since := now }

end Rotation

end LogRelay
