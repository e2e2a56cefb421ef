import LogRelay.Delivery.Destination

/-!
# Batches

A batch grows from the front of the backlog for as long as the destination's limits allow.
-/

namespace LogRelay

structure Batch where
  messages : List Message
  bytes : Nat

/-- How far a batch could be filled: the messages taken, those left, the bytes counted in all, and
whether the limits or the end of the messages stopped it. -/
structure Filling where
  taken : List Message
  left : List Message
  bytes : Nat
  full : Bool

namespace Batch

/-- Puts a position in its place among others that ascend, unless it is there already. -/
def insertPosition (p : Nat) : List Nat → List Nat
  | [] => [p]
  | q :: qs => if p < q then p :: q :: qs else if p = q then q :: qs else q :: insertPosition p qs

/-- Positions in ascending order, each once. -/
def ascending (positions : List Nat) : List Nat := positions.foldr insertPosition []

/-- The messages at the positions given, which ascend, where the first message stands at `i`. One
pass goes through both. -/
def pick (i : Nat) : List Nat → List Message → List Message
  | _, [] => []
  | [], _ :: _ => []
  | p :: ps, m :: ms => if p = i then m :: pick (i + 1) ps ms else pick (i + 1) (p :: ps) ms

end Batch

namespace Measure

/-- Takes messages while the limits allow for one more on top of `bytes` and `count`. A panic
loses the message that was being counted. The size of a message is what the service counts it for,
so the sizes that are added here, of a batch within the limits and of one message more, are taken
to come to less than a word. -/
def fill (μ : Measure) (bytes count : Nat) : List Message → Except (Panic × List Message) Filling
  | [] => .ok { taken := [], left := [], bytes, full := false }
  | m :: rest =>
    match μ.effectiveSize m with
    | .error p => .error (p, rest)
    | .ok size =>
      match μ.withinLimits (bytes + size) (count + 1) with
      | .error p => .error (p, rest)
      | .ok false => .ok { taken := [], left := m :: rest, bytes, full := true }
      | .ok true =>
        match μ.fill (bytes + size) (count + 1) rest with
        | .error e => .error e
        | .ok f => .ok { f with taken := m :: f.taken }

end Measure

end LogRelay
