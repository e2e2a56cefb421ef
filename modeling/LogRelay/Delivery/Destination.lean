import LogRelay.Delivery.Plan
import LogRelay.Message

/-!
# Destinations

What a writer knows of the place that its messages go to: its name, how it counts and limits the
bytes of a batch, and the plans of making it available, sending a batch, and shutting it down.
Counting and limiting may panic, as everything that is not the writer's own may.
-/

namespace LogRelay

/-- How the bytes of a batch are counted and limited. -/
structure Measure where
  /-- What a message counts for in a batch. -/
  effectiveSize : Message → Except Panic Nat
  /-- Whether a batch may have so many bytes and messages. -/
  withinLimits : Nat → Nat → Except Panic Bool

structure Destination (A : Api) extends Measure where
  /-- The name, which may depend on what has been remembered. -/
  name : Option String → String
  /-- The largest message that the destination takes, in bytes. -/
  maxMessageSize : Except Panic Nat
  makeAvailable : Plan A (Except Failure Unit)
  /-- The positions of the messages that were not accepted. -/
  send : List Message → Plan A (Except Failure (List Nat))
  shutdown : Plan A Unit

namespace Destination

variable {A B : Api}

/-- The same destination against an API that contains its own. -/
def within (emb : A.Request → B.Request) (back : ∀ r, B.Reply (emb r) → A.Reply r)
    (d : Destination A) : Destination B where
  toMeasure := d.toMeasure
  name := d.name
  maxMessageSize := d.maxMessageSize
  makeAvailable := d.makeAvailable.within emb back
  send batch := (d.send batch).within emb back
  shutdown := d.shutdown.within emb back

end Destination

end LogRelay
