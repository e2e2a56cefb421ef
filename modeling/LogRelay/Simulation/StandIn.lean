import LogRelay.Delivery.Destination

/-!
# A destination to rehearse with

A stand-in takes the place of a destination and does as it is told: it counts and limits bytes as
configured, refuses the messages it is to refuse, and panics over those it cannot size.
-/

namespace LogRelay

structure StandIn where
  /-- Its name, instead of the one in the settings. -/
  name : Option String := none
  maxCount : Nat := maxWord
  maxBytes : Nat := maxWord
  maxMessageSize : Nat := 1024
  overhead : Nat := 0
  /-- Every so many messages of a batch are refused. -/
  refuseEvery : Option Nat := none
  /-- A text within messages that cannot be sized. -/
  unsizable : Option String := none
  /-- It has no way of its own to size messages and to shut down. -/
  plain : Bool := false

namespace StandIn

inductive Request
  | ensure (name : String)
  | send (name : String) (batch : List Message)
  | shutdown (name : String)
deriving DecidableEq, Repr

abbrev Request.Reply : Request → Type
  | ensure _ => Except Failure Unit
  | send _ _ => Except Failure (List Nat)
  | shutdown _ => Unit

abbrev api : Api := ⟨Request, Request.Reply⟩

def ask (r : Request) : Plan api r.Reply := Plan.request (A := api) r

/-- `part` occurs in `text`. -/
def occurs (part : List Char) : List Char → Bool
  | [] => part.isEmpty
  | c :: rest => part.isPrefixOf (c :: rest) || occurs part rest

def isUnsizable (d : StandIn) (m : Message) : Bool :=
  d.unsizable.any fun part => occurs part.toList m.text.toList

def effectiveSize (d : StandIn) (m : Message) : Except Panic Nat :=
  if d.plain then .ok m.size
  else if d.isUnsizable m then .error { payload := some ("cannot size " ++ m.text) }
  else .ok (m.size + d.overhead)

/-- The positions of a batch of `count` messages that are refused. -/
def refused (d : StandIn) (count : Nat) : List Nat :=
  match d.refuseEvery with
  | some n => (List.range count).filter fun i => (i + 1) % n = 0
  | none => []

def destination (d : StandIn) (name : String) : Destination api where
  name _ := name
  maxMessageSize := .ok d.maxMessageSize
  effectiveSize := d.effectiveSize
  withinLimits bytes count := .ok (bytes ≤ d.maxBytes && count ≤ d.maxCount)
  makeAvailable := ask (.ensure name)
  send batch := ask (.send name batch)
  shutdown := if d.plain then return () else ask (.shutdown name)

end StandIn

end LogRelay
