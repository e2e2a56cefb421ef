import LogRelay.Delivery.CloudWatch
import LogRelay.Delivery.Kinesis
import LogRelay.Simulation.KinesisService

/-!
# Scripts

How the next calls of a method turn out, settled in advance. A turn may delay a call, break it off,
make it fail or say what it comes to; what it leaves open is left to the service.
-/

namespace LogRelay.Simulation

/-- The methods of the services, and those of a stand-in for a destination. -/
inductive Method
  | groupExists
  | createGroup
  | putRetention
  | describeLogStream
  | createLogStream
  | putEvents
  | describeStream
  | createStream
  | increaseRetention
  | putRecords
  | listTopics
  | createTopic
  | publish
  | ensure
  | send
deriving DecidableEq, Repr

namespace Method

/-- How a method fails. -/
abbrev Error : Method → Type
  | ensure | send => Failure
  | _ => Fault

/-- What a script may say of a call that does not fail. -/
abbrev Hint : Method → Type
  | groupExists => Bool
  | describeLogStream => Option (Option String)
  | putEvents => CloudWatch.PutReply
  | describeStream => Option Kinesis.Status
  | putRecords => Kinesis.Refusals ⊕ List Kinesis.RecordReply
  | createTopic => String
  | send => List Nat
  | _ => Unit

end Method

structure Turn (m : Method) where
  delay : Duration := 0
  panic : Option Panic := none
  error : Option m.Error := none
  hint : Option m.Hint := none

/-- One turn of one method. -/
structure Line where
  method : Method
  turn : Turn method

/-- The turns of every method are taken in order. -/
abbrev Script := List Line

/-- Takes the next turn of the method, if there is one. -/
def Script.take (m : Method) : Script → Option (Turn m) × Script
  | [] => (none, [])
  | line :: rest =>
    if h : line.method = m then (some (h ▸ line.turn), rest)
    else
      let (turn, rest) := take m rest
      (turn, line :: rest)

end LogRelay.Simulation
