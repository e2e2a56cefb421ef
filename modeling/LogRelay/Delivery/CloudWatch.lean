import LogRelay.Delivery.Destination
import LogRelay.Delivery.Names
import LogRelay.Delivery.Patience
import LogRelay.Settings

/-!
# CloudWatch Logs

A batch goes to one log stream in one request, in chronological order, and is accepted or refused
as a whole. Each request presents the token that the one before it returned; the destination keeps
the token in memory and asks for it when it has none, or when others write to the stream too. A
stream that has gone missing is created again, and the batch is then left to be sent once more.
-/

namespace LogRelay.CloudWatch

/-- A message as the service stores it, with its time in milliseconds. -/
structure Event where
  time : Int
  text : String
deriving DecidableEq, Repr

structure Put where
  group : String
  stream : String
  token : Option String
  events : List Event
deriving DecidableEq, Repr

/-- Events that were accepted and then not stored, by their positions in the request. -/
structure Rejected where
  tooNewFrom : Option Nat := none
  tooOldUpTo : Option Nat := none
  expiredUpTo : Option Nat := none
deriving DecidableEq, Repr

structure PutReply where
  nextToken : Option String := none
  rejected : Option Rejected := none
deriving DecidableEq, Repr

inductive Request
  | groupExists (group : String)
  | createGroup (group : String)
  | putRetention (group : String) (days : Nat)
  | describeStream (group stream : String)
  | createStream (group stream : String)
  | putEvents (put : Put)
  | close
deriving DecidableEq, Repr

/-- A stream is described by its token. -/
abbrev Request.Reply : Request → Type
  | groupExists _ => Except Fault Bool
  | createGroup _ => Except Fault Unit
  | putRetention _ _ => Except Fault Unit
  | describeStream _ _ => Except Fault (Option (Option String))
  | createStream _ _ => Except Fault Unit
  | putEvents _ => Except Fault PutReply
  | close => Unit

abbrev api : Api := ⟨Request, Request.Reply⟩

def ask (r : Request) : Plan api r.Reply := Plan.request (A := api) r

def maxBatchBytes : Nat := 1048576

def maxBatchCount : Nat := 10000

/-- Bytes that the service counts for every event besides its text. -/
def eventOverhead : Nat := 26

def maxMessageSize : Nat := 256 * 1024 - eventOverhead

/-- A log stream with the patience to set it up and to send. -/
structure Stream where
  settings : CloudWatchSettings
  setup : Patience
  sending : Patience

namespace Stream

variable (s : Stream)

def group : String := s.settings.logGroup

def stream : String := s.settings.logStream

def name : String := s.group ++ "/" ++ s.stream

def groupExists : Plan api (Patience.Try Fault Bool) := do
  return Patience.unlessTransient (← ask (.groupExists s.group))

/-- Asks for another try until the group is there. -/
def groupAppears : Plan api (Patience.Try Fault Unit) := do
  return (← s.groupExists).map fun there => if there = some true then some () else none

def describe : Plan api (Patience.Try Fault (Option (Option String))) := do
  return Patience.unlessTransient (← ask (.describeStream s.group s.stream))

/-- Asks for another try until the stream is there. -/
def streamAppears : Plan api (Patience.Try Fault (Option String)) := do
  return (← s.describe).map Option.join

/-- Failing to set the retention period leaves a group that can be used. -/
def applyRetention (days : Nat) : Plan api Unit := do
  let result ← (s.setup.require "failed to set log group retention policy" do
    return Patience.unlessTransient (← ask (.putRetention s.group days))).run
  match result with
  | .ok () => return ()
  | .error e => Plan.log (.error "failed to set retention policy" (some e))

def ensureGroup : Attempt api Unit := do
  Attempt.log (.debug ("checking for existence of log group: " ++ s.group))
  if ← s.setup.require "failed to check for log group" s.groupExists then return
  Attempt.log (.debug ("creating log group: " ++ s.group))
  s.setup.require "failed to create log group" do
    return Patience.created (← ask (.createGroup s.group))
  s.setup.require "log group did not become available" s.groupAppears
  match s.settings.retentionDays with
  | some days => s.applyRetention days
  | none => return

/-- Leaves the token of the stream in memory. -/
def ensureStream : Attempt api Unit := do
  match ← s.setup.require "failed to check for log stream" s.describe with
  | some token => Attempt.memorize token
  | none =>
    Attempt.log (.debug ("creating log stream: " ++ s.group ++ " / " ++ s.stream))
    s.setup.require "failed to create log stream" do
      return Patience.created (← ask (.createStream s.group s.stream))
    let token ← s.setup.require "log stream did not become available" s.streamAppears
    Attempt.memorize token

def invalidGroup : Failure :=
  { message := "invalid log group name", context := [("log_group", s.group)] }

def invalidStream : Failure :=
  { message := "invalid log stream name", context := [("log_stream", s.stream)] }

def ensure : Attempt api Unit := do
  s.ensureGroup
  s.ensureStream

/-- Sees to it that group and stream exist. -/
def makeAvailable : Plan api (Except Failure Unit) :=
  if !Names.isLogGroup s.group then return .error s.invalidGroup
  else if !Names.isLogStream s.stream then return .error s.invalidStream
  else do return (← s.ensure.run).mapError (·.withContext "destination" s.name)

/-- The token of the stream as the service knows it; none for a missing stream. -/
def fetchToken : Plan api (Except Fault (Option String)) := do
  return (← ask (.describeStream s.group s.stream)).map Option.join

/-- The batch in chronological order; events of one millisecond keep their order. -/
def events (batch : List Message) : List Event :=
  (batch.map fun m => ({ time := m.time.millis, text := m.text } : Event)).mergeSort
    fun a b => a.time ≤ b.time

/-- One try at sending. A refused token is replaced by the current one, which is a reason to try
again; events that are already there need no second request. -/
def put (events : List Event) : Plan api (Patience.Try Fault PutReply) := do
  let token ← Plan.memory
  match ← ask (.putEvents { group := s.group, stream := s.stream, token, events }) with
  | .ok reply => return .ok (some reply)
  | .error f =>
    match f.kind with
    | .dataAlreadyAccepted => return .ok (some {})
    | .invalidSequenceToken =>
      match ← s.fetchToken with
      | .ok token => Plan.memorize token
      | .error _ => Plan.memorize none
      return .ok none
    | _ => return Patience.unlessTransient (.error f)

/-- How many events there are up to a position, counted in words. -/
def countUpTo (i : Nat) : String := toString (i.toUInt64 + 1).toNat

def reportRejected (r : Rejected) : Plan api Unit := do
  if let some i := r.tooOldUpTo then
    Plan.log (.warn (countUpTo i ++ " messages rejected as too old"))
  if let some i := r.expiredUpTo then
    Plan.log (.warn (countUpTo i ++ " messages rejected as expired"))
  if let some i := r.tooNewFrom then
    Plan.log (.warn ("messages from position " ++ toString i ++ " rejected as too new"))

/-- Creates what is missing and gives back the whole batch. -/
def recover (count : Nat) (f : Fault) : Plan api (Except Failure (List Nat)) := do
  Plan.log (.warn ("log stream " ++ s.name ++ " missing, recreating: " ++ f.text))
  Plan.memorize none
  return (← s.makeAvailable).map fun () => List.range count

def timedOut : Failure :=
  { message := "timed out sending batch"
    context := [("destination", s.name), ("timeout_ms", toString s.sending.timeout.millis)] }

def sendFailed (f : Fault) : Failure :=
  { message := "failed to send batch", context := [("destination", s.name)], causes := [.fault f] }

def tokenFailed (f : Fault) : Failure :=
  { message := "failed to retrieve sequence token", causes := [.fault f] }

/-- Takes in the reply to a batch that was accepted. -/
def accepted (reply : PutReply) : Plan api (Except Failure (List Nat)) := do
  if reply.nextToken.isSome then Plan.memorize reply.nextToken
  if let some r := reply.rejected then reportRejected r
  return .ok []

/-- Sends the events with the token in memory. -/
def sendEvents (batch : List Message) : Plan api (Except Failure (List Nat)) := do
  match ← s.sending.invoke (s.put (events batch)) with
  | .ok (some reply) => accepted reply
  | .ok none => return .error s.timedOut
  | .error f =>
    if f.kind = .resourceNotFound then s.recover batch.length f else return .error (s.sendFailed f)

/-- Sends the batch with a token that the service is asked for first. A transient fault in asking
leaves it without one, which the service may accept. -/
def sendAfresh (batch : List Message) : Plan api (Except Failure (List Nat)) := do
  match ← s.fetchToken with
  | .ok token =>
    Plan.memorize token
    s.sendEvents batch
  | .error f =>
    if f.kind = .resourceNotFound then s.recover batch.length f
    else if f.isTransient then
      Plan.memorize none
      s.sendEvents batch
    else return .error (tokenFailed f)

/-- The positions of the messages to send again: all or none of them. -/
def send (batch : List Message) : Plan api (Except Failure (List Nat)) := do
  if batch.isEmpty then return .ok []
  let token ← Plan.memory
  if s.settings.dedicated && token.isSome then s.sendEvents batch else s.sendAfresh batch

end Stream

def destination (s : Stream) : Destination api where
  name _ := s.name
  maxMessageSize := .ok maxMessageSize
  effectiveSize m := .ok (m.size + eventOverhead)
  withinLimits bytes count := .ok (bytes ≤ maxBatchBytes && count ≤ maxBatchCount)
  makeAvailable := s.makeAvailable
  send := s.send
  shutdown := ask .close

end LogRelay.CloudWatch
