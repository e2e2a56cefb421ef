import LogRelay.Delivery.Destination
import LogRelay.Delivery.Names
import LogRelay.Delivery.Patience
import LogRelay.Settings
import LogRelay.Text.Digits

/-!
# Kinesis

A batch goes to a data stream in one request, and the service answers for every record whether it
was stored. Each record carries a partition key, which counts toward its size: one key for all, or
a random word in hexadecimal for each.
-/

namespace LogRelay.Kinesis

inductive Status
  | creating
  | active
  | updating
  | deleting
deriving DecidableEq, Repr

structure Record where
  key : String
  data : String
deriving DecidableEq, Repr

/-- The service's answer for one record; a code means that it was not stored. -/
structure RecordReply where
  code : Option String := none
  message : Option String := none
deriving DecidableEq, Repr

inductive Request
  | describe (stream : String)
  | create (stream : String) (shards : Nat)
  | increaseRetention (stream : String) (hours : Nat)
  | putRecords (stream : String) (records : List Record)
  | close
deriving DecidableEq, Repr

abbrev Request.Reply : Request → Type
  | describe _ => Except Fault (Option Status)
  | create _ _ => Except Fault Unit
  | increaseRetention _ _ => Except Fault Unit
  | putRecords _ _ => Except Fault (List RecordReply)
  | close => Unit

abbrev api : Api := ⟨Request, Request.Reply⟩

def ask (r : Request) : Plan api r.Reply := Plan.request (A := api) r

def maxBatchBytes : Nat := 5 * 1024 * 1024

def maxBatchCount : Nat := 500

def maxRecordBytes : Nat := 1024 * 1024

def maxKeyBytes : Nat := 256

/-- The length of a word in hexadecimal. -/
def randomKeyBytes : Nat := 8

/-- A data stream with the patience to set it up and to send. -/
structure Stream where
  settings : KinesisSettings
  setup : Patience
  sending : Patience

namespace Stream

variable (s : Stream)

def name : String := s.settings.stream

/-- What the key adds to every record. -/
def keySize : Nat :=
  if s.settings.hasRandomKey then randomKeyBytes else s.settings.partitionKey.utf8ByteSize

/-- What the key leaves of a record. A key longer than a record leaves less than nothing. -/
def maxMessageSize : Except Panic Nat :=
  if s.keySize ≤ maxRecordBytes then .ok (maxRecordBytes - s.keySize)
  else .error .differenceTooSmall

def hasValidKey : Bool :=
  let size := s.settings.partitionKey.utf8ByteSize
  s.settings.hasRandomKey || 1 ≤ size && size ≤ maxKeyBytes

def key : Plan api String := do
  if s.settings.hasRandomKey then return Text.hex randomKeyBytes (← Plan.randomWord).toNat
  else return s.settings.partitionKey

def describe : Plan api (Patience.Try Fault (Option Status)) := do
  return Patience.unlessTransient (← ask (.describe s.name))

/-- Asks for another try until the stream can be written to; one that is being deleted never
will. -/
def becomesActive : Plan api (Patience.Try Fault Unit) := do
  match ← s.describe with
  | .error f => return .error f
  | .ok (some (some .active)) | .ok (some (some .updating)) => return .ok (some ())
  | .ok (some (some .deleting)) =>
    return .error { kind := .resourceInUse, message := "stream is being deleted" }
  | .ok _ => return .ok none

def waitUntilActive : Attempt api Unit :=
  s.setup.require "stream did not become active" s.becomesActive

def create : Attempt api Unit := do
  Attempt.log (.debug ("creating stream: " ++ s.name ++ " with " ++ toString s.settings.shards
    ++ " shard(s)"))
  s.setup.require "failed to create stream" do
    return Patience.created (← ask (.create s.name s.settings.shards))
  s.waitUntilActive
  match s.settings.retentionHours with
  | none => return
  | some hours =>
    s.setup.require "failed to set stream retention period" do
      return Patience.unlessTransient (← ask (.increaseRetention s.name hours))
    -- a change of the retention period puts the stream back to updating
    s.waitUntilActive

def missing : Failure :=
  { message := "stream does not exist and auto-create is disabled"
    context := [("stream_name", s.name)] }

def ensure : Attempt api Unit := do
  Attempt.log (.debug ("checking status of stream: " ++ s.name))
  match ← s.setup.require "failed to describe stream" s.describe with
  | some _ => s.waitUntilActive
  | none =>
    if s.settings.autoCreate then s.create
    else throw s.missing

def invalidName : Failure :=
  { message := "invalid stream name", context := [("stream_name", s.name)] }

def invalidKey : Failure :=
  { message := "invalid partition key", context := [("partition_key", s.settings.partitionKey)] }

/-- Sees to it that the stream exists and can be written to. -/
def makeAvailable : Plan api (Except Failure Unit) :=
  if !Names.isStream s.name then return .error s.invalidName
  else if !s.hasValidKey then return .error s.invalidKey
  else s.ensure.run

def record (m : Message) : Plan api Record := do
  return { key := ← s.key, data := m.text }

/-- Positions of the records that were not stored. -/
def refused (replies : List RecordReply) : List Nat :=
  (replies.zipIdx.filter fun (r, _) => r.code.isSome).map (·.2)

def reportRefused (count : Nat) (replies : List RecordReply) : Plan api Unit := do
  match replies.find? (·.code.isSome) with
  | none => return ()
  | some first =>
    Plan.log (.debug (toString (refused replies).length ++ " of " ++ toString count
      ++ " records rejected, first failure: " ++ first.code.getD "" ++ ": "
      ++ first.message.getD ""))

def timedOut : Failure :=
  { message := "timed out sending batch"
    context := [("destination", s.name), ("timeout_ms", toString s.sending.timeout.millis)] }

def sendFailed (f : Fault) : Failure :=
  { message := "failed to send batch", context := [("destination", s.name)], causes := [.fault f] }

def miscounted (sent received : Nat) : Failure :=
  { message := "record count mismatch in response"
    context := [("sent", toString sent), ("received", toString received)] }

def put (records : List Record) : Plan api (Patience.Try Fault (List RecordReply)) := do
  return Patience.unlessTransient (← ask (.putRecords s.name records))

/-- The positions of the messages to send again. -/
def send (batch : List Message) : Plan api (Except Failure (List Nat)) := do
  if batch.isEmpty then return .ok []
  let records ← batch.mapM s.record
  match ← s.sending.invoke (s.put records) with
  | .ok none => return .error s.timedOut
  | .error f => return .error (s.sendFailed f)
  | .ok (some replies) =>
    if replies.length = batch.length then
      reportRefused batch.length replies
      return .ok (refused replies)
    else return .error (miscounted batch.length replies.length)

end Stream

def destination (s : Stream) : Destination api where
  name _ := s.name
  maxMessageSize := s.maxMessageSize
  effectiveSize m := .ok (m.size + s.keySize)
  withinLimits bytes count := .ok (bytes ≤ maxBatchBytes && count ≤ maxBatchCount)
  makeAvailable := s.makeAvailable
  send := s.send
  shutdown := ask .close

end LogRelay.Kinesis
