import LogRelay.Appender.Rotation
import LogRelay.Backlog
import LogRelay.Template

/-!
# Settings of a writer

Where the messages go and how they are queued, batched and retried. Names of groups, streams and
topics are templates; a writer is created from settings whose names have been resolved. Times are
in milliseconds.
-/

namespace LogRelay

/-- A log stream of CloudWatch Logs. -/
structure CloudWatchSettings where
  logGroup : String
  logStream : String := "\x7bstartupTimestamp\x7d"
  retentionDays : Option Nat := none
  dedicated : Bool := true
  rotation : RotationMode := .none
  rotationInterval : Nat := 0
  sequence : UInt64 := 0
deriving Repr

/-- A Kinesis data stream. -/
structure KinesisSettings where
  stream : String
  partitionKey : String := "\x7bstartupTimestamp\x7d"
  autoCreate : Bool := false
  shards : Nat := 1
  retentionHours : Option Nat := none
deriving Repr

/-- An SNS topic, found by its ARN when there is one and by its name otherwise. -/
structure SnsSettings where
  topicName : Option String := none
  topicArn : Option String := none
  subject : Option String := none
  autoCreate : Bool := false
deriving Repr

inductive Target
  | cloudWatch (s : CloudWatchSettings)
  | kinesis (s : KinesisSettings)
  | sns (s : SnsSettings)
deriving Repr

structure Settings where
  target : Target
  batchDelay : Nat := 2000
  discardThreshold : Nat := 10000
  discardAction : DiscardAction := .oldest
  synchronous : Bool := false
  truncateOversize : Bool := true
  initializationTimeout : Nat := 60000
  useShutdownHook : Bool := true
  shutdownTimeout : Nat := 5000
  retryInitialDelay : Nat := 100
  retryTimeout : Nat := 10000
deriving Repr

namespace KinesisSettings

/-- The partition key that asks for a key of its own for every record. -/
def randomKey : String := "\x7brandom\x7d"

def hasRandomKey (s : KinesisSettings) : Bool := s.partitionKey == randomKey

end KinesisSettings

namespace Target

/-- Resolves every name. The request for random partition keys is no template. -/
def resolve (v : Vocabulary) : Target → Target
  | cloudWatch s => cloudWatch { s with
      logGroup := Template.expand v s.logGroup
      logStream := Template.expand v s.logStream }
  | kinesis s => kinesis { s with
      stream := Template.expand v s.stream
      partitionKey := if s.hasRandomKey then s.partitionKey else Template.expand v s.partitionKey }
  | sns s => sns { s with
      topicName := s.topicName.map (Template.expand v)
      topicArn := s.topicArn.map (Template.expand v)
      subject := s.subject.map (Template.expand v) }

/-- Only log streams rotate. -/
def rotation : Target → RotationMode × Nat
  | cloudWatch s => (s.rotation, s.rotationInterval)
  | _ => (.none, 0)

def initialSequence : Target → UInt64
  | cloudWatch s => s.sequence
  | _ => 0

end Target

namespace Settings

def resolve (v : Vocabulary) (s : Settings) : Settings := { s with target := s.target.resolve v }

end Settings

end LogRelay
