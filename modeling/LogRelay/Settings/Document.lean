import LogRelay.Json.Value
import LogRelay.Settings

/-!
# Settings in JSON

The settings of a writer as a JSON document. A record is an object with its fields by name, or a
list of them in order; fields may be left out where they have a default, and unknown ones are
passed over. The target is told from its `type`, wherever in the object that stands, so its other
fields are kept until it is known; everything else is looked at in the order of the text.
-/

namespace LogRelay.Json

/-! ## Values of fields -/

/-- A whole number up to `limit`. -/
def Value.natural (expected : String) (limit : Nat) (v : Value) : Except Flaw Nat :=
  match v with
  | .number (.natural n) => if n ≤ limit then .ok n else .error (.wrongValue v expected)
  | .number (.negative _) => .error (.wrongValue v expected)
  | _ => .error (.wrongKind v expected)

def Value.word : Value → Except Flaw Nat := Value.natural "u64" maxWord

def Value.size : Value → Except Flaw Nat := Value.natural "usize" maxWord

def Value.halfWord : Value → Except Flaw Nat := Value.natural "u32" (UInt32.size - 1)

def Value.flag : Value → Except Flaw Bool
  | .bool b => .ok b
  | v => .error (.wrongKind v "a boolean")

def Value.string : Value → Except Flaw String
  | .text s => .ok s
  | v => .error (.wrongKind v "a string")

/-- A value that may be missing. -/
def Value.optional {α : Type} (f : Value → Except Flaw α) : Value → Except Flaw (Option α)
  | .null => .ok none
  | v => (f v).map some

/-- The variant of a name. -/
def variant {α : Type} (find : String → Option α) (names : List String) (name : String) :
    Except Flaw α :=
  match find name with
  | some a => .ok a
  | none => .error (.unfit ("unknown variant `" ++ name ++ "`, expected one of "
      ++ ", ".intercalate (names.map fun n => "`" ++ n ++ "`")))

def discardAction : String → Except Flaw DiscardAction :=
  variant DiscardAction.ofName? (DiscardAction.all.map DiscardAction.name)

def rotationMode : String → Except Flaw RotationMode :=
  variant RotationMode.ofName? (RotationMode.all.map RotationMode.name)

/-- A name, or an object with the name as its only key and nothing in it. -/
def Value.rotationMode : Value → Except Flaw RotationMode
  | .text s => Json.rotationMode s
  | .object [(key, v)] => do
    let mode ← Json.rotationMode key
    match v with
    | .null | .object [] => return mode
    | v => throw (.wrongKind v "unit")
  | .object ms => .error (.wrongValue (.object ms) "map with a single key")
  | v => .error (.wrongKind v "string or map")

/-! ## Records -/

/-- A field of a record, and how its value is put into the record. -/
structure Field (ι ρ : Type) where
  name : String
  required : Bool := false
  read : ι → ρ → Except Flaw ρ

def Field.of {ι ρ α : Type} (name : String) (read : ι → Except Flaw α) (set : α → ρ → ρ)
    (required : Bool) : Field ι ρ :=
  { name, required, read := fun v r => (read v).map (set · r) }

def duplicate (name : String) : Flaw := .unfit ("duplicate field `" ++ name ++ "`")

def missing (name : String) : Flaw := .unfit ("missing field `" ++ name ++ "`")

/-- A list ended before a field without a default. -/
def tooShort (length : Nat) (record : String) (size : Nat) : Flaw :=
  .unfit ("invalid length " ++ toString length ++ ", expected struct " ++ record ++ " with "
    ++ toString size ++ " elements")

/-- Every required field is among those read. -/
def complete {ι ρ : Type} (fields : List (Field ι ρ)) (read : List String) : Except Flaw Unit :=
  match fields.find? fun f => f.required && !read.contains f.name with
  | some f => .error (missing f.name)
  | none => .ok ()

/-- Takes in members; `read` are the names of the fields read so far. -/
def fromMembers {ρ : Type} (fields : List (Field Value ρ)) :
    List String → ρ → List (String × Value) → Except Flaw ρ
  | read, r, [] => do
    complete fields read
    return r
  | read, r, (key, v) :: rest =>
    match fields.find? (·.name == key) with
    | none => fromMembers fields read r rest
    | some f => do
      if read.contains key then throw (duplicate key)
      fromMembers fields (key :: read) (← f.read v r) rest

/-- Takes in items for fields in their order; `count` items have been taken in. -/
def fromItems {ρ : Type} (record : String) (size : Nat) :
    Nat → ρ → List (Field Value ρ) → List Value → Except Flaw ρ
  | _, r, [], [] => .ok r
  | count, _, [], extra =>
    .error (.unfit ("invalid length " ++ toString (count + extra.length) ++ ", expected "
      ++ toString count ++ " elements in sequence"))
  | count, r, fields, [] =>
    if fields.any (·.required) then .error (tooShort count record size) else .ok r
  | count, r, f :: fields, v :: rest => do
    fromItems record size (count + 1) (← f.read v r) fields rest

/-- A record in either form. -/
def Value.record {ρ : Type} (name : String) (fields : List (Field Value ρ)) (start : ρ) :
    Value → Except Flaw ρ
  | .object members => fromMembers fields [] start members
  | .list items => fromItems name fields.length 0 start fields items
  | v => .error (.wrongKind v ("struct " ++ name))

/-! ## Targets -/

def cloudWatchFields : List (Field Value CloudWatchSettings) :=
  [.of "log_group" Value.string (fun x r => { r with logGroup := x }) true,
    .of "log_stream" Value.string (fun x r => { r with logStream := x }) false,
    .of "retention_period" (Value.optional Value.halfWord)
      (fun x r => { r with retentionDays := x }) false,
    .of "dedicated_writer" Value.flag (fun x r => { r with dedicated := x }) false,
    .of "rotation_mode" Value.rotationMode (fun x r => { r with rotation := x }) false,
    .of "rotation_interval" Value.word (fun x r => { r with rotationInterval := x }) false,
    .of "sequence" Value.word (fun x r => { r with sequence := x.toUInt64 }) false]

def kinesisFields : List (Field Value KinesisSettings) :=
  [.of "stream_name" Value.string (fun x r => { r with stream := x }) true,
    .of "partition_key" Value.string (fun x r => { r with partitionKey := x }) false,
    .of "auto_create" Value.flag (fun x r => { r with autoCreate := x }) false,
    .of "shard_count" Value.halfWord (fun x r => { r with shards := x }) false,
    .of "retention_period" (Value.optional Value.halfWord)
      (fun x r => { r with retentionHours := x }) false]

def snsFields : List (Field Value SnsSettings) :=
  [.of "topic_name" (Value.optional Value.string) (fun x r => { r with topicName := x }) false,
    .of "topic_arn" (Value.optional Value.string) (fun x r => { r with topicArn := x }) false,
    .of "subject" (Value.optional Value.string) (fun x r => { r with subject := x }) false,
    .of "auto_create" Value.flag (fun x r => { r with autoCreate := x }) false]

/-- The types of targets, with the records that belong to them. -/
def targetTypes : List (String × (Value → Except Flaw Target)) :=
  [("cloudwatch", fun v =>
      (v.record "CloudWatchConfig" cloudWatchFields { logGroup := "" }).map .cloudWatch),
    ("kinesis", fun v => (v.record "KinesisConfig" kinesisFields { stream := "" }).map .kinesis),
    ("sns", fun v => (v.record "SnsConfig" snsFields {}).map .sns)]

/-- A record whose type is known, and which is still to be made of its value. -/
abbrev Pending := Value → Except Flaw Target

/-- Reads a name that is one of several. -/
def identifier {α : Type} (f : String → Except Flaw α) : Reader α := do
  match ← glimpse with
  | .text s => f s
  | v => throw (.wrongKind v "variant identifier")

def targetType : Reader Pending :=
  identifier (variant (fun name => List.lookup name targetTypes) (targetTypes.map (·.1)))

/-- Reads the members of a target, of which one has the type. -/
def tagged (depth : Nat) : Nat → Bool → Option Pending → List (String × Value) →
    Reader (Pending × Value)
  | 0, _, _, _ => throw .ended
  | n + 1, first, type?, members => do
    if ← hasKey first then
      let key ← readString
      if key == "type" then
        if type?.isSome then throw (duplicate key)
        Reader.mark ':'
        tagged depth n false (some (← targetType)) members
      else
        Reader.mark ':'
        let v ← value depth
        tagged depth n false type? ((key, v) :: members)
    else
      Reader.drop
      match type? with
      | some pending => return (pending, .object members.reverse)
      | none => throw (missing "type")

/-- Reads a target in brackets less than `depth` deep. -/
def target (depth : Nat) : Reader Target := do
  match ← glimpse with
  | .object _ =>
    openBracket depth
    let (pending, v) ← tagged (depth - 1) (← steps) true none []
    pending v
  | .list _ =>
    openBracket depth
    if ← hasItem true then
      let pending ← targetType
      pending (.list (← items (depth - 1) false))
    else throw (missing "type")
  | v => throw (.wrongKind v "internally tagged enum DestinationConfig")

/-! ## Settings -/

/-- Reads a name, or an object with the name as its only key and nothing in it. -/
def action : Reader DiscardAction := do
  match ← Reader.ahead with
  | none => throw .ended
  | some c =>
    if c == '"' then discardAction (← readString)
    else if c == '\x7b' then
      Reader.drop
      let a ← identifier discardAction
      Reader.mark ':'
      match ← glimpse with
      | .null =>
        Reader.mark '\x7d'
        return a
      | v => throw (.wrongKind v "unit")
    else throw .malformed

/-- Settings of which the target may not have been read yet. -/
structure Unfinished where
  target : Option Target := none
  /-- The other settings, with any target. -/
  others : Settings := { target := .sns {} }

/-- A field of the settings with a value that is read from the text. -/
structure SettingsField where
  name : String
  read : Unfinished → Reader Unfinished

def SettingsField.of {α : Type} (name : String) (read : Value → Except Flaw α)
    (set : α → Settings → Settings) : SettingsField :=
  { name, read := fun u => do
      let v ← glimpse
      let a ← (read v : Except Flaw α)
      return { u with others := set a u.others } }

/-- How deep brackets may go within the settings. -/
def maxDepth : Nat := 127

def settingsFields : List SettingsField :=
  [{ name := "destination"
     read := fun u => do return { u with target := some (← target maxDepth) } },
    .of "batch_delay_ms" Value.word fun x s => { s with batchDelay := x },
    .of "discard_threshold" Value.size fun x s => { s with discardThreshold := x },
    { name := "discard_action"
      read := fun u => do
        let a ← action
        return { u with others := { u.others with discardAction := a } } },
    .of "synchronous" Value.flag fun x s => { s with synchronous := x },
    .of "truncate_oversize_messages" Value.flag fun x s => { s with truncateOversize := x },
    .of "initialization_timeout_ms" Value.word fun x s => { s with initializationTimeout := x },
    .of "use_shutdown_hook" Value.flag fun x s => { s with useShutdownHook := x },
    .of "shutdown_timeout_ms" Value.word fun x s => { s with shutdownTimeout := x },
    .of "retry_initial_delay_ms" Value.word fun x s => { s with retryInitialDelay := x },
    .of "retry_timeout_ms" Value.word fun x s => { s with retryTimeout := x }]

/-- Reads the members of the settings; `read` are the names of those read so far. -/
def settingsMembers : Nat → Bool → List String → Unfinished → Reader Unfinished
  | 0, _, _, _ => throw .ended
  | n + 1, first, read, u => do
    if ← hasKey first then
      let key ← readString
      match settingsFields.find? (·.name == key) with
      | none =>
        Reader.mark ':'
        skip
        settingsMembers n false read u
      | some f =>
        if read.contains key then throw (duplicate key)
        Reader.mark ':'
        settingsMembers n false (key :: read) (← f.read u)
    else return u

/-- Reads the items of the settings up to the last field or the end of the list. -/
def settingsItems : Bool → Unfinished → List SettingsField → Reader Unfinished
  | _, u, [] => return u
  | first, u, f :: fields => do
    if ← hasItem first then settingsItems false (← f.read u) fields else return u

/-- The settings, once they have a target. -/
def finished (flaw : Flaw) (u : Unfinished) : Except Flaw Settings :=
  match u.target with
  | some target => .ok { u.others with target }
  | none => .error flaw

def settings : Reader Settings := do
  match ← glimpse with
  | .object _ =>
    Reader.drop
    let s ← finished (missing "destination") (← settingsMembers (← steps) true [] {})
    Reader.mark '\x7d'
    return s
  | .list _ =>
    Reader.drop
    let s ← finished (tooShort 0 "WriterConfig" settingsFields.length)
      (← settingsItems true {} settingsFields)
    Reader.mark ']'
    return s
  | v => throw (.wrongKind v "struct WriterConfig")

end LogRelay.Json

namespace LogRelay.Settings

/-- Reads settings from a JSON document. -/
def read (document : String) : Except Json.Flaw Settings :=
  (do
    let s ← Json.settings
    Json.finish
    return s : Json.Reader Settings).run' document.toList

end LogRelay.Settings
