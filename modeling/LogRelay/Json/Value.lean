import LogRelay.Json.Number
import LogRelay.Text.Quoted

/-!
# JSON values

Values read from a text, as they come: an object may have a key twice. What is not asked for is
passed over with fewer questions, and to any depth.
-/

namespace LogRelay.Json

inductive Value where
  | null
  | bool (b : Bool)
  | number (n : Number)
  | text (s : String)
  | list (items : List Value)
  | object (members : List (String × Value))

namespace Value

/-- How a value is called where another one is asked for. -/
def kind : Value → String
  | null => "null"
  | bool b => "boolean `" ++ toString b ++ "`"
  | number (.natural n) => "integer `" ++ toString n ++ "`"
  | number (.negative n) => "integer `-" ++ toString n ++ "`"
  | number (.float x) => "floating point `" ++ Number.floatText x ++ "`"
  | text s => "string " ++ Text.quoted .plain s
  | list _ => "sequence"
  | object _ => "map"

end Value

namespace Flaw

/-- A value of the wrong kind. -/
def wrongKind (v : Value) (expected : String) : Flaw :=
  .unfit ("invalid type: " ++ v.kind ++ ", expected " ++ expected)

/-- A value of the right kind that is not one of those possible. -/
def wrongValue (v : Value) (expected : String) : Flaw :=
  .unfit ("invalid value: " ++ v.kind ++ ", expected " ++ expected)

end Flaw

/-! ## Reading -/

/-- Reads a value that has no brackets, or tells by its bracket what the value is. -/
def glimpse : Reader Value := do
  match ← Reader.ahead with
  | none => throw .ended
  | some c =>
    if c == 'n' then Reader.literal "null"; return .null
    else if c == 't' then Reader.literal "true"; return .bool true
    else if c == 'f' then Reader.literal "false"; return .bool false
    else if c == '"' then return .text (← readString)
    else if c == '-' then
      Reader.drop
      return .number (← Reader.apply (Number.read true))
    else if c.isDigit then return .number (← Reader.apply (Number.read false))
    else if c == '[' then return .list []
    else if c == '\x7b' then return .object []
    else throw .malformed

/-- The end of a list or the start of an item; `first` until there has been one. -/
def hasItem (first : Bool) : Reader Bool := do
  match ← Reader.ahead with
  | none => throw .ended
  | some c =>
    if c == ']' then return false
    else if first then return true
    else if c == ',' then
      Reader.drop
      match ← Reader.ahead with
      | none => throw .ended
      | some c => if c == ']' then throw .malformed else return true
    else throw .malformed

/-- The end of an object or the start of a key; `first` until there has been one. -/
def hasKey (first : Bool) : Reader Bool := do
  match ← Reader.ahead with
  | none => throw .ended
  | some c =>
    if c == '\x7d' then return false
    else if first then key c
    else if c == ',' then
      Reader.drop
      match ← Reader.ahead with
      | none => throw .ended
      | some c => key c
    else throw .malformed
where
  key (c : Char) : Reader Bool := if c == '"' then return true else throw .malformed

/-- Opens brackets, which go to a limited depth. -/
def openBracket (depth : Nat) : Reader Unit :=
  if depth ≤ 1 then throw .malformed else Reader.drop

mutual

/-- Reads a value with brackets less than `depth` deep, in at most `n` steps one after another. -/
def valueWithin : Nat → Nat → Reader Value
  | 0, _ => throw .ended
  | n + 1, depth => do
    match ← glimpse with
    | .list _ =>
      openBracket depth
      return .list (← itemsWithin n (depth - 1) true)
    | .object _ =>
      openBracket depth
      return .object (← membersWithin n (depth - 1) true)
    | v => return v

/-- Reads the items of a list up to its bracket. -/
def itemsWithin : Nat → Nat → Bool → Reader (List Value)
  | 0, _, _ => throw .ended
  | n + 1, depth, first => do
    if ← hasItem first then
      let v ← valueWithin n depth
      return v :: (← itemsWithin n depth false)
    else
      Reader.drop
      return []

/-- Reads the members of an object up to its brace. -/
def membersWithin : Nat → Nat → Bool → Reader (List (String × Value))
  | 0, _, _ => throw .ended
  | n + 1, depth, first => do
    if ← hasKey first then
      let key ← readString
      Reader.mark ':'
      let v ← valueWithin n depth
      return (key, v) :: (← membersWithin n depth false)
    else
      Reader.drop
      return []

end

/-- More steps than the rest of the text takes. -/
def steps : Reader Nat := return 2 * (← get).length + 2

def value (depth : Nat) : Reader Value := do valueWithin (← steps) depth

/-- Reads the items of a list after its first bracket, or after its first item. -/
def items (depth : Nat) (first : Bool) : Reader (List Value) := do
  itemsWithin (← steps) depth first

/-! ## Passing over -/

/-- Passes over a value without brackets. -/
def skipPlain (c : Char) : Reader Unit := do
  if c == 'n' then Reader.literal "null"
  else if c == 't' then Reader.literal "true"
  else if c == 'f' then Reader.literal "false"
  else if c == '"' then skipString
  else if c == '-' then
    Reader.drop
    Reader.apply fun cs => (Number.skip cs).map ((), ·)
  else if c.isDigit then Reader.apply fun cs => (Number.skip cs).map ((), ·)
  else throw .malformed

/-- Where passing over has come to. -/
inductive Place
  /-- A value comes next. -/
  | value
  /-- A bracket has been opened. -/
  | opened
  /-- A value has ended. -/
  | closed

/-- Passes over what starts a value at the character `c`. -/
def enter (c : Char) (closers : List Char) : Reader (Place × List Char) := do
  if c == '[' then
    Reader.drop
    return (.opened, ']' :: closers)
  else if c == '\x7b' then
    Reader.drop
    return (.opened, '\x7d' :: closers)
  else
    skipPlain c
    return (.closed, closers)

/-- Passes over what comes before a value at the character `c`: the key, within braces. -/
def approach (c closer : Char) : Reader Place := do
  if closer == '\x7d' then
    if c != '"' then throw .malformed
    skipString
    Reader.mark ':'
  return .value

/-- Takes one step in passing over a value, at the character `c`. The open brackets are known by the
characters that close them, the innermost first. -/
def skipStep (c : Char) : Place → List Char → Reader (Place × List Char)
  | .value, closers => enter c closers
  | .opened, closer :: outer => do
    if c == closer then
      Reader.drop
      return (.closed, outer)
    else return (← approach c closer, closer :: outer)
  | .closed, closer :: outer => do
    if c == closer then
      Reader.drop
      return (.closed, outer)
    else if c == ',' then
      Reader.drop
      match ← Reader.ahead with
      | none => throw .ended
      | some c => return (← approach c closer, closer :: outer)
    else throw .malformed
  | _, [] => throw .malformed

/-- Passes over the rest of a value in at most `n` steps. -/
def skipFrom : Nat → Place → List Char → Reader Unit
  | 0, _, _ => throw .ended
  | _ + 1, .closed, [] => return ()
  | n + 1, place, closers => do
    match ← Reader.ahead with
    | none => throw .ended
    | some c =>
      let (place, closers) ← skipStep c place closers
      skipFrom n place closers

/-- Passes over a value. -/
def skip : Reader Unit := do skipFrom (← steps) .value []

/-- Nothing but blanks is left. -/
def finish : Reader Unit := do if (← Reader.ahead).isSome then throw .malformed

end LogRelay.Json
