import LogRelay.Time.Instant

/-!
# Reading JSON

A reader takes characters off the front of a text. It fails because the text ends too soon, because
it is no JSON, or because the value is not one that is asked for; only the last needs words.
-/

namespace LogRelay.Json

inductive Flaw
  | ended
  | malformed
  | unfit (message : String)
deriving DecidableEq, Repr

abbrev Reader := StateT (List Char) (Except Flaw)

namespace Reader

/-- Lets a function on the text do the reading. -/
def apply {α : Type} (f : List Char → Except Flaw (α × List Char)) : Reader α := f

def isBlank (c : Char) : Bool := c == ' ' || c == '\n' || c == '\t' || c == '\r'

/-- The next character that is not blank; it is not taken. -/
def ahead : Reader (Option Char) := do
  modify (·.dropWhile isBlank)
  return (← get).head?

def drop : Reader Unit := modify (·.drop 1)

/-- The rest of a word whose first letter has been seen. -/
def literalRest : List Char → List Char → Except Flaw (List Char)
  | [], cs => .ok cs
  | _ :: _, [] => .error .ended
  | e :: expected, c :: cs => if c == e then literalRest expected cs else .error .malformed

/-- Takes the letters of a word. -/
def literal (word : String) : Reader Unit :=
  apply fun cs => (literalRest word.toList cs).map ((), ·)

/-- Takes the character `c` after blanks. -/
def mark (c : Char) : Reader Unit := do
  match ← ahead with
  | none => throw .ended
  | some d => if d == c then drop else throw .malformed

end Reader

/-! ## Strings -/

def hexDigit? (c : Char) : Option Nat :=
  if '0' ≤ c && c ≤ '9' then some (c.toNat - '0'.toNat)
  else if 'a' ≤ c && c ≤ 'f' then some (c.toNat - 'a'.toNat + 10)
  else if 'A' ≤ c && c ≤ 'F' then some (c.toNat - 'A'.toNat + 10)
  else none

/-- The value of four hexadecimal digits, for which at least four bytes have to be there. -/
def hexWord (cs : List Char) : Except Flaw Nat :=
  if (String.ofList (cs.take 4)).utf8ByteSize < 4 then .error .ended
  else match (cs.take 4).mapM hexDigit? with
    | some [a, b, c, d] => .ok (((a * 16 + b) * 16 + c) * 16 + d)
    | _ => .error .malformed

/-- What the letter after a backslash stands for. -/
def simpleEscape? (c : Char) : Option Char :=
  if c == '"' || c == '\\' || c == '/' then some c
  else if c == 'b' then some '\x08'
  else if c == 'f' then some '\x0c'
  else if c == 'n' then some '\n'
  else if c == 'r' then some '\r'
  else if c == 't' then some '\t'
  else none

/-- The second half of a surrogate pair, with its backslash. -/
def lowSurrogate (cs : List Char) : Except Flaw Nat :=
  match cs with
  | [] => .error .ended
  | '\\' :: [] => .error .ended
  | '\\' :: 'u' :: rest => do
    let n ← hexWord rest
    if 0xdc00 ≤ n && n ≤ 0xdfff then return n else throw .malformed
  | _ => .error .malformed

/-- Reads the rest of a string after its opening quote, at most `n` characters of it; `read` holds,
in reverse, what has been read. Where the string is only passed over (`strict` is false), halves of
surrogate pairs may stand alone. -/
def stringRest (strict : Bool) : Nat → List Char → List Char → Except Flaw (String × List Char)
  | 0, _, _ => .error .ended
  | n + 1, read, cs =>
    match cs with
    | [] => .error .ended
    | '"' :: rest => .ok (String.ofList read.reverse, rest)
    | '\\' :: 'u' :: rest => do
      let high ← hexWord rest
      let rest := rest.drop 4
      if !strict || high < 0xd800 || 0xdfff < high then
        stringRest strict n (Char.ofNat high :: read) rest
      else if 0xdc00 ≤ high then throw .malformed
      else
        let low ← lowSurrogate rest
        let c := Char.ofNat (0x10000 + (high - 0xd800) * 0x400 + (low - 0xdc00))
        stringRest strict n (c :: read) (rest.drop 6)
    | ['\\'] => .error .ended
    | '\\' :: c :: rest =>
      match simpleEscape? c with
      | some c => stringRest strict n (c :: read) rest
      | none => .error .malformed
    | c :: rest =>
      if c.toNat < 0x20 then .error .malformed else stringRest strict n (c :: read) rest

/-- Reads a string, of which the opening quote comes next. -/
def readString : Reader String := Reader.apply fun cs =>
  stringRest true (cs.length + 1) [] (cs.drop 1)

/-- Passes over a string, of which the opening quote comes next. -/
def skipString : Reader Unit := Reader.apply fun cs =>
  (stringRest false (cs.length + 1) [] (cs.drop 1)).map fun (_, rest) => ((), rest)

end LogRelay.Json
