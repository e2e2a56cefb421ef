import LogRelay.Decimal.Shortest
import LogRelay.Json.Reader

/-!
# JSON numbers

Whole numbers of a word are exact. Everything else is a double: the digits are taken in as long as
they fit in a word, and the double nearest to them is multiplied or divided by the power of ten.
-/

namespace LogRelay.Json

inductive Number
  | natural (n : Nat)
  /-- The number `-n`, with `n` positive. -/
  | negative (n : Nat)
  | float (x : Float)

namespace Number

/-- The digits of a shortest decimal with a point after `places` of them. -/
def pointed (digits : List Char) (places : Nat) : String :=
  let padded := digits ++ List.replicate (places - digits.length) '0'
  let rest := padded.drop places
  String.ofList (padded.take places) ++ "." ++ (if rest.isEmpty then "0" else String.ofList rest)

/-- The digits with a point after the first, if there are more, and the exponent with its sign. -/
def scientific (digits : List Char) (exponent : Int) : String :=
  let rest := digits.drop 1
  String.ofList (digits.take 1) ++ (if rest.isEmpty then "" else "." ++ String.ofList rest)
    ++ "e" ++ (if exponent < 0 then "-" else "+") ++ toString exponent.natAbs

/-- A double in the fewest digits, positional from a hundred thousandth up to sixteen digits before
the point. -/
def floatText (x : Float) : String :=
  let sign := if Decimal.isNegative x then "-" else ""
  let (m, q) := Decimal.parts x
  if m = 0 then sign ++ "0.0"
  else
    let s := Decimal.shortest m q
    let digits := (toString s.digits).toList
    let first := s.exponent + digits.length - 1
    sign ++
      (if 0 ≤ first && first ≤ 15 then pointed digits (first.toNat + 1)
      else if -5 ≤ first && first < 0 then
        "0." ++ String.ofList (List.replicate (-first - 1).toNat '0' ++ digits)
      else scientific digits first)

/-- `x` times a power of ten, unless that is too large. Powers too small for a double are divided
by in steps, which end when nothing is left of the number. -/
def scaled : Nat → Float → Int → Option Float
  | 0, x, _ => some x
  | n + 1, x, e =>
    if 308 < e then if x == 0 then some x else none
    else if 0 ≤ e then
      let y := x * Float.ofScientific 1 false e.toNat
      if y.isInf then none else some y
    else if -308 ≤ e then some (x / Float.ofScientific 1 false (-e).toNat)
    else if x == 0 then some x
    else scaled n (x / Float.ofScientific 1 false 308) (e + 308)

/-- The double of a significand and a power of ten. -/
def ofParts (minus : Bool) (significand : Nat) (e : Int) : Except Flaw Number :=
  match scaled 5 significand.toUInt64.toFloat e with
  | some x => .ok (.float (if minus then -x else x))
  | none => .error .malformed

/-- Takes digits while the number made of them stays below the limit; returns how many. -/
def takeDigits (limit : Nat) : Nat → Nat → List Char → Nat × Nat × List Char
  | n, count, c :: rest =>
    let n' := n * 10 + (c.toNat - '0'.toNat)
    if c.isDigit && n' ≤ limit then takeDigits limit n' (count + 1) rest else (n, count, c :: rest)
  | n, count, [] => (n, count, [])

def startsWithDigit (cs : List Char) : Bool := cs.head?.any Char.isDigit

def maxExponent : Nat := UInt32.size / 2 - 1

/-- Reads what follows the letter of an exponent. An exponent out of all bounds leaves nothing of
the number, or too much. -/
def readExponent (minus : Bool) (significand : Nat) (e : Int) (cs : List Char) :
    Except Flaw (Number × List Char) :=
  let (down, cs) := match cs with
    | '+' :: rest => (false, rest)
    | '-' :: rest => (true, rest)
    | _ => (false, cs)
  if cs.isEmpty then .error .ended
  else if !startsWithDigit cs then .error .malformed
  else
    let (n, _, rest) := takeDigits maxExponent 0 0 cs
    if startsWithDigit rest then
      if significand ≠ 0 && !down then .error .malformed
      else .ok (.float (if minus then -0.0 else 0.0), rest.dropWhile Char.isDigit)
    else (ofParts minus significand (if down then e - n else e + n)).map (·, rest)

/-- Reads an exponent, if there is one. -/
def readScale (minus : Bool) (significand : Nat) (e : Int) (cs : List Char) :
    Except Flaw (Number × List Char) :=
  match cs with
  | 'e' :: rest | 'E' :: rest => readExponent minus significand e rest
  | _ => (ofParts minus significand e).map (·, cs)

/-- Reads what follows the point. -/
def readFraction (minus : Bool) (significand : Nat) (e : Int) (cs : List Char) :
    Except Flaw (Number × List Char) :=
  let (n, places, rest) := takeDigits maxWord significand 0 cs
  if startsWithDigit rest then
    readScale minus n (e - places) (rest.dropWhile Char.isDigit)
  else if places = 0 then .error (if rest.isEmpty then .ended else .malformed)
  else readScale minus n (e - places) rest

def ofWord (minus : Bool) (n : Nat) : Number :=
  if !minus then .natural n
  else if n = 0 || UInt64.size / 2 < n then .float (-n.toUInt64.toFloat)
  else .negative n

/-- Reads a number without its sign. -/
def read (minus : Bool) (cs : List Char) : Except Flaw (Number × List Char) :=
  match cs with
  | [] => .error .ended
  | '0' :: rest => if startsWithDigit rest then .error .malformed else finish 0 0 rest
  | _ =>
    if !startsWithDigit cs then .error .malformed
    else
      let (n, _, rest) := takeDigits maxWord 0 0 cs
      if startsWithDigit rest then
        let beyond := rest.takeWhile Char.isDigit
        finish n beyond.length (rest.dropWhile Char.isDigit)
      else finish n 0 rest
where
  /-- `beyond` digits did not fit any more. -/
  finish (n beyond : Nat) (rest : List Char) : Except Flaw (Number × List Char) :=
    match rest with
    | '.' :: rest => readFraction minus n beyond rest
    | 'e' :: _ | 'E' :: _ => readScale minus n beyond rest
    | _ => if beyond = 0 then .ok (ofWord minus n, rest) else readScale minus n beyond rest

/-- Passes over a number without its sign. -/
def skip (cs : List Char) : Except Flaw (List Char) :=
  match cs with
  | '0' :: rest => if startsWithDigit rest then .error .malformed else fraction rest
  | _ => if startsWithDigit cs then fraction (cs.dropWhile Char.isDigit) else .error .malformed
where
  fraction (cs : List Char) : Except Flaw (List Char) :=
    match cs with
    | '.' :: rest =>
      if startsWithDigit rest then exponent (rest.dropWhile Char.isDigit) else .error .malformed
    | _ => exponent cs
  exponent (cs : List Char) : Except Flaw (List Char) :=
    match cs with
    | 'e' :: rest | 'E' :: rest =>
      let rest := match rest with
        | '+' :: rest | '-' :: rest => rest
        | _ => rest
      if startsWithDigit rest then .ok (rest.dropWhile Char.isDigit) else .error .malformed
    | _ => .ok cs

end Number

end LogRelay.Json
