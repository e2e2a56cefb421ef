import LogRelay.Failure
import LogRelay.Text.Quoted

/-!
# The make-up of a failure

A failure with all its parts spelled out, for those who look for what is wrong with it. The outline
is a tree of named fields, laid out with one line for each.
-/

namespace LogRelay

inductive Outline where
  | leaf (text : String)
  | record (name : String) (fields : List (String × Outline))
  | pair (first second : String)
  | list (items : List Outline)

namespace Outline

/-- Lines between brackets, each with a comma at its end. -/
def bracketed (opening closing : String) (margin : String) (lines : List String) : String :=
  opening ++ "\n" ++ String.join (lines.map fun l => margin ++ "    " ++ l ++ ",\n")
    ++ margin ++ closing

mutual

/-- Lays the outline out; `margin` stands before every line but the first. -/
def layout (margin : String) : Outline → String
  | leaf text => text
  | record name fields =>
    bracketed (name ++ " \x7b") "\x7d" margin (layoutFields (margin ++ "    ") fields)
  | pair first second => bracketed "(" ")" margin [first, second]
  | list [] => "[]"
  | list (x :: xs) => bracketed "[" "]" margin (layoutAll (margin ++ "    ") (x :: xs))

def layoutFields (margin : String) : List (String × Outline) → List String
  | [] => []
  | (key, x) :: rest => (key ++ ": " ++ layout margin x) :: layoutFields margin rest

def layoutAll (margin : String) : List Outline → List String
  | [] => []
  | x :: rest => layout margin x :: layoutAll margin rest

end

end Outline

namespace Fault

def fields (f : Fault) : List (String × String) :=
  [("kind", f.kind.name), ("message", Text.quoted .plain f.message)]

/-- The fault on one line, with its parts named. -/
def inspect (f : Fault) : String :=
  "ServiceError \x7b " ++ ", ".intercalate (f.fields.map fun (k, v) => k ++ ": " ++ v) ++ " \x7d"

def outline (f : Fault) : Outline :=
  .record "ServiceError" (f.fields.map fun (k, v) => (k, .leaf v))

end Fault

/-- A key or value of a failure's context, or its message. -/
def Failure.quotedText (s : String) : String := Text.quoted .plain s

def Failure.outlineOf (message : String) (context : List (String × String))
    (causes : List Outline) : Outline :=
  .record "Error"
    [("message", .leaf (quotedText message)),
      ("context", .list (context.map fun (k, v) => .pair (quotedText k) (quotedText v))),
      ("sources", .list causes)]

mutual

def Cause.outline : Cause → Outline
  | .fault f => f.outline
  | .text s => .leaf (Failure.quotedText s)
  | .failure message context causes => Failure.outlineOf message context (Cause.outlines causes)
  | .under outer inner =>
    .record "Error"
      [("context", .leaf (Text.quoted .message outer)), ("source", inner.outline)]

def Cause.outlines : List Cause → List Outline
  | [] => []
  | c :: cs => c.outline :: Cause.outlines cs

end

/-- The failure on many lines, with its parts named. -/
def Failure.inspect (e : Failure) : String := e.toCause.outline.layout ""

end LogRelay
