import LogRelay.Text.CharRanges
import LogRelay.Text.Digits

/-!
# Quoted text

A text between double quotes, with escapes for everything that would not show as itself: quotes,
backslashes, unprintable characters, and marks that have nothing to attach to.
-/

namespace LogRelay.Text

/-- Which characters are escaped besides the unprintable ones and the double quote. -/
structure QuoteStyle where
  singleQuotes : Bool
  innerMarks : Bool

/-- Escapes every mark and leaves single quotes alone. -/
def QuoteStyle.plain : QuoteStyle := ⟨false, true⟩

/-- Escapes single quotes, and a mark only in first place. -/
def QuoteStyle.message : QuoteStyle := ⟨true, false⟩

def escaped (singleQuotes marks : Bool) (c : Char) : String :=
  if c == '\x00' then "\\0"
  else if c == '\t' then "\\t"
  else if c == '\r' then "\\r"
  else if c == '\n' then "\\n"
  else if c == '\\' || c == '"' || (singleQuotes && c == '\'') then "\\" ++ c.toString
  else if (marks && isMark c) || inRanges unprintable c then
    "\\u\x7b" ++ hex 1 c.toNat ++ "\x7d"
  else c.toString

def quoted (style : QuoteStyle) (s : String) : String :=
  match s.toList with
  | [] => "\"\""
  | c :: rest =>
    "\"" ++ escaped style.singleQuotes true c
      ++ String.join (rest.map (escaped style.singleQuotes style.innerMarks)) ++ "\""

end LogRelay.Text
