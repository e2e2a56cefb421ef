import LogRelay.Text.Digits

/-!
# JSON strings

A text as a JSON string. Only the quote, the backslash and the controls below the space are
escaped, with the short form where JSON has one.
-/

namespace LogRelay.Text

def jsonEscaped (c : Char) : String :=
  if c == '"' then "\\\""
  else if c == '\\' then "\\\\"
  else if c == '\x08' then "\\b"
  else if c == '\t' then "\\t"
  else if c == '\n' then "\\n"
  else if c == '\x0c' then "\\f"
  else if c == '\r' then "\\r"
  else if c.toNat < 0x20 then "\\u" ++ hex 4 c.toNat
  else c.toString

def jsonString (s : String) : String := "\"" ++ String.join (s.toList.map jsonEscaped) ++ "\""

end LogRelay.Text
