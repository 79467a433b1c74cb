import ZCode.Text.Digits

set_option autoImplicit false

namespace ZCode.Json

open ZCode.Text

def unicodeEscape (c : Char) : String :=
  "\\u" ++ padLeft 4 '0' (hex c.toNat)

def escapeChar (c : Char) : String :=
  if c == '"' then "\\\""
  else if c == '\\' then "\\\\"
  else if c == '\n' then "\\n"
  else if c == '\r' then "\\r"
  else if c == '\t' then "\\t"
  else if c == '\x08' then "\\b"
  else if c == '\x0c' then "\\f"
  else if c < ' ' || c == '<' || c == '>' || c == '&' || c == '\u2028' || c == '\u2029' then
    unicodeEscape c
  else String.singleton c

def quoted (s : String) : String :=
  "\"" ++ s.toList.foldl (fun out c => out ++ escapeChar c) "" ++ "\""

end ZCode.Json
