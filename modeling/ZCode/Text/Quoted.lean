import ZCode.Text.Digits
import ZCode.Text.Printable

set_option autoImplicit false

namespace ZCode.Text

def escapeChar (c : Char) : String :=
  if c == '"' then "\\\""
  else if c == '\\' then "\\\\"
  else if c == '\x07' then "\\a"
  else if c == '\x08' then "\\b"
  else if c == '\x0c' then "\\f"
  else if c == '\n' then "\\n"
  else if c == '\r' then "\\r"
  else if c == '\t' then "\\t"
  else if c == '\x0b' then "\\v"
  else if isPrintable c then String.singleton c
  else if c < '\x80' then "\\x" ++ padLeft 2 '0' (hex c.toNat)
  else if c.toNat < 0x10000 then "\\u" ++ padLeft 4 '0' (hex c.toNat)
  else "\\U" ++ padLeft 8 '0' (hex c.toNat)

def quoted (s : String) : String :=
  "\"" ++ s.toList.foldl (fun out c => out ++ escapeChar c) "" ++ "\""

end ZCode.Text
