import Std.Data.TreeMap
import ZCode.Survey

set_option autoImplicit false

namespace ZCode

open ZCode.Text

structure Dump where
  version : UInt8
  entry : UInt32
  blocks : Std.TreeMap String String

namespace Dump

def addressKey (addr : UInt32) : String :=
  "0x" ++ hex addr.toNat

def ofReport (version : UInt8) (entry : UInt32) (r : Report) : Dump :=
  { version, entry
    blocks := r.fragments.foldl (fun m f => m.insert (addressKey f.addr) f.code) ∅ }

def memberLines (members : List (String × String)) : String :=
  ",\n".intercalate (members.map fun (key, code) => "    " ++ Json.quoted key ++ ": " ++ Json.quoted code)

def text (d : Dump) : String :=
  let blocks := if d.blocks.isEmpty then "\x7b\x7d"
    else "\x7b\n" ++ memberLines d.blocks.toList ++ "\n  \x7d"
  s!"\x7b\n  \"version\": {d.version},\n  \"entry\": " ++ Json.quoted (addressKey d.entry)
    ++ ",\n  \"blocks\": " ++ blocks ++ "\n\x7d"

end Dump

end ZCode
