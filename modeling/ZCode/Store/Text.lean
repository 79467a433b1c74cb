import ZCode.Json.Reader
import ZCode.Store
import ZCode.Text.Integer

set_option autoImplicit false

namespace ZCode

open ZCode.Json

namespace Store

private def entryText (key : List UInt8) (f : Fragment) : String :=
  "\x7b\"key\":[" ++ ",".intercalate (key.map toString) ++ "],\"fragment\":" ++ f.storedText ++ "\x7d"

def text (s : Store) : String :=
  "[" ++ ",\n".intercalate (s.entries.toList.map fun (key, f) => entryText key f) ++ "]\n"

private def integerOf? : Value → Option Int
  | .number n => Text.Integer.parse? n
  | _ => none

private def naturalOf? : Value → Option Nat
  | .number n => n.toNat?
  | _ => none

private def naturals? : Value → Option (List Nat)
  | .array xs => xs.mapM naturalOf?
  | _ => none

private def member? (v : Value) (name : String) : Option Value :=
  v.members?.bind (·.lookup name)

private def fragment? (v : Value) : Option Fragment := do
  let addr ← (member? v "addr").bind naturalOf?
  let code ← match member? v "code" with
    | some (.string s) => some s
    | _ => none
  let next ← (member? v "next").bind naturalOf?
  let instructions ← (member? v "instructions").bind integerOf?
  let calls ← match member? v "calls" with
    | some list => naturals? list
    | none => some []
  let pauses := match member? v "pauses_vm" with
    | some (.boolean b) => b
    | _ => false
  return { addr := addr.toUInt32, code, next := next.toUInt32, instructions
           calls := calls.map Nat.toUInt32, pauses }

private def entry? (v : Value) : Option (List UInt8 × Fragment) := do
  let key ← (member? v "key").bind naturals?
  let f ← (member? v "fragment").bind fragment?
  return (key.map Nat.toUInt8, f)

def ofText (text : String) : Store :=
  match Json.parse? (fun _ => true) text.toList with
  | some (.array entries) => { entries := Std.TreeMap.ofList (entries.filterMap entry?) }
  | _ => {}

end Store

end ZCode
