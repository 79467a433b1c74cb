import ZCode.Json.Reader
import ZCode.Text.Quoted

set_option autoImplicit false

namespace ZCode.Json

inductive Delta where
  | same (v : Value)
  | removed (v : Value)
  | added (v : Value)
  | changed (old new : Value)
  | inside (members : List (String × Delta))
  deriving Repr, Inhabited

namespace Delta

mutual

def of (sameNumber : String → String → Bool) : Value → Value → Delta
  | .object ms, .object ns => .inside (ofMembers sameNumber ms ns)
  | v, w => if v.same sameNumber w then .same v else .changed v w

def ofMembers (sameNumber : String → String → Bool) :
    List (String × Value) → List (String × Value) → List (String × Delta)
  | [], ns => ns.map fun (k, w) => (k, .added w)
  | (k, v) :: ms, ns =>
    (ns.takeWhile (·.1 < k)).map (fun (l, w) => (l, .added w)) ++
      match ns.dropWhile (·.1 < k) with
      | (l, w) :: rest =>
        if l == k then (k, of sameNumber v w) :: ofMembers sameNumber ms rest
        else (k, .removed v) :: ofMembers sameNumber ms ((l, w) :: rest)
      | [] => (k, .removed v) :: ofMembers sameNumber ms []

end

mutual

def isSame : Delta → Bool
  | same _ => true
  | removed _ | added _ | changed _ _ => false
  | inside ms => areSame ms

def areSame : List (String × Delta) → Bool
  | [] => true
  | (_, d) :: ms => isSame d && areSame ms

end

def isAdded : Delta → Bool
  | added _ => true
  | _ => false

end Delta

namespace Brief

def line (mark : String) (depth : Nat) (text : String) : String :=
  mark ++ String.join (List.replicate depth "  ") ++ text ++ "\n"

def comma (more : Bool) : String :=
  if more then "," else ""

def key (name : String) : String :=
  "\"" ++ name ++ "\": "

def scalar : Value → String
  | .null => "null"
  | .boolean b => toString b
  | .number n => ((double? n).map Text.Double.general).getD n
  | .string s => "\"" ++ s ++ "\""
  | .array _ | .object _ => ""

mutual

def whole (mark : String) (depth : Nat) (label : String) (more : Bool) : Value → List String
  | .object ms =>
    line mark depth (label ++ "\x7b") :: wholeMembers mark (depth + 1) ms
      ++ [line mark depth ("\x7d" ++ comma more)]
  | .array xs =>
    line mark depth (label ++ "[") :: wholeItems mark (depth + 1) 0 xs
      ++ [line mark depth ("]" ++ comma more)]
  | v => [line mark depth (label ++ scalar v ++ comma more)]

def wholeMembers (mark : String) (depth : Nat) : List (String × Value) → List String
  | [] => []
  | (k, v) :: ms => whole mark depth (key k) (!ms.isEmpty) v ++ wholeMembers mark depth ms

def wholeItems (mark : String) (depth index : Nat) : List Value → List String
  | [] => []
  | x :: xs =>
    whole mark depth s!"{index}: " (!xs.isEmpty) x ++ wholeItems mark depth (index + 1) xs

end

def news (depth : Nat) (ms : List (String × Delta)) : List String :=
  ms.flatMap fun (k, d) =>
    match d with
    | .added v => whole "+" depth (key k) false v
    | _ => []

mutual

def entry (depth : Nat) (label : String) (more : Bool) : Delta → List String
  | .same v => whole " " depth label more v
  | .removed v => whole "-" depth label more v
  | .added v => whole "+" depth label more v
  | .changed v w => whole "-" depth label more v ++ whole "+" depth label more w
  | .inside ms =>
    line " " depth (label ++ "\x7b") :: kept (depth + 1) ms ++ news (depth + 1) ms
      ++ [line " " depth ("\x7d" ++ comma more)]

def kept (depth : Nat) : List (String × Delta) → List String
  | [] => []
  | (k, d) :: ms =>
    match d with
    | .added _ => kept depth ms
    | d => entry depth (key k) (ms.any fun (_, e) => !e.isAdded) d ++ kept depth ms

end

end Brief

def Delta.brief (d : Delta) : String :=
  String.join (Brief.entry 0 "" false d)

namespace Merged

structure Colour where
  on : String
  off : String

def plain : Colour := ⟨"", ""⟩
def red : Colour := ⟨"\x1b[0;31m", "\x1b[0m"⟩
def green : Colour := ⟨"\x1b[0;32m", "\x1b[0m"⟩
def yellow : Colour := ⟨"\x1b[0;33m", "\x1b[0m"⟩

def newline (c : Colour) (level : Nat) : String :=
  c.off ++ "\n" ++ String.join (List.replicate level "    ") ++ c.on

def key (name : String) : String :=
  Text.quoted name ++ ": "

def outer : Value → String
  | .null => "null"
  | .boolean b => toString b
  | .number n => n
  | .string s => Text.quoted s
  | .array _ => "[]"
  | .object _ => "\x7b\x7d"

mutual

def whole (c : Colour) (level : Nat) : Value → List String
  | .object (m :: ms) =>
    "\x7b" :: newline c (level + 1) :: wholeMembers c (level + 1) (m :: ms)
      ++ [newline c level, "\x7d"]
  | .array (x :: xs) =>
    "[" :: newline c (level + 1) :: wholeItems c (level + 1) (x :: xs) ++ [newline c level, "]"]
  | v => [outer v]

def wholeMembers (c : Colour) (level : Nat) : List (String × Value) → List String
  | [] => []
  | (k, v) :: ms =>
    key k :: whole c level v
      ++ (if ms.isEmpty then [] else [",", newline c level]) ++ wholeMembers c level ms

def wholeItems (c : Colour) (level : Nat) : List Value → List String
  | [] => []
  | x :: xs =>
    whole c level x ++ (if xs.isEmpty then [] else [",", newline c level])
      ++ wholeItems c level xs

end

mutual

def entry (level : Nat) (label : String) : Delta → List String
  | .same v => label :: whole plain level v
  | .removed v => red.on :: label :: whole red level v ++ [red.off]
  | .added v => green.on :: label :: whole green level v ++ [green.off]
  | .changed v w => [label, yellow.on, outer v, " => ", outer w, yellow.off]
  | .inside [] => [label, "\x7b\x7d"]
  | .inside (m :: ms) =>
    label :: "\x7b" :: newline plain (level + 1) :: entries (level + 1) (m :: ms)
      ++ [newline plain level, "\x7d"]

def entries (level : Nat) : List (String × Delta) → List String
  | [] => []
  | (k, d) :: ms =>
    entry level (key k) d ++ (if ms.isEmpty then [] else [",", newline plain level])
      ++ entries level ms

end

end Merged

def Delta.merged (d : Delta) : String :=
  String.join (Merged.entry 0 "" d)

end ZCode.Json
