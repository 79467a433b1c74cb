import ZCode.Settings.Options
import ZCode.Text.Integer

set_option autoImplicit false

namespace ZCode

inductive Verb where
  | version
  | block
  | disasm
  | check
  | scan
  | dump
  | compare
  deriving DecidableEq, Repr

namespace Verb

def all : List Verb := [version, block, disasm, check, scan, dump, compare]

def name : Verb → String
  | version => "version"
  | block => "block"
  | disasm => "disasm"
  | check => "check"
  | scan => "scan"
  | dump => "dump"
  | compare => "compare"

def ofName? (name : String) : Option Verb :=
  all.find? fun v => v.name == name

def takesStory : Verb → Bool
  | version | compare => false
  | block | disasm | check | scan | dump => true

def surveys : Verb → Bool
  | scan | dump => true
  | _ => false

end Verb

structure Flags where
  config : String := ""
  options : Options := {}
  story : Option String := none
  addr : Int := -1
  maxBlocks : Int := 100000
  out : String := "fragments.json"
  full : Bool := false
  deriving DecidableEq, Repr

namespace Flags

def truth? : String → Option Bool
  | "1" | "t" | "T" | "true" | "TRUE" | "True" => some true
  | "0" | "f" | "F" | "false" | "FALSE" | "False" => some false
  | _ => none

def isSwitch (v : Verb) (name : String) : Bool :=
  v == .compare && name == "full"

def set? (f : Flags) (v : Verb) (name value : String) : Option Flags :=
  match name with
  | "config" => some { f with config := value }
  | "log-level" => some { f with options := { f.options with logLevel := value } }
  | "debug" => some { f with options := { f.options with debug := value } }
  | "cache" => some { f with options := { f.options with cacheDir := value } }
  | "max-block" =>
    (Text.Integer.parse? value).map fun n => { f with options := { f.options with maxInstructions := n } }
  | "story" => if v.takesStory then some { f with story := some value } else none
  | "addr" =>
    if v.takesStory then (Text.Integer.parse? value).map fun n => { f with addr := n } else none
  | "max-blocks" =>
    if v.surveys then (Text.Integer.parse? value).map fun n => { f with maxBlocks := n } else none
  | "out" => if v == .dump then some { f with out := value } else none
  | "full" => if isSwitch v name then (truth? value).map fun b => { f with full := b } else none
  | _ => none

end Flags

structure Command where
  verb : Verb
  flags : Flags := {}
  operands : List String := []
  deriving DecidableEq, Repr

namespace Command

def isFlag (arg : String) : Bool :=
  arg.startsWith "-" && arg != "-"

def wantsValue (arg : String) : Bool :=
  arg.startsWith "-" && !arg.toList.contains '=' && (arg.startsWith "--" || arg.length == 2)

def splitVerb? (before : List String) : List String → Option (String × List String)
  | [] => none
  | arg :: rest =>
    if arg == "--" then none
    else if wantsValue arg then
      match rest with
      | value :: next :: rest => splitVerb? (value :: arg :: before) (next :: rest)
      | _ => none
    else if arg.isEmpty || arg.startsWith "-" then splitVerb? (arg :: before) rest
    else some (arg, before.reverse ++ rest)

def nameAndValue (flag : List Char) : String × Option String :=
  let name := flag.takeWhile (· != '=')
  match flag.dropWhile (· != '=') with
  | _ :: value => (String.ofList name, some (String.ofList value))
  | [] => (String.ofList name, none)

def readArguments? (c : Command) : List String → Option Command
  | [] => some c
  | arg :: rest =>
    if !isFlag arg then readArguments? { c with operands := c.operands ++ [arg] } rest
    else if arg == "--" then some { c with operands := c.operands ++ rest }
    else match arg.toList with
      | '-' :: '-' :: flag =>
        match nameAndValue flag, rest with
        | (name, some value), rest => (c.flags.set? c.verb name value).bind fun flags =>
          readArguments? { c with flags } rest
        | (name, none), rest =>
          if Flags.isSwitch c.verb name then (c.flags.set? c.verb name "true").bind fun flags =>
            readArguments? { c with flags } rest
          else match rest with
            | value :: rest => (c.flags.set? c.verb name value).bind fun flags =>
              readArguments? { c with flags } rest
            | [] => none
      | _ => none

def isComplete (c : Command) : Bool :=
  (c.verb != .compare || c.operands.length == 2) && (!c.verb.takesStory || c.flags.story.isSome)

def parse? (args : List String) : Option Command := do
  let (name, rest) ← splitVerb? [] args
  let verb ← Verb.ofName? name
  let c ← readArguments? { verb } rest
  if c.isComplete then some c else none

end Command

end ZCode
