import ZCode.Settings
import ZCode.Toml.Reader

set_option autoImplicit false

namespace ZCode

-- The options that override settings; an empty text or a limit that is not positive overrides
-- nothing.
structure Options where
  logLevel : String := ""
  debug : String := ""
  cacheDir : String := ""
  maxInstructions : Int := 0
  deriving DecidableEq, Repr

namespace Settings

def foldChar (c : Char) : Char :=
  if c == '\u017F' then 's' else if c == '\u212A' then 'k' else c.toLower

def foldName (name : String) : String := String.ofList (name.toList.map foldChar)

private def integerBelow? (bound : Nat) : Toml.Value → Option Nat
  | .integer n => if 0 ≤ n && n < bound then some n.toNat else none
  | _ => none

private def integer? : Toml.Value → Option Int
  | .integer n => some n
  | _ => none

private def text? : Toml.Value → Option String
  | .text s => some s
  | _ => none

private def boolean? : Toml.Value → Option Bool
  | .boolean b => some b
  | _ => none

def assign? (s : Settings) (name : String) (v : Toml.Value) : Option Settings :=
  match foldName name with
  | "image-length" => (integerBelow? UInt32.size v).map fun n => { s with imageLength := n.toUInt32 }
  | "version" => (integerBelow? UInt8.size v).map fun n => { s with version := n.toUInt8 }
  | "globals" => (integerBelow? UInt16.size v).map fun n => { s with globals := n.toUInt16 }
  | "static-memory" =>
    (integerBelow? UInt16.size v).map fun n => { s with staticMemory := n.toUInt16 }
  | "unsafe-io" => (boolean? v).map fun b => { s with ioUnsafe := b }
  | "max-block-instructions" => (integer? v).map fun n => { s with maxInstructions := n }
  | "cache-dir" => (text? v).map fun t => { s with cacheDir := t }
  | "log-level" => (text? v).map fun t => { s with logLevel := t }
  | "debug" => (text? v).map fun t => { s with debug := t }
  | _ => some s

def read? (bytes : Array UInt8) : Option Settings :=
  (Toml.parseFile? bytes).bind (·.foldlM (fun s (name, v) => s.assign? name v) {})

def override (s : Settings) (o : Options) : Settings :=
  { s with
    logLevel := if o.logLevel == "" then s.logLevel else o.logLevel
    debug := if o.debug == "" then s.debug else o.debug
    cacheDir := if o.cacheDir == "" then s.cacheDir else o.cacheDir
    maxInstructions := if 0 < o.maxInstructions then o.maxInstructions else s.maxInstructions }

end Settings

end ZCode
