import ZCode.Fault
import ZCode.Text.Blank
import ZCode.Text.Quoted

set_option autoImplicit false

namespace ZCode

open ZCode.Text

namespace Level

def trace : Int := -8
def debug : Int := -4
def info : Int := 0
def warn : Int := 4
def error : Int := 8
def crit : Int := 12

def name (level : Int) : String :=
  if level = trace then "trace"
  else if level = debug then "debug"
  else if level = info then "info"
  else if level = warn then "warn"
  else if level = error then "error"
  else if level = crit then "crit"
  else "unknown"

def capital (c : Char) : Char :=
  if c == 'ı' then 'I' else if c == 'ſ' then 'S' else c.toUpper

def parse (name : String) : Except Fault Int :=
  match String.ofList (name.toList.map capital) with
  | "TRACE" => .ok trace
  | "DEBUG" => .ok debug
  | "INFO" => .ok info
  | "WARN" | "WARNING" => .ok warn
  | "ERROR" => .ok error
  | "CRIT" | "CRITICAL" => .ok crit
  | _ => .error (.badLevel name)

end Level

inductive Datum where
  | text (s : String)
  | int (n : Int)
  | bool (b : Bool)
  | nothing
  deriving DecidableEq, Repr

structure Attribute where
  key : String
  value : Datum
  deriving DecidableEq, Repr

namespace Attribute

def badKey : String := "!BADKEY"

def ofContext : List Datum → List Attribute
  | [] => []
  | [v] => [⟨badKey, v⟩]
  | .text key :: value :: rest => ⟨key, value⟩ :: ofContext rest
  | v :: w :: rest => ⟨badKey, v⟩ :: ofContext (w :: rest)

def needsQuotes (s : String) : Bool :=
  s.isEmpty || s.toList.any fun c =>
    if c < '\x80' then c == '"' || c == ' ' || c == '=' || c < ' '
    else c == '\ufffd' || isBlank c || !isPrintable c

def plain (s : String) : String :=
  if needsQuotes s then quoted s else s

def valueText : Datum → String
  | .text s => plain s
  | .int n => toString n
  | .bool b => toString b
  | .nothing => "<nil>"

def isVoid (a : Attribute) : Bool :=
  a.key.isEmpty && a.value == .nothing

def text (a : Attribute) : String :=
  plain a.key ++ "=" ++ valueText a.value

end Attribute

structure Record where
  level : Int
  channel : String
  message : String
  attributes : List Attribute := []
  deriving DecidableEq, Repr

structure Logger where
  level : Int
  attributes : List Attribute := []
  deriving DecidableEq, Repr

namespace Logger

def enabled (l : Logger) (level : Int) : Bool :=
  l.level ≤ level

def extend (l : Logger) (attributes : List Attribute) : Logger :=
  { l with attributes := l.attributes ++ attributes }

def line (l : Logger) (r : Record) : String :=
  let attributes := l.attributes ++ ⟨"module", .text r.channel⟩ :: r.attributes
  let shown := attributes.filter fun a => !a.isVoid
  " ".intercalate
    (("level=" ++ Level.name r.level) :: ("msg=" ++ Attribute.plain r.message)
      :: shown.map Attribute.text)

def write (l : Logger) (r : Record) : List String :=
  if l.enabled r.level then [l.line r] else []

end Logger

namespace Channel

def decoder : String := "zvm_decoder"
def generator : String := "zvm_codegen"
def session : String := "zvm_session"
def storage : String := "zvm_storage"
def command : String := "zdecomp_cli"

def known : List String :=
  [decoder, generator, session, storage, command]

end Channel

structure Journal where
  logger : Logger
  channels : List String := []
  deriving DecidableEq, Repr

namespace Journal

def enable (j : Journal) (channel : String) : Journal :=
  { j with channels := channel :: j.channels }

def disable (j : Journal) (channel : String) : Journal :=
  { j with channels := j.channels.filter (· != channel) }

def channelsOf (list : String) : List String :=
  (list.splitOn ",").flatMap fun item =>
    let name := trimmed item
    if name.isEmpty then []
    else if name == "all" then Channel.known
    else [name]

def enableAll (j : Journal) (list : String) : Journal :=
  (channelsOf list).foldl enable j

-- Trace and debug records pass on enabled channels only.
def passes (j : Journal) (r : Record) : Bool :=
  (r.level != Level.trace && r.level != Level.debug) || j.channels.contains r.channel

def write (j : Journal) (r : Record) : List String :=
  if j.passes r then j.logger.write r else []

def writeAll (j : Journal) (rs : List Record) : List String :=
  rs.flatMap j.write

end Journal

end ZCode
