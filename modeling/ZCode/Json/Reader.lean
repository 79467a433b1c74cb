import Std.Data.TreeMap
import ZCode.Json.Value
import ZCode.Text.Decimal
import ZCode.Text.Digits

set_option autoImplicit false

namespace ZCode.Json

def isSpace (c : Char) : Bool := c == ' ' || c == '\t' || c == '\n' || c == '\r'

def skipSpace (cs : List Char) : List Char := cs.dropWhile isSpace

def isHigh (unit : Nat) : Bool := 0xD800 ≤ unit && unit < 0xDC00

def isLow (unit : Nat) : Bool := 0xDC00 ≤ unit && unit < 0xE000

-- Joins pairs of surrogates, the characters read so far latest first; one that stands alone is read
-- as U+FFFD.
def joinUnits (read : List Char) : List Nat → List Char
  | [] => read.reverse
  | [u] => (single u :: read).reverse
  | u :: v :: rest =>
    if isHigh u && isLow v then
      joinUnits (Char.ofNat (0x10000 + (u - 0xD800) * 0x400 + (v - 0xDC00)) :: read) rest
    else joinUnits (single u :: read) (v :: rest)
where
  single (u : Nat) : Char := if isHigh u || isLow u then '\uFFFD' else Char.ofNat u

inductive Mode where
  | plain
  | escape
  | unit (left value : Nat)

def escaped? : Char → Option Char
  | '"' => some '"'
  | '\\' => some '\\'
  | '/' => some '/'
  | 'b' => some '\x08'
  | 'f' => some '\x0c'
  | 'n' => some '\n'
  | 'r' => some '\r'
  | 't' => some '\t'
  | _ => none

def units? (mode : Mode) (read : List Nat) : List Char → Option (List Nat × List Char)
  | [] => none
  | c :: cs =>
    match mode with
    | .plain =>
      if c == '"' then some (read.reverse, cs)
      else if c == '\\' then units? .escape read cs
      else if c < ' ' then none
      else units? .plain (c.toNat :: read) cs
    | .escape =>
      if c == 'u' then units? (.unit 4 0) read cs
      else match escaped? c with
        | some e => units? .plain (e.toNat :: read) cs
        | none => none
    | .unit left value =>
      match Text.hexDigit? c with
      | none => none
      | some d =>
        let value := 16 * value + d
        if 1 < left then units? (.unit (left - 1) value) read cs
        else units? .plain (value :: read) cs

def string? (cs : List Char) : Option (String × List Char) :=
  (units? .plain [] cs).map fun (units, rest) => (String.ofList (joinUnits [] units), rest)

def isNumberChar (c : Char) : Bool :=
  c.isDigit || c == '-' || c == '+' || c == '.' || c == 'e' || c == 'E'

def isNumber (text : List Char) : Bool :=
  let body := if text.head? == some '-' then text.tail else text
  let startsWell := match body with
    | '0' :: c :: _ => !c.isDigit
    | c :: _ => c.isDigit
    | [] => false
  startsWell && (Text.Decimal.parse? text).isSome

def double? (written : String) : Option Text.Double :=
  (Text.Decimal.parse? written.toList).bind Text.Decimal.toDouble?

def maxDepth : Nat := 10000

def number? (allowed : String → Bool) (cs : List Char) : Option (Value × List Char) :=
  let text := cs.takeWhile isNumberChar
  let written := String.ofList text
  if isNumber text && allowed written then some (.number written, cs.dropWhile isNumberChar)
  else none

mutual

def value? (allowed : String → Bool) : Nat → Nat → List Char → Option (Value × List Char)
  | 0, _, _ => none
  | fuel + 1, depth, cs =>
    match skipSpace cs with
    | '\x7b' :: rest =>
      match depth, skipSpace rest with
      | 0, _ => none
      | _ + 1, '\x7d' :: rest => some (.object [], rest)
      | depth + 1, rest => members? allowed fuel depth ∅ rest
    | '[' :: rest =>
      match depth, skipSpace rest with
      | 0, _ => none
      | _ + 1, ']' :: rest => some (.array [], rest)
      | depth + 1, rest => items? allowed fuel depth [] rest
    | '"' :: rest => (string? rest).map fun (s, rest) => (.string s, rest)
    | 'n' :: 'u' :: 'l' :: 'l' :: rest => some (.null, rest)
    | 't' :: 'r' :: 'u' :: 'e' :: rest => some (.boolean true, rest)
    | 'f' :: 'a' :: 'l' :: 's' :: 'e' :: rest => some (.boolean false, rest)
    | cs => number? allowed cs

def members? (allowed : String → Bool) :
    Nat → Nat → Std.TreeMap String Value → List Char → Option (Value × List Char)
  | 0, _, _, _ => none
  | fuel + 1, depth, read, cs =>
    match skipSpace cs with
    | '"' :: rest =>
      match string? rest with
      | none => none
      | some (key, rest) =>
        match skipSpace rest with
        | ':' :: rest =>
          match value? allowed fuel depth rest with
          | none => none
          | some (v, rest) =>
            let read := read.insert key v
            match skipSpace rest with
            | ',' :: rest => members? allowed fuel depth read rest
            | '\x7d' :: rest => some (.object read.toList, rest)
            | _ => none
        | _ => none
    | _ => none

def items? (allowed : String → Bool) :
    Nat → Nat → List Value → List Char → Option (Value × List Char)
  | 0, _, _, _ => none
  | fuel + 1, depth, read, cs =>
    match value? allowed fuel depth cs with
    | none => none
    | some (v, rest) =>
      match skipSpace rest with
      | ',' :: rest => items? allowed fuel depth (v :: read) rest
      | ']' :: rest => some (.array (v :: read).reverse, rest)
      | _ => none

end

-- A document is one value. Every number has to be allowed, also where a later member with the same
-- key counts.
def parse? (allowed : String → Bool) (text : List Char) : Option Value :=
  match value? allowed (text.length + 1) maxDepth text with
  | some (v, rest) => if (skipSpace rest).isEmpty then some v else none
  | none => none

end ZCode.Json
