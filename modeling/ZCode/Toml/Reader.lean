import ZCode.Text.Decimal
import ZCode.Text.Digits
import ZCode.Toml.Document
import ZCode.Toml.Time

set_option autoImplicit false

namespace ZCode.Toml

def isBlank (c : Char) : Bool := c == ' ' || c == '\t'

def isNewline (c : Char) : Bool := c == '\n' || c == '\r'

def isBare (c : Char) : Bool :=
  c.isAlphanum || c == '-' || c == '_'

def isClean : List Char → Bool
  | [] => true
  | '\r' :: cs => cs.head? == some '\n' && isClean cs
  | c :: cs => (c == '\t' || c == '\n' || (32 ≤ c.toNat && c.toNat != 127)) && isClean cs

def skipBlanks (cs : List Char) : List Char := cs.dropWhile isBlank

def skipLines (inComment : Bool) : List Char → List Char
  | [] => []
  | c :: cs =>
    if isNewline c then skipLines false cs
    else if inComment || c == '#' then skipLines true cs
    else if isBlank c then skipLines false cs
    else c :: cs

def lineEnd? (cs : List Char) : Option (List Char) :=
  match skipBlanks cs with
  | [] => some []
  | c :: rest =>
    if isNewline c then some (c :: rest)
    else if c == '#' then some (rest.dropWhile (!isNewline ·))
    else none

structure Delimiter where
  quote : Char
  long : Bool

inductive Mode where
  | plain
  | escape
  | code (left value : Nat)
  | folded (lineEnded : Bool)
  | quotes (count : Nat)

structure Scan where
  mode : Mode := .plain
  taken : List Char := []
  -- Whether an escaped backslash was read last, but for quotes.
  slashed : Bool := false

namespace Scan

inductive Next where
  | more (s : Scan)
  | done (text : String)

def push (s : Scan) (c : Char) : Scan := { taken := c :: s.taken }

def text (s : Scan) : String := String.ofList s.taken.reverse

def plain (d : Delimiter) (s : Scan) (c : Char) : Option Next :=
  if c == d.quote then
    some (if d.long then .more { s with mode := .quotes 1 } else .done s.text)
  else if isNewline c && !d.long then none
  else if c == '\\' && d.quote == '"' then some (.more { mode := .escape, taken := s.taken })
  else some (.more (s.push c))

def escape (d : Delimiter) (s : Scan) (c : Char) : Option Next :=
  let as (c : Char) : Option Next := some (.more (s.push c))
  let code (n : Nat) : Option Next := some (.more { s with mode := .code n 0 })
  match c with
  | 'b' => as '\x08'
  | 't' => as '\t'
  | 'n' => as '\n'
  | 'f' => as '\x0c'
  | 'r' => as '\r'
  | 'e' => as '\x1b'
  | '"' => as '"'
  | '\\' => some (.more { s.push c with slashed := true })
  | 'x' => code 2
  | 'u' => code 4
  | 'U' => code 8
  | c =>
    if d.long && (isBlank c || isNewline c) then
      some (.more { s with mode := .folded (isNewline c) })
    else none

def code (s : Scan) (left value : Nat) (c : Char) : Option Next :=
  (Text.hexDigit? c).bind fun n =>
    let value := 16 * value + n
    if 1 < left then some (.more { s with mode := .code (left - 1) value })
    else if Nat.isValidChar value then some (.more (s.push (Char.ofNat value)))
    else none

-- The longest run of quotes in a long string: five, and six after an escaped backslash.
def maxQuotes (s : Scan) : Nat := if s.slashed then 6 else 5

def read (d : Delimiter) (s : Scan) : List Char → Option (String × List Char)
  | [] =>
    match s.mode with
    | .quotes k => if 3 ≤ k then some ((close s k).text, []) else none
    | _ => none
  | c :: cs =>
    let go (n : Option Next) : Option (String × List Char) :=
      match n with
      | some (.more s) => read d s cs
      | some (.done text) => some (text, cs)
      | none => none
    match s.mode with
    | .plain => go (plain d s c)
    | .escape => go (escape d s c)
    | .code left value => go (code s left value c)
    | .folded ended =>
      if isBlank c || isNewline c then read d { s with mode := .folded (ended || isNewline c) } cs
      else if ended then go (plain d { s with mode := .plain } c)
      else none
    | .quotes k =>
      if c == d.quote then
        if k == s.maxQuotes then none else read d { s with mode := .quotes (k + 1) } cs
      else if 3 ≤ k then some ((close s k).text, c :: cs)
      else go (plain d { taken := List.replicate k d.quote ++ s.taken } c)
where
  close (s : Scan) (k : Nat) : Scan := { taken := List.replicate (k - 3) d.quote ++ s.taken }

end Scan

def dropLineEnd : List Char → List Char
  | '\n' :: cs => cs
  | '\r' :: '\n' :: cs => cs
  | cs => cs

def string? (quote : Char) (cs : List Char) : Option (String × List Char) :=
  match cs with
  | a :: b :: rest =>
    if a == quote && b == quote then Scan.read ⟨quote, true⟩ {} (dropLineEnd rest)
    else Scan.read ⟨quote, false⟩ {} cs
  | _ => Scan.read ⟨quote, false⟩ {} cs

def keyPart? (cs : List Char) : Option (String × List Char) :=
  match skipBlanks cs with
  | [] => none
  | c :: rest =>
    if c == '"' || c == '\'' then Scan.read ⟨c, false⟩ {} rest
    else
      let name := (c :: rest).takeWhile isBare
      if name.isEmpty then none
      else some (String.ofList name, (c :: rest).dropWhile isBare)

def key? : Nat → List Char → Option (Path × List Char)
  | 0, _ => none
  | fuel + 1, cs =>
    match keyPart? cs with
    | none => none
    | some (k, rest) =>
      match skipBlanks rest with
      | '.' :: rest => (key? fuel rest).map fun (ks, rest) => (k :: ks, rest)
      | rest => some ([k], rest)

def isHex (c : Char) : Bool := (Text.hexDigit? c).isSome

def underscoresOk (accept : Bool) : List Char → Bool
  | [] => accept
  | c :: cs => (c != '_' || accept) && underscoresOk (isHex c) cs

def hasLeadingZero : List Char → Bool
  | '-' :: '0' :: _ :: _ => true
  | '+' :: '0' :: _ :: _ => true
  | '0' :: c :: _ => c != 'b' && c != 'o' && c != 'x'
  | _ => false

def integerValue? (text : List Char) : Option Int :=
  if !underscoresOk false text || hasLeadingZero text then none
  else
    let body := text.filter (· != '_')
    let n? : Option Int := match body with
      | '0' :: 'x' :: ds => (Text.readDigits? 16 ds).map Int.ofNat
      | '0' :: 'o' :: ds => (Text.readDigits? 8 ds).map Int.ofNat
      | '0' :: 'b' :: ds => (Text.readDigits? 2 ds).map Int.ofNat
      | '-' :: ds => (Text.readDigits? 10 ds).map fun n => -(n : Int)
      | '+' :: ds => (Text.readDigits? 10 ds).map Int.ofNat
      | ds => (Text.readDigits? 10 ds).map Int.ofNat
    n?.bind fun n => if Text.fits64 n then some n else none

def floatParts (text : List Char) : List (List Char) :=
  let (part, parts) := text.foldr (fun c (part, parts) =>
    if c == '.' || c == 'e' || c == 'E' then ([], part :: parts) else (c :: part, parts))
    (([], []) : List Char × List (List Char))
  (part :: parts).filter (!·.isEmpty)

def isFloat (text : List Char) : Bool :=
  let parts := floatParts text
  parts.all (underscoresOk false) && !hasLeadingZero (parts.headD [])
    && ((Text.Decimal.parse? (text.filter (· != '_'))).bind Text.Decimal.toDouble?).isSome

def isFloatChar (c : Char) : Bool :=
  c.isDigit || c == '_' || c == '.' || c == '-' || c == '+' || c == 'e' || c == 'E'

def isTimeChar (c : Char) : Bool :=
  c.isDigit || c == '-' || c == ':' || c == 'T' || c == 't' || c == ' ' || c == '.'
    || c == 'Z' || c == 'z' || c == '+'

def based? (base : Nat) (lead : List Char) (cs : List Char) : Option (Value × List Char) :=
  let isDigit (c : Char) : Bool := (Text.hexDigit? c).any (· < base)
  if cs.head?.all (!isDigit ·) then none
  else
    let wanted (c : Char) : Bool := c == '_' || isDigit c
    (integerValue? (lead ++ cs.takeWhile wanted)).map fun n => (.integer n, cs.dropWhile wanted)

def decimal? (sign cs : List Char) : Option (Value × List Char) :=
  let isWhole (c : Char) : Bool := c.isDigit || c == '_'
  let rest := cs.dropWhile isWhole
  match rest with
  | c :: _ =>
    if c == '.' || c == 'e' || c == 'E' then
      if isFloat (sign ++ cs.takeWhile isFloatChar) then
        some (.float, cs.dropWhile isFloatChar)
      else none
    else (integerValue? (sign ++ cs.takeWhile isWhole)).map fun n => (.integer n, rest)
  | [] => (integerValue? (sign ++ cs.takeWhile isWhole)).map fun n => (.integer n, rest)

def numberOrTime? (cs : List Char) : Option (Value × List Char) :=
  match cs with
  | '0' :: 'x' :: rest => based? 16 ['0', 'x'] rest
  | '0' :: 'o' :: rest => based? 8 ['0', 'o'] rest
  | '0' :: 'b' :: rest => based? 2 ['0', 'b'] rest
  | _ =>
    let after := (cs.dropWhile Char.isDigit).head?
    if after == some '-' || after == some ':' then
      let text := ((cs.takeWhile isTimeChar).reverse.dropWhile (· == ' ')).reverse
      if Time.isValid text then some (.time, cs.dropWhile isTimeChar) else none
    else decimal? [] cs

def signed? (sign : Char) : List Char → Option (Value × List Char)
  | 'i' :: 'n' :: 'f' :: rest => some (.float, rest)
  | 'n' :: 'a' :: 'n' :: rest => some (.float, rest)
  | '0' :: 'b' :: _ => none
  | '0' :: 'o' :: _ => none
  | '0' :: 'x' :: _ => none
  | c :: rest => if c.isDigit then decimal? [sign] (c :: rest) else none
  | [] => none

structure Place where
  context : Path
  key : String
  inList : Bool := false

def Document.openInline (d : Document) (p : Place) : Option Document :=
  let path := p.context ++ [p.key]
  if p.inList then (d.imply path).openEntry path else (d.imply path).openTable path

mutual

def value? : Nat → Document → Place → List Char → Option (Value × Document × List Char)
  | 0, _, _, _ => none
  | fuel + 1, d, p, cs =>
    let plain (r : Option (Value × List Char)) : Option (Value × Document × List Char) :=
      r.map fun (v, rest) => (v, d, rest)
    match skipBlanks cs with
    | '[' :: rest =>
      (items? fuel (d.note p.context p.key true) { p with inList := true } rest).map
        fun (d, rest) => (.list, d, rest)
    | '\x7b' :: rest =>
      match d.openInline p with
      | none => none
      | some d =>
        let (d, t) := d.add
        (members? fuel d (p.context ++ [p.key]) t rest).map fun (d, rest) => (.table t, d, rest)
    | '"' :: rest => plain ((string? '"' rest).map fun (s, rest) => (.text s, rest))
    | '\'' :: rest => plain ((string? '\'' rest).map fun (s, rest) => (.text s, rest))
    | '-' :: rest => plain (signed? '-' rest)
    | '+' :: rest => plain (signed? '+' rest)
    | 'i' :: 'n' :: 'f' :: rest => some (.float, d, rest)
    | 'n' :: 'a' :: 'n' :: rest => some (.float, d, rest)
    | 't' :: 'r' :: 'u' :: 'e' :: rest => some (.boolean true, d, rest)
    | 'f' :: 'a' :: 'l' :: 's' :: 'e' :: rest => some (.boolean false, d, rest)
    | c :: rest => if c.isDigit then plain (numberOrTime? (c :: rest)) else none
    | [] => none

def items? : Nat → Document → Place → List Char → Option (Document × List Char)
  | 0, _, _, _ => none
  | fuel + 1, d, p, cs =>
    match skipLines false cs with
    | ']' :: rest => some (d, rest)
    | cs =>
      match value? fuel d p cs with
      | none => none
      | some (_, d, rest) =>
        match skipLines false rest with
        | ',' :: rest => items? fuel d p rest
        | ']' :: rest => some (d, rest)
        | _ => none

def member? : Nat → Document → Path → List Char → Option (Path × Value × Document × List Char)
  | 0, _, _, _ => none
  | fuel + 1, d, context, cs =>
    match key? cs.length cs with
    | some (key, '=' :: rest) =>
      let last := key.getLastD ""
      match d.openKeys context key.dropLast with
      | none => none
      | some (d, context) =>
        match value? fuel d { context, key := last } rest with
        | none => none
        | some (v, d, rest) =>
          (d.define context last v).map fun d => (key, v, d.note context last v.isList, rest)
    | _ => none

def members? : Nat → Document → Path → Nat → List Char → Option (Document × List Char)
  | 0, _, _, _, _ => none
  | fuel + 1, d, context, t, cs =>
    match skipLines false cs with
    | '\x7d' :: rest => some (d, rest)
    | cs =>
      match member? fuel d context cs with
      | none => none
      | some (key, v, d, rest) =>
        match d.write t key v with
        | none => none
        | some d =>
          match skipLines false rest with
          | ',' :: rest => members? fuel d context t rest
          | '\x7d' :: rest => some (d, rest)
          | _ => none

end

def lines? : Nat → Document → Path → List Char → Option Document
  | 0, _, _, _ => none
  | fuel + 1, d, context, cs =>
    match skipLines false cs with
    | [] => some d
    | '[' :: '[' :: rest => do
      let (path, rest) ← key? rest.length rest
      match rest with
      | ']' :: ']' :: rest => do
        let d ← d.openEntry path
        lines? fuel (d.note path "" false) path (← lineEnd? rest)
      | _ => none
    | '[' :: rest => do
      let (path, rest) ← key? rest.length rest
      match rest with
      | ']' :: rest => do
        let d ← d.openTable path
        lines? fuel (d.note path "" false) path (← lineEnd? rest)
      | _ => none
    | cs => do
      let (_, _, d, rest) ← member? (2 * cs.length + 2) d context cs
      lines? fuel d context (← lineEnd? rest)

def parse? (text : String) : Option Table :=
  let cs := text.toList
  if isClean cs then (lines? (cs.length + 1) {} [] cs).map Document.top else none

def dropMark : List UInt8 → List UInt8
  | 0xEF :: 0xBB :: 0xBF :: bytes => bytes
  | 0xFF :: 0xFE :: bytes => bytes
  | 0xFE :: 0xFF :: bytes => bytes
  | bytes => bytes

def parseFile? (bytes : Array UInt8) : Option Table :=
  (String.fromUTF8? ⟨(dropMark bytes.toList).toArray⟩).bind parse?

end ZCode.Toml
