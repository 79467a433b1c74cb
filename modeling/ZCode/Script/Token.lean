set_option autoImplicit false

namespace ZCode.Script

inductive Token where
  | number (n : Nat)
  | word (w : String)
  | openParen
  | closeParen
  | openBracket
  | closeBracket
  | openBrace
  | closeBrace
  | comma
  | semicolon
  | dot
  | assign
  | same
  | less
  | greater
  | shiftLeft
  | shiftRight
  | bar
  | ampersand
  | tilde
  | bang
  | plus
  | plusPlus
  | minus
  | minusMinus
  | star
  | slash
  | percent
  deriving DecidableEq, Repr

namespace Token

inductive Pending where
  | nothing
  | number (n : Nat)
  | word (w : String)
  | symbol (t : Token)
  | twoEquals
  | comment
  | commentStar
  deriving DecidableEq, Repr

def isDigit (c : Char) : Bool :=
  '0' ≤ c && c ≤ '9'

def isWordStart (c : Char) : Bool :=
  ('a' ≤ c && c ≤ 'z') || ('A' ≤ c && c ≤ 'Z') || c == '_' || c == '$'

def isBlank (c : Char) : Bool :=
  c == ' ' || c == '\t' || c == '\n' || c == '\r'

def digitValue (c : Char) : Nat :=
  c.toNat - '0'.toNat

def symbol? : Char → Option Token
  | '(' => some openParen
  | ')' => some closeParen
  | '[' => some openBracket
  | ']' => some closeBracket
  | '\x7b' => some openBrace
  | '\x7d' => some closeBrace
  | ',' => some comma
  | ';' => some semicolon
  | '.' => some dot
  | '=' => some assign
  | '<' => some less
  | '>' => some greater
  | '|' => some bar
  | '&' => some ampersand
  | '~' => some tilde
  | '!' => some bang
  | '+' => some plus
  | '-' => some minus
  | '*' => some star
  | '/' => some slash
  | '%' => some percent
  | _ => none

def start? (c : Char) : Option Pending :=
  if isBlank c then some .nothing
  else if isDigit c then some (.number (digitValue c))
  else if isWordStart c then some (.word (String.singleton c))
  else (symbol? c).map .symbol

def extend? : Pending → Char → Option Pending
  | .nothing, c => start? c
  | .number n, c => if isDigit c then some (.number (10 * n + digitValue c)) else none
  | .word w, c => if isWordStart c || isDigit c then some (.word (w.push c)) else none
  | .symbol less, '<' => some (.symbol shiftLeft)
  | .symbol greater, '>' => some (.symbol shiftRight)
  | .symbol plus, '+' => some (.symbol plusPlus)
  | .symbol minus, '-' => some (.symbol minusMinus)
  | .symbol assign, '=' => some .twoEquals
  | .symbol slash, '*' => some .comment
  | .symbol _, _ => none
  | .twoEquals, c => if c == '=' then some (.symbol same) else none
  | .comment, c => some (if c == '*' then .commentStar else .comment)
  | .commentStar, c =>
    some (if c == '/' then .nothing else if c == '*' then .commentStar else .comment)

def close? : Pending → List Token → Option (List Token)
  | .nothing, done => some done
  | .number n, done => some (.number n :: done)
  | .word w, done => some (.word w :: done)
  | .symbol t, done => some (t :: done)
  | .twoEquals, _ | .comment, _ | .commentStar, _ => none

structure Reader where
  done : List Token := []
  pending : Pending := .nothing
  deriving DecidableEq, Repr

def Reader.step (r : Reader) (c : Char) : Option Reader :=
  match extend? r.pending c with
  | some pending => some { r with pending }
  | none => do
    let done ← close? r.pending r.done
    let pending ← start? c
    return { done, pending }

def ofText? (text : List Char) : Option (List Token) := do
  let r ← text.foldlM Reader.step {}
  let done ← close? r.pending r.done
  return done.reverse

end Token

end ZCode.Script
