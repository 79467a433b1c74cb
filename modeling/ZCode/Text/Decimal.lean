set_option autoImplicit false

namespace ZCode.Text

structure Decimal where
  negative : Bool := false
  digits : Nat
  exponent : Int
  deriving DecidableEq, Repr

-- A finite double: `mantissa * 2 ^ exponent`, with the mantissa below 2^53, and at least 2^52
-- unless the exponent is the least one.
structure Double where
  negative : Bool := false
  mantissa : Nat
  exponent : Int
  deriving DecidableEq, Repr

namespace Double

def leastExponent : Int := -1074
def greatestExponent : Int := 971

def same (a b : Double) : Bool :=
  a.mantissa == b.mantissa && a.exponent == b.exponent
    && (a.negative == b.negative || a.mantissa == 0)

def nearest (num den : Nat) : Nat :=
  let floor := num / den
  let twice := 2 * (num % den)
  if twice < den then floor
  else if den < twice then floor + 1
  else if floor % 2 = 0 then floor else floor + 1

def scaled (num den : Nat) (q : Int) : Nat × Nat :=
  if 0 ≤ q then (num, den <<< q.toNat) else (num <<< (-q).toNat, den)

def ofQuotient? (negative : Bool) (num den : Nat) : Option Double :=
  if num = 0 then some ⟨negative, 0, leastExponent⟩
  else
    let guess := max leastExponent ((num.log2 : Int) - den.log2 - 53)
    let (n, d) := scaled num den guess
    let q := if n < d <<< 53 then guess else guess + 1
    let (n, d) := scaled num den q
    let m := nearest n d
    let (m, q) := if m = 1 <<< 53 then (1 <<< 52, q + 1) else (m, q)
    if greatestExponent < q then none else some ⟨negative, m, q⟩

end Double

namespace Decimal

def toDouble? (d : Decimal) : Option Double :=
  let magnitude : Int := (Nat.toDigits 10 d.digits).length + d.exponent
  if d.digits = 0 || magnitude < -400 then some ⟨d.negative, 0, Double.leastExponent⟩
  else if 400 < magnitude then none
  else if 0 ≤ d.exponent then
    Double.ofQuotient? d.negative (d.digits * Nat.pow 10 d.exponent.toNat) 1
  else Double.ofQuotient? d.negative d.digits (Nat.pow 10 (-d.exponent).toNat)

def parse? (text : List Char) : Option Decimal :=
  let negative := text.head? == some '-'
  let body := if negative || text.head? == some '+' then text.tail else text
  let whole := body.takeWhile Char.isDigit
  let rest := body.dropWhile Char.isDigit
  let (fraction, rest, pointed) := match rest with
    | '.' :: r => (r.takeWhile Char.isDigit, r.dropWhile Char.isDigit, true)
    | r => ([], r, false)
  let exponent? : Option Int := match rest with
    | [] => some 0
    | c :: r =>
      if c == 'e' || c == 'E' then
        let minus := r.head? == some '-'
        let ds := if minus || r.head? == some '+' then r.tail else r
        if ds.isEmpty || !ds.all Char.isDigit then none
        else
          let n : Nat := ds.foldl (fun n c => 10 * n + (c.toNat - 48)) 0
          some (if minus then -(n : Int) else n)
      else none
  if whole.isEmpty || (pointed && fraction.isEmpty) then none
  else exponent?.map fun e =>
    { negative
      digits := (whole ++ fraction).foldl (fun n c => 10 * n + (c.toNat - 48)) 0
      exponent := e - fraction.length }

end Decimal

namespace Double

def quotient (x : Double) : Nat × Nat :=
  if 0 ≤ x.exponent then (x.mantissa <<< x.exponent.toNat, 1)
  else (x.mantissa, 1 <<< (-x.exponent).toNat)

def candidates (x : Double) (e : Int) : List Nat :=
  let (n, d) := x.quotient
  let below :=
    if 0 ≤ e then n / (d * Nat.pow 10 e.toNat) else n * Nat.pow 10 (-e).toNat / d
  [below, below + 1].filter fun k =>
    (Decimal.toDouble? ⟨false, k, e⟩) == some { x with negative := false }

def closer (x : Double) (e : Int) (a b : Nat) : Nat :=
  let (n, d) := x.quotient
  let gap (k : Nat) : Nat :=
    let (p, q) := if 0 ≤ e then (k * Nat.pow 10 e.toNat, 1) else (k, Nat.pow 10 (-e).toNat)
    ((p * d : Nat) - (n * q : Nat) : Int).natAbs
  if gap b < gap a then b else a

-- Tries grids from coarse to fine; seventeen digits always read back.
def shortestFrom (x : Double) : Nat → Int → Decimal
  | 0, e => ⟨x.negative, (x.candidates e).headD 0, e⟩
  | tries + 1, e =>
    match x.candidates e with
    | [] => shortestFrom x tries (e - 1)
    | [k] => ⟨x.negative, k, e⟩
    | a :: b :: _ => ⟨x.negative, x.closer e a b, e⟩

def shortest (x : Double) : Decimal :=
  if x.mantissa = 0 then ⟨x.negative, 0, 0⟩
  else
    let (n, d) := x.quotient
    let top : Int := if d ≤ n then (Nat.toDigits 10 (n / d)).length
      else 1 - (Nat.toDigits 10 (d / n)).length
    shortestFrom x 20 (top + 1)

end Double

def Double.general (x : Double) : String :=
  let s := x.shortest
  let sign := if x.negative then "-" else ""
  if s.digits = 0 then sign ++ "0"
  else
    let all := Nat.toDigits 10 s.digits
    let ds := (all.reverse.dropWhile (· == '0')).reverse
    let e : Int := s.exponent + all.length - 1
    let text (cs : List Char) : String := String.ofList cs
    if e < -4 || 6 ≤ e then
      let mantissa := match ds with
        | [] => "0"
        | [c] => text [c]
        | c :: rest => text (c :: '.' :: rest)
      let es := toString e.natAbs
      sign ++ mantissa ++ "e" ++ (if e < 0 then "-" else "+") ++ (if es.length < 2 then "0" ++ es else es)
    else if e < 0 then
      sign ++ "0." ++ text (List.replicate ((-e).toNat - 1) '0' ++ ds)
    else
      let whole := e.toNat + 1
      let padded := ds ++ List.replicate (whole - ds.length) '0'
      let fraction := padded.drop whole
      sign ++ text (padded.take whole) ++ (if fraction.isEmpty then "" else "." ++ text fraction)

end ZCode.Text
