-- The numbers of the script language: binary floating point with 53 significant bits, ties to even.
-- Finite ones are kept as the rationals that they are. The sign of zero is not kept, for no script
-- operation here can tell it, and exponents are not bounded.

set_option autoImplicit false

namespace ZCode.Script

inductive Number where
  | nan
  | infinite (negative : Bool)
  | finite (q : Rat)
  deriving DecidableEq, Repr

namespace Number

def ofInt (n : Int) : Number :=
  finite n

instance : OfNat Number 0 := ⟨finite 0⟩

def roundDiv (num den : Nat) : Nat :=
  let floor := num / den
  let twice := 2 * (num % den)
  if twice < den then floor
  else if den < twice then floor + 1
  else if floor % 2 = 0 then floor else floor + 1

-- Rounds a positive quotient to 53 significant bits. It is scaled by a power of two to lie between
-- 2^52 and 2^53, rounded there, and scaled back.
def roundPositive (num den : Nat) : Rat :=
  let shift : Int := 52 - ((num.log2 : Int) - den.log2)
  let scaled (k : Int) : Nat × Nat :=
    if 0 ≤ k then (num <<< k.toNat, den) else (num, den <<< (-k).toNat)
  let near := scaled shift
  let k := if near.1 < near.2 <<< 52 then shift + 1 else shift
  let (n, d) := scaled k
  let r : Rat := roundDiv n d
  if 0 ≤ k then r / (1 <<< k.toNat : Nat) else r * (1 <<< (-k).toNat : Nat)

def round (q : Rat) : Rat :=
  if q.den = 1 ∧ q.num.natAbs ≤ 1 <<< 53 then q
  else if q < 0 then -roundPositive q.num.natAbs q.den
  else roundPositive q.num.natAbs q.den

def neg : Number → Number
  | nan => nan
  | infinite n => infinite !n
  | finite q => finite (-q)

def add : Number → Number → Number
  | finite a, finite b => finite (round (a + b))
  | nan, _ | _, nan => nan
  | infinite m, infinite n => if m = n then infinite m else nan
  | infinite m, finite _ | finite _, infinite m => infinite m

def sub (a b : Number) : Number :=
  add a b.neg

def mul : Number → Number → Number
  | finite a, finite b => finite (round (a * b))
  | nan, _ | _, nan => nan
  | infinite m, infinite n => infinite (m != n)
  | infinite m, finite q | finite q, infinite m =>
    if q = 0 then nan else infinite (m != decide (q < 0))

def div : Number → Number → Number
  | finite a, finite b =>
    if b = 0 then if a = 0 then nan else infinite (decide (a < 0))
    else finite (round (a / b))
  | nan, _ | _, nan => nan
  | infinite _, infinite _ => nan
  | infinite m, finite q => infinite (m != decide (q < 0))
  | finite _, infinite _ => 0

def truncate (q : Rat) : Int :=
  if q < 0 then q.ceil else q.floor

-- The remainder has the sign of the dividend and is exact.
def rem : Number → Number → Number
  | finite a, finite b => if b = 0 then nan else finite (a - b * truncate (a / b))
  | finite a, infinite _ => finite a
  | _, _ => nan

def less : Number → Number → Bool
  | finite a, finite b => a < b
  | nan, _ | _, nan => false
  | infinite m, infinite n => m && !n
  | infinite m, finite _ => m
  | finite _, infinite n => !n

def same : Number → Number → Bool
  | nan, _ | _, nan => false
  | a, b => a = b

def whole? : Number → Option Int
  | finite q => some (truncate q)
  | _ => none

def toInt32 (x : Number) : Int32 :=
  Int32.ofInt (x.whole?.getD 0)

def toUInt16 (x : Number) : UInt16 :=
  UInt16.ofInt (x.whole?.getD 0)

def toUInt8 (x : Number) : UInt8 :=
  UInt8.ofInt (x.whole?.getD 0)

end Number

end ZCode.Script
