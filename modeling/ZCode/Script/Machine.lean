import ZCode.Image
import ZCode.Script.Number

set_option autoImplicit false

namespace ZCode.Script

inductive Method where
  | jeq
  | value
  | indirect
  | incdec
  | getUint8
  | getUint16
  | getInt16
  | setUint8
  | setUint16
  | popFrame
  | host (name : String)
  deriving DecidableEq, Repr

inductive Object where
  | runtime
  | locals
  | stack
  | memory
  | frames
  | method (m : Method)
  deriving DecidableEq, Repr

inductive Value where
  | undefined
  | null
  | bool (b : Bool)
  | number (x : Number)
  | object (o : Object)
  | array (items : List Value)
  deriving Repr

namespace Value

def ofInt (n : Int) : Value :=
  number (.ofInt n)

def ofWord (w : UInt16) : Value :=
  ofInt w.toNat

def toNumber : Value → Number
  | null => 0
  | bool b => .ofInt (if b then 1 else 0)
  | number x => x
  | undefined | object _ | array _ => .nan

def truthy : Value → Bool
  | undefined | null => false
  | bool b => b
  | number .nan => false
  | number x => x != 0
  | object _ | array _ => true

def same : Value → Value → Bool
  | undefined, undefined | null, null => true
  | bool a, bool b => a == b
  | number a, number b => a.same b
  | object a, object b => a == b
  | _, _ => false

-- The integer that the host records for a number; one without a whole part is recorded as the least
-- 64-bit integer.
def recordedNumber (x : Number) : Int :=
  x.whole?.getD (-9223372036854775808)

mutual

def recorded : Value → List Int
  | number x => [recordedNumber x]
  | array items => recordedAll items
  | _ => []

def recordedAll : List Value → List Int
  | [] => []
  | v :: rest => recorded v ++ recordedAll rest

end

def toInt (v : Value) : Int :=
  v.toNumber.whole?.getD 0

end Value

structure HostCall where
  name : String
  arguments : List Int
  deriving DecidableEq, Repr

structure Machine where
  memory : Image
  globals : UInt16
  locals : Array UInt16 := Array.replicate 15 0
  stack : Array UInt16 := Array.replicate 1024 0
  sp : Int := 0
  pc : Value := .ofInt 0
  stop : Value := .ofInt 0
  quit : Value := .ofInt 0
  framePointer : Value := .ofInt 0
  calls : List HostCall := []

namespace Machine

def wordIn (words : Array UInt16) (i : Int) : Value :=
  match words[i.toNat]? with
  | some w => if 0 ≤ i then .ofWord w else .undefined
  | none => .undefined

def setWordIn (words : Array UInt16) (i : Int) (v : Value) : Array UInt16 :=
  if 0 ≤ i then words.setIfInBounds i.toNat v.toNumber.toUInt16 else words

def setLocal (m : Machine) (i : Int) (v : UInt16) : Machine :=
  { m with locals := setWordIn m.locals i (.ofWord v) }

def local? (m : Machine) (i : Int) : Option UInt16 :=
  if 0 ≤ i then m.locals[i.toNat]? else none

def push (m : Machine) (v : UInt16) : Machine :=
  { m with stack := setWordIn m.stack m.sp (.ofWord v), sp := m.sp + 1 }

def pop (m : Machine) : Except Fault (UInt16 × Machine) :=
  if m.sp = 0 then .error .stackUnderflow
  else .ok ((wordIn m.stack (m.sp - 1)).toNumber.toUInt16, { m with sp := m.sp - 1 })

def stopped (m : Machine) : Bool :=
  m.stop.toInt != 0

end Machine

end ZCode.Script
