import ZCode.Shape

set_option autoImplicit false

namespace ZCode

open ZCode.Text

-- Where an operand's value comes from, and whether it is read as a signed word. A reserved code
-- names no source of its own: it is listed as a global and read as a signed one.
inductive OperandKind where
  | constant
  | signedConstant
  | stack
  | signedStack
  | slot
  | signedSlot
  | global
  | signedGlobal
  | reserved (code : UInt8)
  deriving DecidableEq, Repr

namespace OperandKind

def ofCode : UInt8 → OperandKind
  | 0 => constant
  | 1 => signedConstant
  | 2 => stack
  | 3 => signedStack
  | 4 => slot
  | 5 => signedSlot
  | 6 => global
  | 7 => signedGlobal
  | code => reserved code

def code : OperandKind → UInt8
  | constant => 0
  | signedConstant => 1
  | stack => 2
  | signedStack => 3
  | slot => 4
  | signedSlot => 5
  | global => 6
  | signedGlobal => 7
  | reserved code => code

def signed : OperandKind → Bool
  | signedConstant | signedStack | signedSlot | signedGlobal => true
  | _ => false

end OperandKind

-- An operand. Its value is the constant, the local slot from 0, or the address of the global; stack
-- operands do not use it.
structure Operand where
  kind : OperandKind
  value : UInt16 := 0
  deriving DecidableEq, Repr

namespace Operand

def signed (op : Operand) : Bool :=
  op.kind.signed

def signedValue (op : Operand) : Int :=
  op.value.toInt16.toInt

def text (op : Operand) : String :=
  match op.kind with
  | .constant => s!"#{op.value}"
  | .signedConstant => s!"#{op.signedValue}"
  | .stack | .signedStack => "sp"
  | .slot | .signedSlot => "L" ++ padLeft 2 '0' (toString op.value)
  | _ => "G@0x" ++ padLeft 4 '0' (hex op.value.toNat)

end Operand

-- A branch suffix. Offsets 0 and 1 return false and true instead of jumping.
structure Branch where
  ifTrue : Bool
  offset : Int16
  deriving DecidableEq, Repr

namespace Branch

def returns (b : Branch) : Bool :=
  b.offset == 0 || b.offset == 1

end Branch

structure Instruction where
  addr : UInt32
  opcode : UInt16
  operands : List Operand := []
  result : Option UInt8 := none
  stores : Bool := false
  branch : Option Branch := none
  -- There is a branch and the machine does not pause.
  branches : Bool := false
  text : Option UInt32 := none
  next : UInt32
  endsBlock : Bool := false
  pauses : Bool := false
  deriving DecidableEq, Repr

namespace Instruction

def length (i : Instruction) : UInt32 :=
  i.next - i.addr

def op? (i : Instruction) : Option Op :=
  Op.ofNumber? i.opcode

def name (version : UInt8) (i : Instruction) : String :=
  opcodeName version i.opcode

def jumpTarget (i : Instruction) (offset : Int) : UInt32 :=
  UInt32.ofInt (i.next.toNat + offset - 2)

def destination? (i : Instruction) : Option UInt32 :=
  match i.branch with
  | some b => if b.returns then none else some (i.jumpTarget b.offset.toInt)
  | none => none

def variableName (v : UInt8) : String :=
  if v == 0 then "sp"
  else if v < 16 then "L" ++ padLeft 2 '0' (toString (v - 1))
  else "G" ++ padLeft 2 '0' (hex (v - 16).toNat)

private def targetName (i : Instruction) (b : Branch) : String :=
  if b.offset == 0 then "rfalse"
  else if b.offset == 1 then "rtrue"
  else "0x" ++ hex (i.jumpTarget b.offset.toInt).toNat

def listing (version : UInt8) (i : Instruction) : String :=
  let operands := ",".intercalate (i.operands.map Operand.text)
  padLeft 5 ' ' (hex i.addr.toNat) ++ ": " ++ i.name version
    ++ (if i.operands.isEmpty then "" else " " ++ operands)
    ++ (match i.result with
      | some v => " -> " ++ variableName v
      | none => "")
    ++ (match i.branch with
      | some b => " ?" ++ (if b.ifTrue then "" else "~") ++ i.targetName b
      | none => "")
    ++ (match i.text with
      | some addr => " text@0x" ++ hex addr.toNat
      | none => "")

end Instruction

end ZCode
