import ZCode.Image
import ZCode.Instruction.Basic

set_option autoImplicit false

namespace ZCode

structure Profile where
  version : UInt8
  globals : UInt16
  deriving DecidableEq, Repr

def Profile.globalAddr (p : Profile) (v : UInt8) : UInt16 :=
  p.globals + (v - 16).toUInt16 * 2

inductive Encoding where
  | large
  | small
  | byNumber
  deriving DecidableEq, Repr

namespace Encoding

def ofCode? : UInt8 → Option Encoding
  | 0 => some large
  | 1 => some small
  | 2 => some byNumber
  | _ => none

def ofTypes (types : UInt8) : List Encoding :=
  let codes := [types >>> 6, types >>> 4, types >>> 2, types].map (· &&& 3)
  (codes.map ofCode?).takeWhile Option.isSome |>.filterMap id

end Encoding

abbrev Reading (α : Type) := StateT UInt32 (Except Overrun) α

namespace Image

def byte (img : Image) : Reading UInt8 := fun pos => do
  let b ← img.u8 pos
  return (b, pos + 1)

def wordAt (img : Image) : Reading UInt16 := fun pos => do
  let w ← img.u16 pos
  return (w, pos + 2)

-- Passes words up to the first one with its top bit set, that one included; `fuel` bounds the
-- number of words.
def passText (img : Image) : Nat → Reading Unit
  | 0, pos => .error ⟨2, pos, img.length⟩
  | fuel + 1, pos =>
    match img.u16 pos with
    | .error o => .error o
    | .ok w => if w &&& 0x8000 == 0 then img.passText fuel (pos + 2) else .ok ((), pos + 2)

end Image

namespace Instruction

inductive Form where
  | fixed (opcode : UInt16) (encodings : List Encoding)
  | typed (opcode : UInt16)
  | extended
  deriving DecidableEq, Repr

def longEncoding (isVariable : Bool) : Encoding :=
  if isVariable then .byNumber else .small

-- Long below 0x80, short below 0xB0, no operands below 0xC0 but for the extension byte 0xBE,
-- variable from 0xC0, where bytes below 0xE0 number the two-operand opcodes.
def form (first : UInt8) : Form :=
  if first < 0x80 then
    .fixed (first &&& 0x1F).toUInt16
      [longEncoding (first &&& 0x40 != 0), longEncoding (first &&& 0x20 != 0)]
  else if first < 0xB0 then
    .fixed (first &&& 0x8F).toUInt16 (Encoding.ofTypes (first <<< 2 ||| 0x3F))
  else if first == 0xBE then .extended
  else if first < 0xC0 then .fixed first.toUInt16 []
  else if first < 0xE0 then .typed (first &&& 0x1F).toUInt16
  else .typed first.toUInt16

def hasSecondTypes (opcode : UInt16) : Bool :=
  opcode == Op.callVs2.number || opcode == Op.callVn2.number

-- Opcodes with a store byte though their shape does not store: the calls that give their store
-- variable to the host, and `restore_undo`, whose result is written on resumption.
def storesOnResume (opcode : UInt16) : Bool :=
  [Op.call2s, .call1s, .callVs, .callVs2, .restoreUndo].any (·.number == opcode)

def hasText (opcode : UInt16) : Bool :=
  opcode == Op.print.number || opcode == Op.printRet.number

def readTypes (img : Image) (opcode : UInt16) : Reading (List Encoding) := do
  let first := Encoding.ofTypes (← img.byte)
  if hasSecondTypes opcode then
    return first ++ Encoding.ofTypes (← img.byte)
  return first

def readEncodings (img : Image) (opcode : UInt16) :
    Option (List Encoding) → Reading (List Encoding)
  | some known => pure known
  | none => readTypes img opcode

def variableOperand (p : Profile) (signed : Bool) (v : UInt8) : Operand :=
  if v == 0 then ⟨if signed then .signedStack else .stack, 0⟩
  else if v < 16 then ⟨if signed then .signedSlot else .slot, (v - 1).toUInt16⟩
  else ⟨if signed then .signedGlobal else .global, p.globalAddr v⟩

-- A small constant is a byte from 0 to 255 whether or not its position is signed.
def readOperand (img : Image) (p : Profile) (signed : Bool) : Encoding → Reading Operand
  | .large => do return ⟨if signed then .signedConstant else .constant, ← img.wordAt⟩
  | .small => do return ⟨if signed then .signedConstant else .constant, (← img.byte).toUInt16⟩
  | .byNumber => do return variableOperand p signed (← img.byte)

def readOperands (img : Image) (p : Profile) (shape : Shape) :
    Nat → List Encoding → Reading (List Operand)
  | _, [] => pure []
  | i, e :: rest => do
    let operand ← readOperand img p (shape.signedAt i) e
    return operand :: (← readOperands img p shape (i + 1) rest)

def readBranch (img : Image) : Reading Branch := do
  let first ← img.byte
  let ifTrue := first &&& 0x80 != 0
  if first &&& 0x40 != 0 then
    return ⟨ifTrue, (first &&& 0x3F).toUInt16.toInt16⟩
  let raw := Image.word (first &&& 0x3F) (← img.byte)
  return ⟨ifTrue, (raw <<< 2).toInt16 >>> 2⟩

def readIf {α : Type} (present : Bool) (read : Reading α) : Reading (Option α) :=
  if present then some <$> read else pure none

def readText (img : Image) : Reading UInt32 := do
  let start ← get
  img.passText img.length
  return start

def readBody (img : Image) (p : Profile) (addr : UInt32) (opcode : UInt16)
    (encodings : Option (List Encoding)) : Reading Instruction := do
  let shape := Shape.of p.version opcode
  let encodings ← readEncodings img opcode encodings
  let operands ← readOperands img p shape 0 encodings
  let result ← readIf (shape.stores || storesOnResume opcode) img.byte
  let branch ← readIf shape.branches (readBranch img)
  let text ← readIf (hasText opcode) (readText img)
  let next ← get
  return { addr, opcode, operands, result, stores := shape.stores, branch,
           branches := shape.branches && !shape.pauses, text, next,
           endsBlock := shape.endsBlock, pauses := shape.pauses }

def finish (img : Image) (p : Profile) (addr : UInt32) (opcode : UInt16)
    (encodings : Option (List Encoding)) (pos : UInt32) : Except Fault Instruction :=
  match (readBody img p addr opcode encodings).run pos with
  | .ok (i, _) => .ok i
  | .error o => .error (.decode opcode addr o)

-- The instruction at an address. A fault names the opcode as far as it was read: 0 without its
-- first byte, the first extended opcode without its second.
def decode (img : Image) (p : Profile) (addr : UInt32) : Except Fault Instruction :=
  match img.u8 addr with
  | .error o => .error (.decode 0 addr o)
  | .ok first =>
    match form first with
    | .fixed opcode encodings => finish img p addr opcode (some encodings) (addr + 1)
    | .typed opcode => finish img p addr opcode none (addr + 1)
    | .extended =>
      match img.u8 (addr + 1) with
      | .error o => .error (.decode extendedBase addr o)
      | .ok second => finish img p addr (extendedBase + second.toUInt16) none (addr + 2)

end Instruction

end ZCode
