import ZCode.Statement

set_option autoImplicit false

namespace ZCode

open ZCode.Text

inductive Safety where
  | pending
  | safe
  | suspends
  deriving DecidableEq, Repr

namespace Safety

def text : Safety → String
  | pending => "pending"
  | safe => "safe"
  | suspends => "unsafe"

def ofInstructions (is : List Instruction) : Safety :=
  if is.isEmpty then pending
  else if is.any (·.pauses) then suspends
  else safe

end Safety

structure Block where
  addr : UInt32
  instructions : List Instruction
  deriving DecidableEq, Repr

inductive Ending where
  | complete
  | tooLong
  | broken (fault : Fault)
  deriving DecidableEq, Repr

structure Walk where
  instructions : List Instruction
  ending : Ending
  deriving DecidableEq, Repr

namespace Block

def last? (b : Block) : Option Instruction :=
  b.instructions.getLast?

def listing (version : UInt8) (b : Block) : String :=
  String.join (b.instructions.map fun i => i.listing version ++ "\n")

-- Walks from instruction to instruction until one ends the block, at most `limit` of them; `met`
-- holds those already met, the latest first.
def walkFrom (img : Image) (p : Profile) : Nat → UInt32 → List Instruction → Walk
  | 0, _, met => ⟨met.reverse, .tooLong⟩
  | limit + 1, pos, met =>
    match Instruction.decode img p pos with
    | .error fault => ⟨met.reverse, .broken fault⟩
    | .ok i =>
      if i.endsBlock then ⟨(i :: met).reverse, .complete⟩
      else walkFrom img p limit i.next (i :: met)

-- The walk under a cap on instructions, 0 for none: without a cap the image ends the walk, for
-- every instruction takes a byte.
def walk (img : Image) (p : Profile) (cap : Nat) (addr : UInt32) : Walk :=
  walkFrom img p (if cap = 0 then img.length + 1 else cap) addr []

def decode (img : Image) (p : Profile) (cap : Nat) (addr : UInt32) : Except Fault Block :=
  if img.length ≤ addr.toNat then .error (.blockOutside addr img.length)
  else
    let w := walk img p cap addr
    match w.ending with
    | .complete => .ok ⟨addr, w.instructions⟩
    | .tooLong => .error (.blockTooLong addr w.instructions.length)
    | .broken fault => .error fault

def callTarget? (p : Profile) (i : Instruction) : Option UInt32 :=
  let isCall := match i.op? with
    | some .call2s | some .call2n | some .call1s | some .callVs | some .callVs2 | some .callVn
    | some .callVn2 => true
    | some .notOrCall1n => 5 ≤ p.version
    | _ => false
  match i.operands with
  | ⟨.constant, routine⟩ :: _ =>
    if isCall && routine != 0 then some (routine.toUInt32 * packedMultiplier p.version) else none
  | _ => none

end Block

structure Fragment where
  addr : UInt32
  code : String
  next : UInt32
  instructions : Int
  calls : List UInt32 := []
  pauses : Bool := false
  deriving DecidableEq, Repr

namespace Fragment

def safety (f : Fragment) : Safety :=
  if f.instructions == 0 then .pending
  else if f.pauses then .suspends
  else .safe

def prologue : String := "var l=e.l,s=e.s,t=0;"

def line (i : Instruction) (statement : String) : String :=
  s!"\n/* {i.addr}/{i.opcode} */ " ++ statement ++ ";"

def ofBlock (p : Profile) (b : Block) : Except Fault Fragment := do
  let statements ← b.instructions.mapM (Statement.render p)
  return { addr := b.addr
           code := prologue ++ String.join (List.zipWith line b.instructions statements)
           next := (b.last?.map Instruction.next).getD b.addr
           instructions := b.instructions.length
           calls := b.instructions.filterMap (Block.callTarget? p)
           pauses := b.instructions.any (·.pauses) }

def generate (img : Image) (p : Profile) (cap : Nat) (addr : UInt32) : Except Fault Fragment := do
  let b ← Block.decode img p cap addr
  ofBlock p b

end Fragment

namespace Block

def returns (opcode : UInt16) : Bool :=
  [Op.rtrue, .rfalse, .ret, .retPopped, .printRet, .quit, .restart, .throw, .jump].any
    (·.number == opcode)

def routineStart (img : Image) (version : UInt8) (addr : UInt32) : UInt32 × Bool :=
  match img.bytes[addr.toNat]? with
  | none => (0, false)
  | some locals =>
    let start := if version < 5 then addr + 1 + 2 * locals.toUInt32 else addr + 1
    (start, start.toNat < img.length)

def continuations (b : Block) : List UInt32 :=
  b.instructions.filterMap Instruction.destination? ++
    match b.last? with
    | none => []
    | some last =>
      (match last.operands with
        | [⟨.signedConstant, offset⟩] =>
          if last.opcode == Op.jump.number then [last.jumpTarget offset.toInt16.toInt] else []
        | _ => [])
        ++ (if returns last.opcode then [] else [last.next])

def entries (img : Image) (version : UInt8) (calls : List UInt32) : List UInt32 :=
  calls.filterMap fun call =>
    match routineStart img version call with
    | (start, true) => some start
    | (_, false) => none

end Block

end ZCode
