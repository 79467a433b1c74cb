import ZCode.Fault
import ZCode.Op

set_option autoImplicit false

namespace ZCode

structure Shape where
  stores : Bool := false
  branches : Bool := false
  endsBlock : Bool := false
  pauses : Bool := false
  -- Signedness by operand position; later positions are unsigned.
  signed : List Bool := []
  deriving DecidableEq, Repr

def supportedVersion (version : UInt8) : Bool :=
  3 ≤ version && version ≤ 8

def packedMultiplier (version : UInt8) : UInt32 :=
  if version ≤ 3 then 2 else if version == 8 then 8 else 4

namespace Shape

def signedAt (shape : Shape) (i : Nat) : Bool :=
  shape.signed.getD i false

def ends : Shape := { endsBlock := true }
def pausing : Shape := { endsBlock := true, pauses := true }
def branching : Shape := { branches := true }
def storing : Shape := { stores := true }
def storingAndBranching : Shape := { stores := true, branches := true }
def storingAndPausing : Shape := { stores := true, endsBlock := true, pauses := true }
def branchingAndPausing : Shape := { branches := true, endsBlock := true, pauses := true }

def row? (version : UInt8) : Op → Option Shape
  | .je | .jin | .test | .testAttr | .jz | .verify | .piracy | .checkArgCount => some branching
  | .jl | .jg => some { branching with signed := [true, true] }
  | .decChk | .incChk => some { branching with signed := [false, true] }
  | .or | .and | .getProp | .getPropAddr | .getNextProp | .add | .sub | .mul | .getParent
  | .getPropLen | .load | .not | .setFont | .saveUndo | .checkUnicode | .gestalt => some storing
  | .loadw | .loadb | .logShift => some { storing with signed := [false, true] }
  | .div | .mod | .artShift => some { storing with signed := [true, true] }
  | .random => some { storing with signed := [true] }
  | .getSibling | .getChild | .scanTable => some storingAndBranching
  | .call2s | .call2n | .throw | .call1s | .ret | .rtrue | .rfalse | .printRet | .restart
  | .retPopped | .callVs | .callVs2 | .outputStream | .callVn | .callVn2 => some ends
  | .jump => some { ends with signed := [true] }
  | .quit | .inputStream => some pausing
  | .readChar | .saveTable | .restoreTable => some storingAndPausing
  | .storew | .storeb => some { signed := [false, true] }
  | .printNum | .eraseWindow => some { signed := [true] }
  | .save | .restore => some (if version < 4 then branchingAndPausing else storingAndPausing)
  | .showStatus => if version < 4 then some pausing else none
  | .notOrCall1n => some (if version < 5 then storing else ends)
  | .popOrCatch => if version < 5 then none else some storing
  | .read => some (if version < 5 then pausing else storingAndPausing)
  | _ => none

def of (version : UInt8) (opcode : UInt16) : Shape :=
  ((Op.ofNumber? opcode).bind (row? version)).getD {}

def table (version : UInt8) : Except Fault (Op → Option Shape) :=
  if supportedVersion version then .ok (row? version) else .error (.unsupportedVersion version)

def rows (version : UInt8) : List Op :=
  Op.all.filter fun op => (row? version op).isSome

end Shape

end ZCode
