import ZCode.Script.Machine
import ZCode.Script.Tree

set_option autoImplicit false

namespace ZCode.Script

inductive Exception where
  | typeError
  | rangeError
  | referenceError
  | endless
  deriving DecidableEq, Repr

structure State where
  machine : Machine
  scope : List (String × Value) := []

abbrev Run (α : Type) := ExceptT Exception (StateM State) α

inductive Place where
  | named (x : String)
  | member (object : Value) (field : String)
  | element (object key : Value)

def getMachine : Run Machine := do
  return (← get).machine

def modifyMachine (f : Machine → Machine) : Run Unit :=
  modify fun s => { s with machine := f s.machine }

def declare (x : String) (v : Value) : Run Unit :=
  modify fun s => { s with scope := (x, v) :: s.scope.filter (·.1 != x) }

def lookup (x : String) : Run Value := do
  match (← get).scope.lookup x with
  | some v => return v
  | none => throw .referenceError

def runtimeMember (m : Machine) : String → Value
  | "l" => .object .locals
  | "s" => .object .stack
  | "sp" => .ofInt m.sp
  | "pc" => m.pc
  | "stop" => m.stop
  | "quit" => m.quit
  | "frames" => .object .frames
  | "frameptr" => m.framePointer
  | "m" | "ram" => .object .memory
  | "jeq" => .object (.method .jeq)
  | "variable" => .object (.method .value)
  | "indirect" => .object (.method .indirect)
  | "incdec" => .object (.method .incdec)
  | name => .object (.method (.host name))

def memoryMember : String → Value
  | "getUint8" => .object (.method .getUint8)
  | "getUint16" => .object (.method .getUint16)
  | "getInt16" => .object (.method .getInt16)
  | "setUint8" => .object (.method .setUint8)
  | "setUint16" => .object (.method .setUint16)
  | _ => .undefined

-- Frames are kept by the host; here there are none.
def framesMember : String → Value
  | "length" => .ofInt 0
  | "pop" => .object (.method .popFrame)
  | _ => .undefined

def getMember (v : Value) (field : String) : Run Value :=
  match v with
  | .object .runtime => do return runtimeMember (← getMachine) field
  | .object .memory => return memoryMember field
  | .object .frames => return framesMember field
  | .undefined | .null => throw .typeError
  | _ => return .undefined

def wholeKey? (key : Value) : Option Int :=
  match key with
  | .number (.finite q) => if q.den = 1 then some q.num else none
  | _ => none

def getIndex (v key : Value) : Run Value :=
  match v with
  | .object .locals => do
    let m ← getMachine
    return ((wholeKey? key).map (Machine.wordIn m.locals)).getD .undefined
  | .object .stack => do
    let m ← getMachine
    return ((wholeKey? key).map (Machine.wordIn m.stack)).getD .undefined
  | .undefined | .null => throw .typeError
  | _ => return .undefined

def setMember (v : Value) (field : String) (x : Value) : Run Unit :=
  match v, field with
  | .object .runtime, "sp" => modifyMachine fun m => { m with sp := x.toInt }
  | .object .runtime, "pc" => modifyMachine fun m => { m with pc := x }
  | .object .runtime, "stop" => modifyMachine fun m => { m with stop := x }
  | .object .runtime, "quit" => modifyMachine fun m => { m with quit := x }
  | .object .runtime, "frameptr" => modifyMachine fun m => { m with framePointer := x }
  | .undefined, _ | .null, _ => throw .typeError
  | _, _ => return ()

def setIndex (v key x : Value) : Run Unit :=
  match v, wholeKey? key with
  | .object .locals, some i => modifyMachine fun m => { m with locals := Machine.setWordIn m.locals i x }
  | .object .stack, some i => modifyMachine fun m => { m with stack := Machine.setWordIn m.stack i x }
  | .undefined, _ | .null, _ => throw .typeError
  | _, _ => return ()

def getPlace : Place → Run Value
  | .named x => lookup x
  | .member v field => getMember v field
  | .element v key => getIndex v key

def setPlace (p : Place) (x : Value) : Run Unit :=
  match p with
  | .named name => do
    let _ ← lookup name
    declare name x
  | .member v field => setMember v field x
  | .element v key => setIndex v key x

def applyUnary (op : UnaryOp) (v : Value) : Value :=
  match op with
  | .negate => .number v.toNumber.neg
  | .complement => .ofInt (~~~ v.toNumber.toInt32).toInt
  | .not => .bool !v.truthy

def onInt32 (f : Int32 → Int32 → Int32) (a b : Number) : Value :=
  .ofInt (f a.toInt32 b.toInt32).toInt

-- Shifts take the low five bits of their amount.
def applyBinary (op : BinaryOp) (a b : Value) : Value :=
  let x := a.toNumber
  let y := b.toNumber
  match op with
  | .bitOr => onInt32 (· ||| ·) x y
  | .bitAnd => onInt32 (· &&& ·) x y
  | .same => .bool (a.same b)
  | .less => .bool (x.less y)
  | .greater => .bool (y.less x)
  | .shiftLeft => onInt32 (· <<< ·) x y
  | .shiftRight => onInt32 (· >>> ·) x y
  | .add => .number (x.add y)
  | .sub => .number (x.sub y)
  | .mul => .number (x.mul y)
  | .div => .number (x.div y)
  | .rem => .number (x.rem y)

def offset (v : Value) : Run Nat :=
  match v.toNumber with
  | .nan => return 0
  | .infinite _ => throw .rangeError
  | .finite q =>
    let n := Number.truncate q
    if n < 0 then throw .rangeError else return n.toNat

def readByte (v : Value) : Run UInt8 := do
  let pos ← offset v
  match (← getMachine).memory.bytes[pos]? with
  | some b => return b
  | none => throw .rangeError

def readWord (v : Value) : Run UInt16 := do
  let pos ← offset v
  let m ← getMachine
  match m.memory.bytes[pos]?, m.memory.bytes[pos + 1]? with
  | some high, some low => return Image.word high low
  | _, _ => throw .rangeError

def writeBytes (v : Value) (bytes : List UInt8) : Run Unit := do
  let pos ← offset v
  if (← getMachine).memory.length < pos + bytes.length then throw .rangeError
  else modifyMachine fun m => { m with memory := m.memory.write pos bytes }

def writeWord (v : Value) (w : UInt16) : Run Unit :=
  writeBytes v [(w >>> 8).toUInt8, w.toUInt8]

inductive Home where
  | element (object : Object) (key : Value)
  | memory (offset : Value)

def home (m : Machine) (v : Value) : Home :=
  if v.same (.ofInt 0) then .element .stack (.ofInt (m.sp - 1))
  else if v.toNumber.less (.ofInt 16) then .element .locals (applyBinary .sub v (.ofInt 1))
  else .memory (applyBinary .add (.ofWord m.globals)
    (applyBinary .mul (.ofInt 2) (applyBinary .sub v (.ofInt 16))))

def readVariable (v : Value) : Run Value := do
  match home (← getMachine) v with
  | .element o key => getIndex (.object o) key
  | .memory pos => do return .ofWord (← readWord pos)

def writeVariable (v x : Value) : Run Unit := do
  match home (← getMachine) v with
  | .element o key => setIndex (.object o) key x
  | .memory pos => writeWord pos x.toNumber.toUInt16

def argument (vs : List Value) (i : Nat) : Value :=
  vs.getD i .undefined

def applyMethod (m : Method) (vs : List Value) : Run Value :=
  match m with
  | .jeq => return .ofInt (if vs.tail.any (·.same (argument vs 0)) then 1 else 0)
  | .value => readVariable (argument vs 0)
  | .indirect =>
    if vs.length = 1 then readVariable (argument vs 0)
    else do
      writeVariable (argument vs 0) (argument vs 1)
      return .undefined
  | .incdec => do
    let old ← readVariable (argument vs 0)
    let new := applyBinary .bitAnd (applyBinary .add old (argument vs 1)) (.ofInt 0xFFFF)
    writeVariable (argument vs 0) new
    return new
  | .getUint8 => do return .ofInt (← readByte (argument vs 0)).toNat
  | .getUint16 => do return .ofWord (← readWord (argument vs 0))
  | .getInt16 => do return .ofInt (← readWord (argument vs 0)).toInt16.toInt
  | .setUint8 => do
    writeBytes (argument vs 0) [(argument vs 1).toNumber.toUInt8]
    return .undefined
  | .setUint16 => do
    writeWord (argument vs 0) (argument vs 1).toNumber.toUInt16
    return .undefined
  | .popFrame => return .undefined
  | .host name => do
    modifyMachine fun m => { m with calls := ⟨name, Value.recordedAll vs⟩ :: m.calls }
    return .ofInt 0

def apply (callee : Value) (vs : List Value) : Run Value :=
  match callee with
  | .object (.method m) => applyMethod m vs
  | _ => throw .typeError

mutual

def eval : Expr → Run Value
  | .number n => return .ofInt n
  | .null => return .null
  | .name x => lookup x
  | .array items => do return .array (← evalAll items)
  | .member object field => do getMember (← eval object) field
  | .index object key => do
    let v ← eval object
    let k ← eval key
    getIndex v k
  | .call callee arguments => do
    let f ← eval callee
    let vs ← evalAll arguments
    apply f vs
  | .increment target => do
    let p ← evalPlace target
    let old ← getPlace p
    setPlace p (applyBinary .add old (.ofInt 1))
    return .number old.toNumber
  | .decrement target => do
    let p ← evalPlace target
    let new := applyBinary .sub (← getPlace p) (.ofInt 1)
    setPlace p new
    return new
  | .unary op e => do return applyUnary op (← eval e)
  | .binary op a b => do
    let x ← eval a
    let y ← eval b
    return applyBinary op x y
  | .assign target value => do
    let p ← evalPlace target
    let x ← eval value
    setPlace p x
    return x
  | .sequence a b => do
    let _ ← eval a
    eval b

def evalPlace : Expr → Run Place
  | .name x => return .named x
  | .member object field => do return .member (← eval object) field
  | .index object key => do
    let v ← eval object
    let k ← eval key
    return .element v k
  | _ => throw .referenceError

def evalAll : List Expr → Run (List Value)
  | [] => return []
  | e :: rest => do
    let v ← eval e
    let vs ← evalAll rest
    return v :: vs

end

inductive Completion where
  | normal
  | returned (v : Value)

def loopWhile (test : Run Value) (body : Run Completion) : Nat → Run Completion
  | 0 => throw .endless
  | rounds + 1 => do
    if (← test).truthy then
      match ← body with
      | .normal => loopWhile test body rounds
      | .returned v => return .returned v
    else return .normal

-- Loops here test at most one word of the stack a round, so one that has gone on for longer than
-- the stack has words never ends.
def maxRounds : Nat := 1100

mutual

def exec : Stmt → Run Completion
  | .empty => return .normal
  | .declare bindings => do
    declareAll bindings
    return .normal
  | .expr e => do
    let _ ← eval e
    return .normal
  | .when test body => do
    if (← eval test).truthy then exec body else return .normal
  | .loop test body => loopWhile (eval test) (exec body) maxRounds
  | .block body => execAll body
  | .ret none => return .returned .undefined
  | .ret (some e) => do return .returned (← eval e)

def declareAll : List (String × Expr) → Run Unit
  | [] => return ()
  | (x, e) :: rest => do
    declare x (← eval e)
    declareAll rest

def execAll : List Stmt → Run Completion
  | [] => return .normal
  | s :: rest => do
    match ← exec s with
    | .normal => execAll rest
    | .returned v => return .returned v

end

inductive Outcome where
  | notCompiled
  | thrown (e : Exception)
  | finished (value : Option Int)
  deriving DecidableEq, Repr

def runBody (m : Machine) (body : List Stmt) : Outcome × Machine :=
  match (execAll body).run { machine := m, scope := [("e", .object .runtime)] } with
  | (.ok (.returned .undefined), s) | (.ok .normal, s) => (.finished none, s.machine)
  | (.ok (.returned v), s) => (.finished (some v.toInt), s.machine)
  | (.error e, s) => (.thrown e, s.machine)

def run (m : Machine) (code : String) : Outcome × Machine :=
  match parse? code with
  | some body => runBody m body
  | none => (.notCompiled, m)

end ZCode.Script
