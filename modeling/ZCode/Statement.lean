import ZCode.Instruction.Decode

-- The script statement of an instruction. A statement runs with `e` the host's runtime object, `l`
-- the locals, `s` the stack with its depth `e.sp`, and `t` a scratch variable; `e.m` and `e.ram`
-- read and write memory and `e.pc` is where execution goes on. A missing operand reads `null`.

set_option autoImplicit false

namespace ZCode.Statement

def operand (op : Operand) : String :=
  match op.kind with
  | .constant => toString op.value
  | .signedConstant => toString op.signedValue
  | .stack => "s[--e.sp]"
  | .signedStack => "(s[--e.sp]<<16>>16)"
  | .slot => s!"l[{op.value}]"
  | .signedSlot => s!"(l[{op.value}]<<16>>16)"
  | .global => s!"e.m.getUint16({op.value})"
  | .signedGlobal | .reserved _ => s!"e.m.getInt16({op.value})"

def list (ops : List String) : String :=
  ",".intercalate ops

def nth (ops : List String) (i : Nat) : String :=
  ops.getD i "null"

def host (method : String) (ops : List String) : String :=
  "e." ++ method ++ "(" ++ list ops ++ ")"

-- Routine, store variable (-1 to drop the result), return address, arguments.
def call (i : Instruction) (ops : List String) : String :=
  let storer := match i.result with
    | some v => toString v
    | none => "-1"
  "e.call(" ++ nth ops 0 ++ "," ++ storer ++ s!",{i.next},[" ++ list ops.tail ++ "])"

-- Where a save or restore resumes: at the branch bytes in version 3, else at the store byte.
def resumption (p : Profile) (i : Instruction) : UInt32 :=
  if p.version == 3 then i.addr + 1 else i.next - 1

def storeVariable (i : Instruction) : Except Fault UInt8 :=
  match i.result with
  | some v => .ok v
  | none => .error (.noStoreVariable i.opcode i.addr)

def inlineText (i : Instruction) : Except Fault UInt32 :=
  match i.text with
  | some addr => .ok addr
  | none => .error (.noInlineText i.opcode i.addr)

def body (p : Profile) (i : Instruction) (ops : List String) : Op → Except Fault String
  | .je => .ok <| match ops with
    | [a, b] => a ++ "===" ++ b
    | _ => host "jeq" ops
  | .jl => .ok ("<".intercalate ops)
  | .jg => .ok (">".intercalate ops)
  | .decChk => .ok ("(e.incdec(" ++ nth ops 0 ++ ",-1)<<16>>16)<" ++ nth ops 1)
  | .incChk => .ok ("(e.incdec(" ++ nth ops 0 ++ ",1)<<16>>16)>" ++ nth ops 1)
  | .jin => .ok (host "jin" ops)
  | .test => .ok (host "test" ops)
  | .or => .ok ("|".intercalate ops)
  | .and => .ok ("&".intercalate ops)
  | .testAttr => .ok (host "test_attr" ops)
  | .setAttr => .ok (host "set_attr" ops)
  | .clearAttr => .ok (host "clear_attr" ops)
  | .store => .ok ("e.indirect(" ++ nth ops 0 ++ "," ++ nth ops 1 ++ ")")
  | .insertObj => .ok (host "insert_obj" ops)
  | .loadw => .ok ("e.m.getUint16(" ++ nth ops 0 ++ "+2*" ++ nth ops 1 ++ ")")
  | .loadb => .ok ("e.m.getUint8(" ++ nth ops 0 ++ "+" ++ nth ops 1 ++ ")")
  | .getProp => .ok (host "get_prop" ops)
  | .getPropAddr => .ok (host "find_prop" ops)
  | .getNextProp => .ok ("e.find_prop(" ++ nth ops 0 ++ ",0," ++ nth ops 1 ++ ")")
  | .add => .ok ("+".intercalate ops)
  | .sub => .ok ("-".intercalate ops)
  | .mul => .ok ("*".intercalate ops)
  | .div => .ok ("(" ++ nth ops 0 ++ "/" ++ nth ops 1 ++ ")|0")
  | .mod => .ok ("%".intercalate ops)
  | .call2s | .call2n | .call1s | .callVs | .callVs2 | .callVn | .callVn2 => .ok (call i ops)
  | .setColour => .ok (host "set_colour" ops)
  | .throw => .ok ("while(e.frames.length+1>" ++ nth ops 1
      ++ ")\x7be.frameptr=e.frames.pop()\x7dreturn " ++ nth ops 0)
  | .jz => .ok (nth ops 0 ++ "===0")
  | .getSibling => .ok (host "get_sibling" ops)
  | .getChild => .ok (host "get_child" ops)
  | .getParent => .ok (host "get_parent" ops)
  | .getPropLen => .ok (host "get_prop_len" ops)
  | .inc => .ok ("e.incdec(" ++ nth ops 0 ++ ",1)")
  | .dec => .ok ("e.incdec(" ++ nth ops 0 ++ ",-1)")
  | .printAddr => .ok ("e.print(2," ++ nth ops 0 ++ ")")
  | .removeObj => .ok (host "remove_obj" ops)
  | .printObj => .ok ("e.print(3," ++ nth ops 0 ++ ")")
  | .ret => .ok ("return " ++ nth ops 0)
  | .jump => .ok ("e.pc=" ++ nth ops 0 ++ "+" ++ toString ((i.next.toNat : Int) - 2))
  | .printPaddr => .ok ("e.print(2," ++ nth ops 0 ++ "*" ++ toString (packedMultiplier p.version) ++ ")")
  | .load => .ok ("e.indirect(" ++ nth ops 0 ++ ")")
  | .notOrCall1n => .ok (if p.version < 5 then "~" ++ nth ops 0 else call i ops)
  | .rtrue => .ok "return 1"
  | .rfalse => .ok "return 0"
  | .print => do
    let text ← inlineText i
    return s!"e.print(2,{text})"
  | .printRet => do
    let text ← inlineText i
    return s!"e.print(2,{text});e.print(1,13);return 1"
  | .nop | .bufferMode | .soundEffect => .ok ""
  | .save | .saveTable => .ok s!"e.save({resumption p i})"
  | .restore | .restoreTable => .ok s!"e.restore({resumption p i})"
  | .restart => .ok "e.restart()"
  | .retPopped => .ok "return s[--e.sp]"
  | .popOrCatch => .ok (if p.version < 5 then "s[--e.sp]" else "e.frames.length+1")
  | .quit => .ok "e.quit=1;e.Glk.glk_exit()"
  | .newLine => .ok "e.print(1,13)"
  | .showStatus => .ok (if p.version < 4 then "e.v3_status()" else "")
  | .verify | .piracy => .ok "1"
  | .storew => .ok ("e.ram.setUint16(" ++ nth ops 0 ++ "+2*" ++ nth ops 1 ++ "," ++ nth ops 2 ++ ")")
  | .storeb => .ok ("e.ram.setUint8(" ++ nth ops 0 ++ "+" ++ nth ops 1 ++ "," ++ nth ops 2 ++ ")")
  | .putProp => .ok (host "put_prop" ops)
  | .read => do
    let storer ← if p.version < 5 then pure 0 else storeVariable i
    return s!"e.read({storer}," ++ list ops ++ ")"
  | .printChar => .ok ("e.print(4," ++ nth ops 0 ++ ")")
  | .printNum => .ok ("e.print(0," ++ nth ops 0 ++ ")")
  | .random => .ok (host "random" ops)
  | .push => .ok ("t=" ++ nth ops 0 ++ ";s[e.sp++]=t")
  | .pull => .ok ("e.indirect(" ++ nth ops 0 ++ ",s[--e.sp])")
  | .splitWindow => .ok (host "split_window" ops)
  | .setWindow => .ok (host "set_window" ops)
  | .eraseWindow => .ok (host "erase_window" ops)
  | .eraseLine => .ok (host "erase_line" ops)
  -- the host counts rows and columns from zero
  | .setCursor => .ok ("e.set_cursor(" ++ nth ops 0 ++ "-1," ++ nth ops 1 ++ "-1)")
  | .getCursor => .ok (host "get_cursor" ops)
  | .setTextStyle => .ok (host "set_style" ops)
  | .outputStream => .ok (s!"e.pc={i.next};" ++ host "output_stream" ops)
  | .inputStream => .ok (host "input_stream" ops)
  | .readChar => do
    let storer ← storeVariable i
    return s!"e.read_char({storer}," ++ (if ops.isEmpty then "1" else list ops) ++ ")"
  | .scanTable => .ok (host "scan_table" ops)
  | .not => .ok ("~" ++ nth ops 0)
  | .tokenise => .ok (host "tokenise" ops)
  | .encodeText => .ok (host "encode_text" ops)
  | .copyTable => .ok (host "copy_table" ops)
  | .printTable => .ok (host "print_table" ops)
  | .checkArgCount => .ok ("e.stack.getUint8(e.frameptr+5)&(1<<(" ++ nth ops 0 ++ "-1))")
  | .logShift => .ok (host "log_shift" ops)
  | .artShift => .ok (host "art_shift" ops)
  | .setFont => .ok (host "set_font" ops)
  | .saveUndo => do
    let storer ← storeVariable i
    return s!"e.save_undo({i.next},{storer})"
  | .restoreUndo => .ok "if(e.restore_undo())return"
  | .printUnicode => .ok ("e.print(1," ++ nth ops 0 ++ ")")
  | .checkUnicode => .ok "3"
  | .setTrueColour => .ok (host "set_true_colour" ops)
  | .gestalt => .ok (host "gestalt" ops)

def assign (p : Profile) (v : UInt8) (code : String) : String :=
  if v == 0 then "t=" ++ code ++ ",s[e.sp++]=t"
  else if v < 16 then s!"l[{v - 1}]=" ++ code
  else "t=" ++ code ++ s!",e.ram.setUint16({p.globalAddr v},t),t"

def departure (i : Instruction) (b : Branch) : String :=
  if b.returns then "return " ++ toString b.offset.toInt
  else "e.pc=" ++ toString (i.jumpTarget b.offset.toInt) ++ ";return"

def branch (i : Instruction) (b : Branch) (code : String) : String :=
  "if(" ++ (if b.ifTrue then "" else "!") ++ "(" ++ code ++ "))\x7b" ++ departure i b ++ "\x7d"

-- The statement of an instruction. A pausing one records where to resume before its own effect;
-- storing and branching wrap the effect only, and an instruction that ends its block leaves its
-- branch to the resumption.
def render (p : Profile) (i : Instruction) : Except Fault String := do
  let some op := i.op? | .error (.unknownOpcode i.opcode i.addr)
  let effect ← body p i (i.operands.map operand) op
  let stored ← if i.stores then
      let v ← storeVariable i
      pure (assign p v effect)
    else pure effect
  let branched := match i.branch with
    | some b => if i.endsBlock then stored else branch i b stored
    | none => stored
  return (if i.pauses then s!"e.stop=1;e.pc={i.next};" else "") ++ branched

end ZCode.Statement
