import ZCode.Fault

set_option autoImplicit false

namespace ZCode

inductive Op where
  | je
  | jl
  | jg
  | decChk
  | incChk
  | jin
  | test
  | or
  | and
  | testAttr
  | setAttr
  | clearAttr
  | store
  | insertObj
  | loadw
  | loadb
  | getProp
  | getPropAddr
  | getNextProp
  | add
  | sub
  | mul
  | div
  | mod
  | call2s
  | call2n
  | setColour
  | throw
  | jz
  | getSibling
  | getChild
  | getParent
  | getPropLen
  | inc
  | dec
  | printAddr
  | call1s
  | removeObj
  | printObj
  | ret
  | jump
  | printPaddr
  | load
  | notOrCall1n
  | rtrue
  | rfalse
  | print
  | printRet
  | nop
  | save
  | restore
  | restart
  | retPopped
  | popOrCatch
  | quit
  | newLine
  | showStatus
  | verify
  | piracy
  | callVs
  | storew
  | storeb
  | putProp
  | read
  | printChar
  | printNum
  | random
  | push
  | pull
  | splitWindow
  | setWindow
  | callVs2
  | eraseWindow
  | eraseLine
  | setCursor
  | getCursor
  | setTextStyle
  | bufferMode
  | outputStream
  | inputStream
  | soundEffect
  | readChar
  | scanTable
  | not
  | callVn
  | callVn2
  | tokenise
  | encodeText
  | copyTable
  | printTable
  | checkArgCount
  | saveTable
  | restoreTable
  | logShift
  | artShift
  | setFont
  | saveUndo
  | restoreUndo
  | printUnicode
  | checkUnicode
  | setTrueColour
  | gestalt
  deriving DecidableEq, Repr

namespace Op

def all : List Op :=
  [.je, .jl, .jg, .decChk, .incChk, .jin, .test, .or, .and, .testAttr, .setAttr, .clearAttr,
    .store, .insertObj, .loadw, .loadb, .getProp, .getPropAddr, .getNextProp, .add, .sub, .mul,
    .div, .mod, .call2s, .call2n, .setColour, .throw, .jz, .getSibling, .getChild, .getParent,
    .getPropLen, .inc, .dec, .printAddr, .call1s, .removeObj, .printObj, .ret, .jump,
    .printPaddr, .load, .notOrCall1n, .rtrue, .rfalse, .print, .printRet, .nop, .save, .restore,
    .restart, .retPopped, .popOrCatch, .quit, .newLine, .showStatus, .verify, .piracy, .callVs,
    .storew, .storeb, .putProp, .read, .printChar, .printNum, .random, .push, .pull,
    .splitWindow, .setWindow, .callVs2, .eraseWindow, .eraseLine, .setCursor, .getCursor,
    .setTextStyle, .bufferMode, .outputStream, .inputStream, .soundEffect, .readChar, .scanTable,
    .not, .callVn, .callVn2, .tokenise, .encodeText, .copyTable, .printTable, .checkArgCount,
    .saveTable, .restoreTable, .logShift, .artShift, .setFont, .saveUndo, .restoreUndo,
    .printUnicode, .checkUnicode, .setTrueColour, .gestalt]

def number : Op → UInt16
  | je => 1
  | jl => 2
  | jg => 3
  | decChk => 4
  | incChk => 5
  | jin => 6
  | test => 7
  | or => 8
  | and => 9
  | testAttr => 10
  | setAttr => 11
  | clearAttr => 12
  | store => 13
  | insertObj => 14
  | loadw => 15
  | loadb => 16
  | getProp => 17
  | getPropAddr => 18
  | getNextProp => 19
  | add => 20
  | sub => 21
  | mul => 22
  | div => 23
  | mod => 24
  | call2s => 25
  | call2n => 26
  | setColour => 27
  | throw => 28
  | jz => 128
  | getSibling => 129
  | getChild => 130
  | getParent => 131
  | getPropLen => 132
  | inc => 133
  | dec => 134
  | printAddr => 135
  | call1s => 136
  | removeObj => 137
  | printObj => 138
  | ret => 139
  | jump => 140
  | printPaddr => 141
  | load => 142
  | notOrCall1n => 143
  | rtrue => 176
  | rfalse => 177
  | print => 178
  | printRet => 179
  | nop => 180
  | save => 181
  | restore => 182
  | restart => 183
  | retPopped => 184
  | popOrCatch => 185
  | quit => 186
  | newLine => 187
  | showStatus => 188
  | verify => 189
  | piracy => 191
  | callVs => 224
  | storew => 225
  | storeb => 226
  | putProp => 227
  | read => 228
  | printChar => 229
  | printNum => 230
  | random => 231
  | push => 232
  | pull => 233
  | splitWindow => 234
  | setWindow => 235
  | callVs2 => 236
  | eraseWindow => 237
  | eraseLine => 238
  | setCursor => 239
  | getCursor => 240
  | setTextStyle => 241
  | bufferMode => 242
  | outputStream => 243
  | inputStream => 244
  | soundEffect => 245
  | readChar => 246
  | scanTable => 247
  | not => 248
  | callVn => 249
  | callVn2 => 250
  | tokenise => 251
  | encodeText => 252
  | copyTable => 253
  | printTable => 254
  | checkArgCount => 255
  | saveTable => 1000
  | restoreTable => 1001
  | logShift => 1002
  | artShift => 1003
  | setFont => 1004
  | saveUndo => 1009
  | restoreUndo => 1010
  | printUnicode => 1011
  | checkUnicode => 1012
  | setTrueColour => 1013
  | gestalt => 1030

def ofNumber? (n : UInt16) : Option Op :=
  all.find? (·.number == n)

theorem ofNumber?_number (op : Op) : ofNumber? op.number = some op := by
  cases op <;> decide

theorem number_of_ofNumber? {n : UInt16} {op : Op} (found : ofNumber? n = some op) :
    op.number = n := by
  simpa using List.find?_some found

def mnemonic (version : UInt8) : Op → String
  | je => "je"
  | jl => "jl"
  | jg => "jg"
  | decChk => "dec_chk"
  | incChk => "inc_chk"
  | jin => "jin"
  | test => "test"
  | or => "or"
  | and => "and"
  | testAttr => "test_attr"
  | setAttr => "set_attr"
  | clearAttr => "clear_attr"
  | store => "store"
  | insertObj => "insert_obj"
  | loadw => "loadw"
  | loadb => "loadb"
  | getProp => "get_prop"
  | getPropAddr => "get_prop_addr"
  | getNextProp => "get_next_prop"
  | add => "add"
  | sub => "sub"
  | mul => "mul"
  | div => "div"
  | mod => "mod"
  | call2s => "call_2s"
  | call2n => "call_2n"
  | setColour => "set_colour"
  | throw => "throw"
  | jz => "jz"
  | getSibling => "get_sibling"
  | getChild => "get_child"
  | getParent => "get_parent"
  | getPropLen => "get_prop_len"
  | inc => "inc"
  | dec => "dec"
  | printAddr => "print_addr"
  | call1s => "call_1s"
  | removeObj => "remove_obj"
  | printObj => "print_obj"
  | ret => "ret"
  | jump => "jump"
  | printPaddr => "print_paddr"
  | load => "load"
  | notOrCall1n => if version < 5 then "not" else "call_1n"
  | rtrue => "rtrue"
  | rfalse => "rfalse"
  | print => "print"
  | printRet => "print_ret"
  | nop => "nop"
  | save => "save"
  | restore => "restore"
  | restart => "restart"
  | retPopped => "ret_popped"
  | popOrCatch => if version < 5 then "pop" else "catch"
  | quit => "quit"
  | newLine => "new_line"
  | showStatus => "show_status"
  | verify => "verify"
  | piracy => "piracy"
  | callVs => "call_vs"
  | storew => "storew"
  | storeb => "storeb"
  | putProp => "put_prop"
  | read => "read"
  | printChar => "print_char"
  | printNum => "print_num"
  | random => "random"
  | push => "push"
  | pull => "pull"
  | splitWindow => "split_window"
  | setWindow => "set_window"
  | callVs2 => "call_vs2"
  | eraseWindow => "erase_window"
  | eraseLine => "erase_line"
  | setCursor => "set_cursor"
  | getCursor => "get_cursor"
  | setTextStyle => "set_text_style"
  | bufferMode => "buffer_mode"
  | outputStream => "output_stream"
  | inputStream => "input_stream"
  | soundEffect => "sound_effect"
  | readChar => "read_char"
  | scanTable => "scan_table"
  | not => "not"
  | callVn => "call_vn"
  | callVn2 => "call_vn2"
  | tokenise => "tokenise"
  | encodeText => "encode_text"
  | copyTable => "copy_table"
  | printTable => "print_table"
  | checkArgCount => "check_arg_count"
  | saveTable => "save"
  | restoreTable => "restore"
  | logShift => "log_shift"
  | artShift => "art_shift"
  | setFont => "set_font"
  | saveUndo => "save_undo"
  | restoreUndo => "restore_undo"
  | printUnicode => "print_unicode"
  | checkUnicode => "check_unicode"
  | setTrueColour => "set_true_colour"
  | gestalt => "gestalt"

end Op

def extendedBase : UInt16 := 1000

def opcodeName (version : UInt8) (opcode : UInt16) : String :=
  match Op.ofNumber? opcode with
  | some op => op.mnemonic version
  | none =>
    if extendedBase ≤ opcode then s!"ext_{opcode - extendedBase}" else s!"unknown_{opcode}"

end ZCode
