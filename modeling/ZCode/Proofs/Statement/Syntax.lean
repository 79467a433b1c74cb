import ZCode.Block
import ZCode.Proofs.Script.Clause

set_option autoImplicit false

namespace ZCode.Statement

open ZCode.Script

def integer : Int → Phrase
  | .ofNat n => .number n
  | .negSucc n => .unary .negate (.number (n + 1))

def minusOne : Phrase :=
  .unary .negate (.number 1)

def runtime (field : String) : Phrase :=
  .member (.name "e") field

def memory (view method : String) (arguments : List Phrase) : Phrase :=
  .call (.member (runtime view) method) arguments

def popped : Phrase :=
  .index (.name "s") (.decrement (runtime "sp"))

def slot (n : Nat) : Phrase :=
  .index (.name "l") (.number n)

def signExtended (e : Phrase) : Phrase :=
  .paren (.binary .shiftRight (.binary .shiftLeft e (.number 16)) (.number 16))

def operandPhrase (op : Operand) : Phrase :=
  match op.kind with
  | .constant => .number op.value.toNat
  | .signedConstant => integer op.signedValue
  | .stack => popped
  | .signedStack => signExtended popped
  | .slot => slot op.value.toNat
  | .signedSlot => signExtended (slot op.value.toNat)
  | .global => memory "m" "getUint16" [.number op.value.toNat]
  | .signedGlobal | .reserved _ => memory "m" "getInt16" [.number op.value.toNat]

inductive Effect where
  | value (e : Phrase)
  | action (cs : List Clause)

def Effect.clauses : Effect → List Clause
  | value e => [.simple (.expr e)]
  | action cs => cs

def chained (op : BinaryOp) : List Phrase → Option Effect
  | [] => none
  | a :: rest => some (.value (rest.foldl (.binary op) a))

def nthPhrase (ops : List Phrase) (i : Nat) : Phrase :=
  ops.getD i .null

def hostPhrase (method : String) (ops : List Phrase) : Phrase :=
  .call (runtime method) ops

def callPhrase (i : Instruction) (ops : List Phrase) : Phrase :=
  let storer := match i.result with
    | some v => Phrase.number v.toNat
    | none => minusOne
  hostPhrase "call" [nthPhrase ops 0, storer, .number i.next.toNat, .array ops.tail]

def setPhrase (field : String) (value : Phrase) : Phrase :=
  .assign (runtime field) value

def pushPhrase : Phrase :=
  .assign (.index (.name "s") (.increment (runtime "sp"))) (.name "t")

def depthPhrase : Phrase :=
  .binary .add (.member (runtime "frames") "length") (.number 1)

def effect (p : Profile) (i : Instruction) (ops : List Phrase) : Op → Option Effect
  | .je => some <| .value <| match ops with
    | [a, b] => .binary .same a b
    | _ => hostPhrase "jeq" ops
  | .jl => chained .less ops
  | .jg => chained .greater ops
  | .decChk => some (.value (.binary .less
      (signExtended (hostPhrase "incdec" [nthPhrase ops 0, minusOne])) (nthPhrase ops 1)))
  | .incChk => some (.value (.binary .greater
      (signExtended (hostPhrase "incdec" [nthPhrase ops 0, .number 1])) (nthPhrase ops 1)))
  | .jin => some (.value (hostPhrase "jin" ops))
  | .test => some (.value (hostPhrase "test" ops))
  | .or => chained .bitOr ops
  | .and => chained .bitAnd ops
  | .testAttr => some (.value (hostPhrase "test_attr" ops))
  | .setAttr => some (.value (hostPhrase "set_attr" ops))
  | .clearAttr => some (.value (hostPhrase "clear_attr" ops))
  | .store => some (.value (hostPhrase "indirect" [nthPhrase ops 0, nthPhrase ops 1]))
  | .insertObj => some (.value (hostPhrase "insert_obj" ops))
  | .loadw => some (.value (memory "m" "getUint16"
      [.binary .add (nthPhrase ops 0) (.binary .mul (.number 2) (nthPhrase ops 1))]))
  | .loadb => some (.value (memory "m" "getUint8"
      [.binary .add (nthPhrase ops 0) (nthPhrase ops 1)]))
  | .getProp => some (.value (hostPhrase "get_prop" ops))
  | .getPropAddr => some (.value (hostPhrase "find_prop" ops))
  | .getNextProp =>
    some (.value (hostPhrase "find_prop" [nthPhrase ops 0, .number 0, nthPhrase ops 1]))
  | .add => chained .add ops
  | .sub => chained .sub ops
  | .mul => chained .mul ops
  | .div => some (.value (.binary .bitOr
      (.paren (.binary .div (nthPhrase ops 0) (nthPhrase ops 1))) (.number 0)))
  | .mod => chained .rem ops
  | .call2s | .call2n | .call1s | .callVs | .callVs2 | .callVn | .callVn2 =>
    some (.value (callPhrase i ops))
  | .setColour => some (.value (hostPhrase "set_colour" ops))
  | .throw => some (.action
      [.loopBlock (.binary .greater depthPhrase (nthPhrase ops 1))
        [.expr (setPhrase "frameptr" (.call (.member (runtime "frames") "pop") []))],
      .simple (.ret (some (nthPhrase ops 0)))])
  | .jz => some (.value (.binary .same (nthPhrase ops 0) (.number 0)))
  | .getSibling => some (.value (hostPhrase "get_sibling" ops))
  | .getChild => some (.value (hostPhrase "get_child" ops))
  | .getParent => some (.value (hostPhrase "get_parent" ops))
  | .getPropLen => some (.value (hostPhrase "get_prop_len" ops))
  | .inc => some (.value (hostPhrase "incdec" [nthPhrase ops 0, .number 1]))
  | .dec => some (.value (hostPhrase "incdec" [nthPhrase ops 0, minusOne]))
  | .printAddr => some (.value (hostPhrase "print" [.number 2, nthPhrase ops 0]))
  | .removeObj => some (.value (hostPhrase "remove_obj" ops))
  | .printObj => some (.value (hostPhrase "print" [.number 3, nthPhrase ops 0]))
  | .ret => some (.action [.simple (.ret (some (nthPhrase ops 0)))])
  | .jump => some (.value (setPhrase "pc"
      (.binary .add (nthPhrase ops 0) (integer ((i.next.toNat : Int) - 2)))))
  | .printPaddr => some (.value (hostPhrase "print" [.number 2,
      .binary .mul (nthPhrase ops 0) (.number (packedMultiplier p.version).toNat)]))
  | .load => some (.value (hostPhrase "indirect" [nthPhrase ops 0]))
  | .notOrCall1n => some (.value (if p.version < 5 then .unary .complement (nthPhrase ops 0)
      else callPhrase i ops))
  | .rtrue => some (.action [.simple (.ret (some (.number 1)))])
  | .rfalse => some (.action [.simple (.ret (some (.number 0)))])
  | .print => i.text.map fun text =>
    .value (hostPhrase "print" [.number 2, .number text.toNat])
  | .printRet => i.text.map fun text => .action
    [.simple (.expr (hostPhrase "print" [.number 2, .number text.toNat])),
      .simple (.expr (hostPhrase "print" [.number 1, .number 13])),
      .simple (.ret (some (.number 1)))]
  | .nop | .bufferMode | .soundEffect => some (.action [])
  | .save | .saveTable => some (.value (hostPhrase "save" [.number (resumption p i).toNat]))
  | .restore | .restoreTable =>
    some (.value (hostPhrase "restore" [.number (resumption p i).toNat]))
  | .restart => some (.value (hostPhrase "restart" []))
  | .retPopped => some (.action [.simple (.ret (some popped))])
  | .popOrCatch => some (.value (if p.version < 5 then popped else depthPhrase))
  | .quit => some (.action [.simple (.expr (setPhrase "quit" (.number 1))),
      .simple (.expr (.call (.member (runtime "Glk") "glk_exit") []))])
  | .newLine => some (.value (hostPhrase "print" [.number 1, .number 13]))
  | .showStatus => some (if p.version < 4 then .value (hostPhrase "v3_status" []) else .action [])
  | .verify | .piracy => some (.value (.number 1))
  | .storew => some (.value (memory "ram" "setUint16"
      [.binary .add (nthPhrase ops 0) (.binary .mul (.number 2) (nthPhrase ops 1)),
        nthPhrase ops 2]))
  | .storeb => some (.value (memory "ram" "setUint8"
      [.binary .add (nthPhrase ops 0) (nthPhrase ops 1), nthPhrase ops 2]))
  | .putProp => some (.value (hostPhrase "put_prop" ops))
  -- without operands the text has a comma before its closing parenthesis
  | .read => if ops.isEmpty then none
    else (if p.version < 5 then some 0 else i.result).map fun storer =>
      .value (hostPhrase "read" (.number storer.toNat :: ops))
  | .printChar => some (.value (hostPhrase "print" [.number 4, nthPhrase ops 0]))
  | .printNum => some (.value (hostPhrase "print" [.number 0, nthPhrase ops 0]))
  | .random => some (.value (hostPhrase "random" ops))
  | .push => some (.action [.simple (.expr (.assign (.name "t") (nthPhrase ops 0))),
      .simple (.expr pushPhrase)])
  | .pull => some (.value (hostPhrase "indirect" [nthPhrase ops 0, popped]))
  | .splitWindow => some (.value (hostPhrase "split_window" ops))
  | .setWindow => some (.value (hostPhrase "set_window" ops))
  | .eraseWindow => some (.value (hostPhrase "erase_window" ops))
  | .eraseLine => some (.value (hostPhrase "erase_line" ops))
  | .setCursor => some (.value (hostPhrase "set_cursor"
      [.binary .sub (nthPhrase ops 0) (.number 1), .binary .sub (nthPhrase ops 1) (.number 1)]))
  | .getCursor => some (.value (hostPhrase "get_cursor" ops))
  | .setTextStyle => some (.value (hostPhrase "set_style" ops))
  | .outputStream => some (.action [.simple (.expr (setPhrase "pc" (.number i.next.toNat))),
      .simple (.expr (hostPhrase "output_stream" ops))])
  | .inputStream => some (.value (hostPhrase "input_stream" ops))
  | .readChar => i.result.map fun storer => .value
    (hostPhrase "read_char" (.number storer.toNat :: if ops.isEmpty then [.number 1] else ops))
  | .scanTable => some (.value (hostPhrase "scan_table" ops))
  | .not => some (.value (.unary .complement (nthPhrase ops 0)))
  | .tokenise => some (.value (hostPhrase "tokenise" ops))
  | .encodeText => some (.value (hostPhrase "encode_text" ops))
  | .copyTable => some (.value (hostPhrase "copy_table" ops))
  | .printTable => some (.value (hostPhrase "print_table" ops))
  | .checkArgCount => some (.value (.binary .bitAnd
      (memory "stack" "getUint8" [.binary .add (runtime "frameptr") (.number 5)])
      (.paren (.binary .shiftLeft (.number 1)
        (.paren (.binary .sub (nthPhrase ops 0) (.number 1)))))))
  | .logShift => some (.value (hostPhrase "log_shift" ops))
  | .artShift => some (.value (hostPhrase "art_shift" ops))
  | .setFont => some (.value (hostPhrase "set_font" ops))
  | .saveUndo => i.result.map fun storer =>
    .value (hostPhrase "save_undo" [.number i.next.toNat, .number storer.toNat])
  | .restoreUndo => some (.action [.when (hostPhrase "restore_undo" []) (.ret none)])
  | .printUnicode => some (.value (hostPhrase "print" [.number 1, nthPhrase ops 0]))
  | .checkUnicode => some (.value (.number 3))
  | .setTrueColour => some (.value (hostPhrase "set_true_colour" ops))
  | .gestalt => some (.value (hostPhrase "gestalt" ops))

def assignPhrase (p : Profile) (v : UInt8) (e : Phrase) : Phrase :=
  if v == 0 then .sequence (.assign (.name "t") e) pushPhrase
  else if v < 16 then .assign (slot (v - 1).toNat) e
  else .sequence (.sequence (.assign (.name "t") e)
    (memory "ram" "setUint16" [.number (p.globalAddr v).toNat, .name "t"])) (.name "t")

def leave (i : Instruction) (b : Branch) : List Simple :=
  if b.returns then [.ret (some (integer b.offset.toInt))]
  else [.expr (setPhrase "pc" (.number (i.jumpTarget b.offset.toInt).toNat)), .ret none]

def branchClause (i : Instruction) (b : Branch) (e : Phrase) : Clause :=
  .whenBlock (if b.ifTrue then .paren e else .unary .not (.paren e)) (leave i b)

def Effect.stored (p : Profile) (i : Instruction) (e : Effect) : Option Effect :=
  if i.stores then
    match e with
    | .value e => i.result.map fun v => .value (assignPhrase p v e)
    | .action _ => none
  else some e

def Effect.branched (i : Instruction) (e : Effect) : Option Effect :=
  match i.branch with
  | none => some e
  | some b =>
    if i.endsBlock then some e
    else match e with
      | .value e => some (.action [branchClause i b e])
      | .action _ => none

def Effect.paused (i : Instruction) (e : Effect) : Option (List Clause) :=
  if i.pauses then
    if e.clauses.isEmpty then none
    else some (.simple (.expr (setPhrase "stop" (.number 1)))
      :: .simple (.expr (setPhrase "pc" (.number i.next.toNat))) :: e.clauses)
  else some e.clauses

def clauses (p : Profile) (i : Instruction) : Option (List Clause) := do
  let op ← i.op?
  let e ← effect p i (i.operands.map operandPhrase) op
  let stored ← e.stored p i
  let branched ← stored.branched i
  branched.paused i

def Spells (text : String) (e : Phrase) : Prop :=
  text.toList = e.tokens.flatMap Token.spelling

theorem toList_nat (n : Nat) : (toString n).toList = Nat.toDigits 10 n :=
  Nat.toList_repr

theorem toList_byte (v : UInt8) : (toString v).toList = Nat.toDigits 10 v.toNat :=
  Nat.toList_repr

theorem toList_word (v : UInt16) : (toString v).toList = Nat.toDigits 10 v.toNat :=
  Nat.toList_repr

theorem toList_address (v : UInt32) : (toString v).toList = Nat.toDigits 10 v.toNat :=
  Nat.toList_repr

theorem spells_number (n : Nat) : Spells (toString n) (.number n) := by
  simp only [Spells, Phrase.tokens, List.flatMap_cons, List.flatMap_nil, Token.spelling,
    List.append_nil]
  exact toList_nat n

theorem spells_integer (n : Int) : Spells (toString n) (integer n) := by
  cases n with
  | ofNat n => exact spells_number n
  | negSucc n =>
    have text : toString (Int.negSucc n) = "-" ++ toString (n + 1) := rfl
    simp [Spells, integer, Phrase.tokens, UnaryOp.token, Token.spelling, text]

theorem toString_self (s : String) : toString s = s := rfl

theorem digits_sixteen : Nat.toDigits 10 16 = ['1', '6'] := rfl

theorem digits_thirteen : Nat.toDigits 10 13 = ['1', '3'] := rfl

theorem spells_operand (op : Operand) : Spells (operand op) (operandPhrase op) := by
  obtain ⟨kind, value⟩ := op
  cases kind with
  | signedConstant => exact spells_integer _
  | _ =>
    simp [Spells, operand, operandPhrase, popped, slot, signExtended, memory, runtime,
      Phrase.tokens, Phrase.listed, Token.spelling, BinaryOp.token, toString_self, toList_word,
      digits_sixteen]

def lineChars (cs : List Clause) : List Char :=
  (Clause.lineLexemes cs).flatMap Lexeme.chars

theorem flatMap_token (ts : List Token) :
    (ts.map Lexeme.token).flatMap Lexeme.chars = ts.flatMap Token.spelling := by
  rw [List.flatMap_map]
  rfl

theorem nth_text {texts : List String} {ops : List Phrase} (spelled : List.Forall₂ Spells texts ops)
    (k : Nat) : (nth texts k).toList = (nthPhrase ops k).tokens.flatMap Token.spelling := by
  induction spelled generalizing k with
  | nil => simp [nth, nthPhrase, Phrase.tokens, Token.spelling]
  | cons head tail ih =>
    cases k with
    | zero => exact head
    | succ k => exact ih k

theorem list_text {texts : List String} {ops : List Phrase}
    (spelled : List.Forall₂ Spells texts ops) :
    (list texts).toList = (Phrase.listed ops).flatMap Token.spelling := by
  rw [list, String.toList_intercalate]
  induction spelled with
  | nil => rfl
  | cons head tail ih =>
    cases tail with
    | nil => simpa [Phrase.listed, Spells] using head
    | cons next rest =>
      simp only [List.map_cons, List.intercalate_cons_cons, Phrase.listed, List.flatMap_append,
        List.flatMap_cons, Token.spelling] at ih ⊢
      rw [ih, head]
      simp

theorem spells_host {texts : List String} {ops : List Phrase}
    (spelled : List.Forall₂ Spells texts ops) (method : String) :
    Spells (host method texts) (hostPhrase method ops) := by
  simp [Spells, host, hostPhrase, runtime, Phrase.tokens, Token.spelling, list_text spelled]

theorem spells_host_storer {texts : List String} {ops : List Phrase}
    (spelled : List.Forall₂ Spells texts ops) (some_ : ops ≠ []) (method : String) (v : UInt8) :
    Spells ("e." ++ method ++ "(" ++ toString v ++ "," ++ list texts ++ ")")
      (hostPhrase method (.number v.toNat :: ops)) := by
  have rest := list_text spelled
  cases spelled with
  | nil => exact absurd rfl some_
  | cons head tail =>
    simp [Spells, hostPhrase, runtime, Phrase.tokens, Phrase.listed, Token.spelling, toList_byte, rest]

theorem tail_spelled {texts : List String} {ops : List Phrase}
    (spelled : List.Forall₂ Spells texts ops) : List.Forall₂ Spells texts.tail ops.tail := by
  cases spelled with
  | nil => exact .nil
  | cons _ tail => exact tail

theorem spells_call {texts : List String} {ops : List Phrase}
    (spelled : List.Forall₂ Spells texts ops) (i : Instruction) :
    Spells (call i texts) (callPhrase i ops) := by
  simp only [Spells, call, callPhrase]
  cases i.result <;>
    simp [hostPhrase, runtime, minusOne, Phrase.tokens, Phrase.listed, Token.spelling, UnaryOp.token,
      toString_self, nth_text spelled, list_text (tail_spelled spelled), toList_byte, toList_address,
      Nat.toDigits_of_lt_base, Nat.digitChar]

theorem intercalate_grouped {α : Type} (separator x y : List α) (rest : List (List α)) :
    separator.intercalate ((x ++ separator ++ y) :: rest) =
      separator.intercalate (x :: y :: rest) := by
  cases rest <;> simp [List.intercalate_cons_cons]

theorem spells_chained {op : BinaryOp} {separator : String}
    (sign : separator.toList = op.token.spelling) {text : String} {a : Phrase}
    (first : Spells text a) {texts : List String} {ops : List Phrase}
    (spelled : List.Forall₂ Spells texts ops) :
    Spells (separator.intercalate (text :: texts)) (ops.foldl (.binary op) a) := by
  -- the operands read so far are one operand of the rest
  induction spelled generalizing text a with
  | nil => simpa [Spells, String.toList_intercalate] using first
  | @cons next b texts ops head tail ih =>
    have both : Spells (text ++ separator ++ next) (.binary op a b) := by
      simp only [Spells] at first head
      simp [Spells, Phrase.tokens, first, head, sign]
    have later := ih both
    simp only [Spells, String.toList_intercalate, List.map_cons, String.toList_append,
      intercalate_grouped] at later ⊢
    exact later

def Effect.Written (s : String) : Effect → Prop
  | value e => Spells s e
  | action cs => s.toList ++ [';'] = lineChars cs

theorem Effect.Written.line {s : String} {e : Effect} (written : e.Written s) :
    s.toList ++ [';'] = lineChars e.clauses := by
  cases e with
  | value e =>
    rw [show s.toList = _ from written]
    simp [clauses, lineChars, Clause.lineLexemes, Clause.lexemes, Simple.lexemes, flatMap_token,
      Lexeme.chars, Token.spelling]
  | action cs => exact written

theorem written_body {p : Profile} {i : Instruction} {texts : List String} {ops : List Phrase}
    (spelled : List.Forall₂ Spells texts ops) {op : Op} {e : Effect}
    (found : effect p i ops op = some e) : ∃ s, body p i texts op = .ok s ∧ e.Written s := by
  cases op with
  | jin | test | testAttr | setAttr | clearAttr | insertObj | getProp | getPropAddr | setColour
  | getSibling | getChild | getParent | getPropLen | removeObj | putProp | random | splitWindow
  | setWindow | eraseWindow | eraseLine | getCursor | setTextStyle | inputStream | scanTable
  | tokenise | encodeText | copyTable | printTable | logShift | artShift | setFont | setTrueColour
  | gestalt =>
    cases found
    refine ⟨_, rfl, ?_⟩
    exact spells_host spelled _
  | call2s | call2n | call1s | callVs | callVs2 | callVn | callVn2 =>
    cases found
    refine ⟨_, rfl, ?_⟩
    exact spells_call spelled i
  | jl | jg | or | and | add | sub | mul | mod =>
    cases spelled with
    | nil => cases found
    | cons head tail =>
      cases found
      refine ⟨_, rfl, ?_⟩
      exact spells_chained (by rfl) head tail
  | decChk | incChk | store | loadw | loadb | getNextProp | div | jz | inc | dec | printAddr
  | printObj | printPaddr | load | restart | newLine | verify | piracy | storew | storeb | printChar
  | printNum | pull | setCursor | not | checkArgCount | printUnicode | checkUnicode | save
  | saveTable | restore | restoreTable =>
    cases found
    refine ⟨_, rfl, ?_⟩
    simp [Effect.Written, Spells, hostPhrase, memory, popped, signExtended, runtime, minusOne, Phrase.tokens,
      Phrase.listed, Token.spelling, UnaryOp.token, BinaryOp.token, toString_self, nth_text spelled,
      toList_address, digits_sixteen, digits_thirteen, Nat.toDigits_of_lt_base, Nat.digitChar]
  | ret | rtrue | rfalse | retPopped | nop | bufferMode | soundEffect | quit | push | throw
  | restoreUndo | outputStream =>
    cases found
    refine ⟨_, rfl, ?_⟩
    simp [Effect.Written, lineChars, Clause.lineLexemes, Clause.lexemes, Clause.needsEnd,
      Clause.guardLexemes, Simple.lexemes, Simple.joinedLexemes, flatMap_token, Lexeme.chars,
      hostPhrase, popped, pushPhrase, setPhrase, depthPhrase, runtime,
      Phrase.tokens, Phrase.listed, Token.spelling, BinaryOp.token, toString_self,
      nth_text spelled, list_text spelled, host, toList_address, Nat.toDigits_of_lt_base,
      Nat.digitChar]
  | je =>
    cases found
    refine ⟨_, rfl, ?_⟩
    cases spelled with
    | nil => exact spells_host .nil _
    | cons first rest =>
      cases rest with
      | nil => exact spells_host (.cons first .nil) _
      | cons second rest =>
        cases rest with
        | nil =>
          simp only [Spells] at first second
          simp [Effect.Written, Spells, Phrase.tokens, BinaryOp.token, Token.spelling, first, second]
        | cons third rest => exact spells_host (.cons first (.cons second (.cons third rest))) _
  | jump =>
    cases found
    refine ⟨_, rfl, ?_⟩
    have target := spells_integer ((i.next.toNat : Int) - 2)
    simp only [Spells] at target
    simpa [Effect.Written, Spells, setPhrase, runtime, Phrase.tokens, BinaryOp.token, Token.spelling,
      nth_text spelled] using target
  | notOrCall1n =>
    cases found
    refine ⟨_, rfl, ?_⟩
    split
    · simp [Effect.Written, Spells, Phrase.tokens, UnaryOp.token, Token.spelling, nth_text spelled]
    · exact spells_call spelled i
  | popOrCatch =>
    cases found
    refine ⟨_, rfl, ?_⟩
    split <;> simp [Effect.Written, Spells, popped, depthPhrase, runtime, Phrase.tokens, BinaryOp.token,
      Token.spelling, Nat.toDigits_of_lt_base, Nat.digitChar]
  | showStatus =>
    cases found
    refine ⟨_, rfl, ?_⟩
    split
    · exact spells_host .nil "v3_status"
    · rfl
  | print =>
    obtain ⟨addr, text, rfl⟩ := Option.map_eq_some_iff.mp found
    refine ⟨_, by simp only [body, inlineText, text]; rfl, ?_⟩
    simp [Effect.Written, Spells, hostPhrase, runtime, Phrase.tokens, Phrase.listed, Token.spelling, toString_self,
      toList_address, Nat.toDigits_of_lt_base, Nat.digitChar]
  | printRet =>
    obtain ⟨addr, text, rfl⟩ := Option.map_eq_some_iff.mp found
    refine ⟨_, by simp only [body, inlineText, text]; rfl, ?_⟩
    simp [Effect.Written, lineChars, Clause.lineLexemes, Clause.lexemes, Clause.needsEnd,
      Simple.lexemes, Lexeme.chars, hostPhrase, runtime, Phrase.tokens, Phrase.listed,
      Token.spelling, toString_self, toList_address, digits_thirteen, Nat.toDigits_of_lt_base,
      Nat.digitChar]
  | read =>
    simp only [effect] at found
    split at found
    · cases found
    next some_ =>
    obtain ⟨storer, result, rfl⟩ := Option.map_eq_some_iff.mp found
    refine ⟨_, ?_, spells_host_storer spelled (by simpa using some_) "read" storer⟩
    simp only [body, storeVariable]
    split at result
    next old =>
      cases result
      simp only [old, if_true]
      rfl
    next new =>
      simp only [new, if_false, result]
      rfl
  | readChar =>
    obtain ⟨storer, result, rfl⟩ := Option.map_eq_some_iff.mp found
    refine ⟨_, by simp only [body, storeVariable, result]; rfl, ?_⟩
    cases spelled with
    | nil =>
      exact spells_host_storer (.cons (spells_number 1) .nil) (by simp) "read_char" storer
    | cons head tail => exact spells_host_storer (.cons head tail) (by simp) "read_char" storer
  | saveUndo =>
    obtain ⟨storer, result, rfl⟩ := Option.map_eq_some_iff.mp found
    refine ⟨_, by simp only [body, storeVariable, result]; rfl, ?_⟩
    simp [Effect.Written, Spells, hostPhrase, runtime, Phrase.tokens, Phrase.listed, Token.spelling, toString_self,
      toList_address, toList_byte]

theorem spells_assign {s : String} {e : Phrase} (spelled : Spells s e) (p : Profile) (v : UInt8) :
    Spells (assign p v s) (assignPhrase p v e) := by
  simp only [Spells] at spelled
  simp only [Spells, assign, assignPhrase]
  split
  · simp [pushPhrase, runtime, Phrase.tokens, Token.spelling, spelled]
  split
  · simp [slot, Phrase.tokens, Token.spelling, toString_self, toList_byte, spelled]
  · simp [memory, runtime, Phrase.tokens, Phrase.listed, Token.spelling, toString_self, toList_word,
      spelled]

theorem text_branch {s : String} {e : Phrase} (spelled : Spells s e) (i : Instruction)
    (b : Branch) : (branch i b s).toList ++ [';'] = lineChars [branchClause i b e] := by
  have offset := spells_integer b.offset.toInt
  simp only [Spells] at spelled offset
  simp only [branch, branchClause, departure, leave]
  cases b.ifTrue <;> cases b.returns <;>
    simp [lineChars, Clause.lineLexemes, Clause.lexemes, Clause.guardLexemes, Simple.joinedLexemes,
      Simple.lexemes, flatMap_token, Lexeme.chars, setPhrase, runtime, Phrase.tokens,
      UnaryOp.token, Token.spelling, spelled, toList_address] <;> exact offset

theorem written_branched {i : Instruction} {s : String} {e f : Effect} (written : e.Written s)
    (found : e.branched i = some f) :
    f.Written (match i.branch with
      | some b => if i.endsBlock then s else branch i b s
      | none => s) := by
  simp only [Effect.branched] at found
  split at found
  next none_ =>
    cases found
    simpa only [none_] using written
  next b some_ =>
    rw [some_]
    dsimp only
    split at found
    next ends =>
      cases found
      rw [if_pos ends]
      exact written
    next goes =>
      rw [if_neg goes]
      split at found
      · cases found
        exact text_branch written i b
      · cases found

theorem written_stored {p : Profile} {i : Instruction} {s : String} {e f : Effect}
    (written : e.Written s) (found : e.stored p i = some f) :
    ∃ t, (if i.stores then (storeVariable i).map (assign p · s) else .ok s) = .ok t ∧
      f.Written t := by
  simp only [Effect.stored] at found
  split at found
  next stores =>
    rw [if_pos stores]
    split at found
    next e =>
      obtain ⟨v, result, rfl⟩ := Option.map_eq_some_iff.mp found
      exact ⟨_, by simp [storeVariable, result, Except.map], spells_assign written p v⟩
    · cases found
  next keeps =>
    cases found
    exact ⟨s, if_neg keeps, written⟩

theorem text_paused {i : Instruction} {s : String} {e : Effect} {cs : List Clause}
    (written : e.Written s) (found : e.paused i = some cs) :
    ((if i.pauses then s!"e.stop=1;e.pc={i.next};" else "") ++ s).toList ++ [';'] =
      lineChars cs := by
  simp only [Effect.paused] at found
  split at found
  next pauses =>
    split at found
    · cases found
    next some_ =>
      cases found
      rw [if_pos pauses, String.toList_append, List.append_assoc, written.line]
      cases shape : e.clauses with
      | nil => simp [shape] at some_
      | cons c rest =>
        simp [lineChars, Clause.lineLexemes, Clause.lexemes, Clause.needsEnd, Simple.lexemes,
          Lexeme.chars, setPhrase, runtime, Phrase.tokens, Token.spelling,
          toString_self, toList_address, Nat.toDigits_of_lt_base, Nat.digitChar]
  next goes =>
    cases found
    rw [if_neg goes]
    simpa using written.line

theorem exists_render {p : Profile} {i : Instruction} {cs : List Clause}
    (found : clauses p i = some cs) :
    ∃ s, render p i = .ok s ∧ s.toList ++ [';'] = lineChars cs := by
  simp only [clauses, Option.bind_eq_bind, Option.bind_eq_some_iff] at found
  obtain ⟨op, known, e, effected, stored, storing, branched, branching, pausing⟩ := found
  have spelled : List.Forall₂ Spells (i.operands.map operand) (i.operands.map operandPhrase) := by
    rw [List.forall₂_map_left_iff, List.forall₂_map_right_iff]
    exact List.forall₂_same.mpr fun op _ => spells_operand op
  obtain ⟨s, made, written⟩ := written_body spelled effected
  obtain ⟨t, kept, writtenStored⟩ := written_stored written storing
  have writtenBranched := written_branched writtenStored branching
  refine ⟨_, ?_, text_paused writtenBranched pausing⟩
  simp only [render, known, made]
  split at kept
  next stores =>
    cases result : storeVariable i with
    | error fault => simp [result, Except.map] at kept
    | ok v =>
      simp only [result, Except.map, Except.ok.injEq] at kept
      subst kept
      simp only [stores, if_true]
      rfl
  next keeps =>
    cases kept
    simp only [keeps]
    rfl

def IsOperand (e : Phrase) : Prop :=
  e.fits = true ∧ 9 ≤ e.level

theorem isOperand_integer (n : Int) : IsOperand (integer n) := by
  cases n <;> exact ⟨rfl, by simp [integer, Phrase.level]⟩

theorem fits_member {e : Phrase} {field : String} (fits : e.fits = true) (tight : e.level = 10)
    (name : Token.isName field = true) : (Phrase.member e field).fits = true := by
  simp [Phrase.fits, fits, tight, name]

theorem fits_call {e : Phrase} (fits : e.fits = true) (tight : e.level = 10) {ops : List Phrase}
    (inside : Phrase.fitAll ops = true) : (Phrase.call e ops).fits = true := by
  simp [Phrase.fits, fits, tight, inside]

theorem fits_runtime {field : String} (name : Token.isName field = true) :
    (runtime field).fits = true :=
  fits_member rfl rfl name

theorem isOperand_operand (op : Operand) : IsOperand (operandPhrase op) := by
  obtain ⟨kind, value⟩ := op
  cases kind with
  | signedConstant => exact isOperand_integer _
  | _ => exact ⟨rfl, by simp [operandPhrase, popped, slot, signExtended, memory, Phrase.level]⟩

theorem isOperand_nth {ops : List Phrase} (fit : ∀ e ∈ ops, IsOperand e) (k : Nat) :
    IsOperand (nthPhrase ops k) := by
  rw [nthPhrase, List.getD_eq_getElem?_getD]
  cases found : ops[k]? with
  | none => exact ⟨rfl, by simp [Phrase.level]⟩
  | some e => exact fit e (List.mem_of_getElem? found)

def IsArgument (e : Phrase) : Prop :=
  e.fits = true ∧ 1 ≤ e.level

theorem IsOperand.isArgument {e : Phrase} (operand : IsOperand e) : IsArgument e :=
  ⟨operand.1, Nat.le_trans (by decide) operand.2⟩

theorem IsOperand.binds {e : Phrase} (operand : IsOperand e) (op : BinaryOp) :
    op.precedence + 2 ≤ e.level := by
  have low := op.precedence_le
  have high := operand.2
  omega

theorem isOperand_number (n : Nat) : IsOperand (.number n) :=
  ⟨rfl, by simp [Phrase.level]⟩

theorem isOperand_minusOne : IsOperand minusOne :=
  ⟨rfl, by simp [minusOne, Phrase.level]⟩

theorem isOperand_popped : IsOperand popped :=
  ⟨rfl, by simp [popped, Phrase.level]⟩

theorem fitAll_of_isArgument {ops : List Phrase} (fit : ∀ e ∈ ops, IsArgument e) :
    Phrase.fitAll ops = true := by
  rw [Phrase.fitAll_eq, List.all_eq_true]
  intro e member
  obtain ⟨fits, tight⟩ := fit e member
  simp [fits, tight]

theorem isOperand_array {ops : List Phrase} (fit : ∀ e ∈ ops, IsArgument e) :
    IsOperand (.array ops) :=
  ⟨fitAll_of_isArgument fit, by simp [Phrase.level]⟩

theorem isOperand_host {method : String} (name : Token.isName method = true) {ops : List Phrase}
    (fit : ∀ e ∈ ops, IsArgument e) : IsOperand (hostPhrase method ops) :=
  ⟨fits_call (fits_runtime name) rfl (fitAll_of_isArgument fit), by simp [hostPhrase, Phrase.level]⟩

theorem isOperand_memory {view method : String} (viewed : Token.isName view = true)
    (named : Token.isName method = true) {ops : List Phrase} (fit : ∀ e ∈ ops, IsArgument e) :
    IsOperand (memory view method ops) :=
  ⟨fits_call (fits_member (fits_runtime viewed) rfl named) rfl (fitAll_of_isArgument fit),
    by simp [memory, Phrase.level]⟩

theorem isOperand_paren {e : Phrase} (fits : e.fits = true) : IsOperand (.paren e) :=
  ⟨fits, by simp [Phrase.level]⟩

theorem isOperand_complement {e : Phrase} (operand : IsOperand e) :
    IsOperand (.unary .complement e) :=
  ⟨by simp [Phrase.fits, operand.1, operand.2], by simp [Phrase.level]⟩

theorem isArgument_binary (op : BinaryOp) {a b : Phrase} (left : a.fits = true)
    (right : b.fits = true) (tight : op.precedence + 1 ≤ a.level)
    (loose : op.precedence + 2 ≤ b.level) (sign : op = .sub → b.signed = false) :
    IsArgument (.binary op a b) := by
  refine ⟨?_, by simp [Phrase.level]⟩
  simp only [Phrase.fits, left, right, tight, loose, decide_true, Bool.true_and,
    Bool.not_eq_true', Bool.and_eq_false_imp, beq_iff_eq]
  exact sign

theorem IsOperand.binary {a b : Phrase} (left : IsOperand a) (right : IsOperand b) (op : BinaryOp)
    (sign : op = .sub → b.signed = false) : IsArgument (.binary op a b) :=
  isArgument_binary op left.1 right.1 (Nat.le_of_succ_le (left.binds op)) (right.binds op) sign

theorem isArgument_foldl {op : BinaryOp} {a : Phrase} {rest : List Phrase} (fits : a.fits = true)
    (tight : op.precedence + 1 ≤ a.level) (others : ∀ e ∈ rest, IsOperand e)
    (unsigned : op = .sub → ∀ e ∈ rest, e.signed = false) :
    IsArgument (rest.foldl (.binary op) a) := by
  -- the operands read so far are the left operand of the rest
  induction rest generalizing a with
  | nil => exact ⟨fits, Nat.le_trans (by omega) tight⟩
  | cons b rest ih =>
    have next := others b (by simp)
    have both := isArgument_binary op fits next.1 tight (next.binds op)
      fun same => unsigned same b (by simp)
    exact ih both.1 (Nat.le_refl _) (fun e member => others e (by simp [member]))
      fun same e member => unsigned same e (by simp [member])

theorem isOperand_call {ops : List Phrase} (fit : ∀ e ∈ ops, IsOperand e) (i : Instruction) :
    IsOperand (callPhrase i ops) := by
  have rest := isOperand_array fun e member => (fit e (List.mem_of_mem_tail member)).isArgument
  refine isOperand_host (by decide) ?_
  cases i.result <;> simp [(isOperand_nth fit 0).isArgument, rest.isArgument,
    (isOperand_number _).isArgument, isOperand_minusOne.isArgument]

theorem isOperand_signExtended {e : Phrase} (operand : IsOperand e) :
    IsOperand (signExtended e) := by
  have bits := isOperand_number 16
  have inner := operand.binary bits .shiftLeft (by simp)
  have outer := isArgument_binary .shiftRight inner.1 bits.1 (Nat.le_refl _) (bits.binds _) (by simp)
  exact isOperand_paren outer.1

theorem isArgument_doubled {a b : Phrase} (left : IsOperand a) (right : IsOperand b) :
    IsArgument (.binary .add a (.binary .mul (.number 2) b)) := by
  have inner := (isOperand_number 2).binary right .mul (by simp)
  exact isArgument_binary .add left.1 inner.1 (Nat.le_of_succ_le (left.binds _)) (Nat.le_refl _)
    (by simp)

theorem isArgument_assign {target e : Phrase} (fits : target.fits = true)
    (tight : target.level = 10) (place : target.expr.isPlace = true) (value : IsArgument e) :
    IsArgument (.assign target e) :=
  ⟨by simp [Phrase.fits, fits, tight, place, value.1, value.2], by simp [Phrase.level]⟩

theorem isArgument_set {field : String} (name : Token.isName field = true) {e : Phrase}
    (value : IsArgument e) : IsArgument (setPhrase field e) :=
  isArgument_assign (fits_runtime name) rfl rfl value

theorem isArgument_push : IsArgument pushPhrase :=
  ⟨rfl, by simp [pushPhrase, Phrase.level]⟩

theorem isArgument_depth : IsArgument depthPhrase :=
  ⟨rfl, by simp [depthPhrase, Phrase.level]⟩

def Effect.Fits : Effect → Prop
  | value e => IsArgument e
  | action cs => cs.all Clause.fits = true

theorem fits_effect {p : Profile} {i : Instruction} {ops : List Phrase}
    (fit : ∀ e ∈ ops, IsOperand e) {op : Op}
    (unsigned : op = .sub → ∀ e ∈ ops.tail, e.signed = false) {e : Effect}
    (found : effect p i ops op = some e) : e.Fits := by
  have all : ∀ e ∈ ops, IsArgument e := fun e member => (fit e member).isArgument
  have first := isOperand_nth fit 0
  have second := isOperand_nth fit 1
  have third := isOperand_nth fit 2
  have number (n : Nat) : IsArgument (.number n) := (isOperand_number n).isArgument
  have minus := isOperand_minusOne.isArgument
  cases op with
  | jin | test | testAttr | setAttr | clearAttr | insertObj | getProp | getPropAddr | setColour
  | getSibling | getChild | getParent | getPropLen | removeObj | putProp | random | splitWindow
  | setWindow | eraseWindow | eraseLine | getCursor | setTextStyle | inputStream | scanTable
  | tokenise | encodeText | copyTable | printTable | logShift | artShift | setFont | setTrueColour
  | gestalt =>
    cases found
    exact (isOperand_host (by decide) all).isArgument
  | call2s | call2n | call1s | callVs | callVs2 | callVn | callVn2 =>
    cases found
    exact (isOperand_call fit i).isArgument
  | jl | jg | or | and | add | sub | mul | mod =>
    cases ops with
    | nil => cases found
    | cons a rest =>
      cases found
      have head := fit a (by simp)
      exact isArgument_foldl head.1 (Nat.le_of_succ_le (head.binds _))
        (fun e member => fit e (by simp [member])) fun same => unsigned (by cases same <;> rfl)
  | store | getNextProp | inc | dec | printAddr | printObj | load | restart | newLine | printChar
  | printNum | printUnicode | save | saveTable | restore | restoreTable | pull =>
    cases found
    exact (isOperand_host (by decide) (by simp [first.isArgument, second.isArgument, number, minus,
      isOperand_popped.isArgument])).isArgument
  | decChk | incChk =>
    cases found
    refine (isOperand_signExtended ?_).binary second _ (by simp)
    exact isOperand_host (by decide) (by simp [first.isArgument, number, minus])
  | loadw | storew =>
    cases found
    exact (isOperand_memory (by decide) (by decide)
      (by simp [isArgument_doubled first second, third.isArgument])).isArgument
  | loadb | storeb =>
    cases found
    exact (isOperand_memory (by decide) (by decide)
      (by simp [first.binary second .add (by simp), third.isArgument])).isArgument
  | je =>
    cases found
    match ops with
    | [a, b] => exact (fit a (by simp)).binary (fit b (by simp)) .same (by simp)
    | [] | [_] | _ :: _ :: _ :: _ => exact (isOperand_host (by decide) all).isArgument
  | jz =>
    cases found
    exact first.binary (isOperand_number 0) .same (by simp)
  | div =>
    cases found
    have quotient := first.binary second .div (by simp)
    exact (isOperand_paren quotient.1).binary (isOperand_number 0) .bitOr (by simp)
  | jump =>
    cases found
    exact isArgument_set (by decide) (first.binary (isOperand_integer _) .add (by simp))
  | printPaddr =>
    cases found
    have scaled := first.binary (isOperand_number (packedMultiplier p.version).toNat) .mul (by simp)
    exact (isOperand_host (by decide) (by simp [number, scaled])).isArgument
  | setCursor =>
    cases found
    have less {e : Phrase} (operand : IsOperand e) :=
      operand.binary (isOperand_number 1) .sub fun _ => rfl
    exact (isOperand_host (by decide) (by simp [less first, less second])).isArgument
  | not =>
    cases found
    exact (isOperand_complement first).isArgument
  | notOrCall1n =>
    cases found
    simp only [Effect.Fits]
    split
    · exact (isOperand_complement first).isArgument
    · exact (isOperand_call fit i).isArgument
  | checkArgCount =>
    cases found
    have less := first.binary (isOperand_number 1) .sub fun _ => rfl
    have bit := (isOperand_number 1).binary (isOperand_paren less.1) .shiftLeft (by simp)
    have flags : IsOperand (memory "stack" "getUint8" [.binary .add (runtime "frameptr") (.number 5)]) :=
      ⟨rfl, by simp [memory, Phrase.level]⟩
    exact flags.binary (isOperand_paren bit.1) .bitAnd (by simp)
  | verify | piracy | checkUnicode =>
    cases found
    exact number _
  | popOrCatch =>
    cases found
    simp only [Effect.Fits]
    split
    · exact isOperand_popped.isArgument
    · exact isArgument_depth
  | showStatus =>
    cases found
    split
    · exact (isOperand_host (by decide) (by simp)).isArgument
    · rfl
  | print | saveUndo =>
    obtain ⟨_, _, rfl⟩ := Option.map_eq_some_iff.mp found
    exact (isOperand_host (by decide) (by simp [number])).isArgument
  | read =>
    simp only [effect] at found
    split at found
    · cases found
    obtain ⟨_, _, rfl⟩ := Option.map_eq_some_iff.mp found
    exact (isOperand_host (by decide) (List.forall_mem_cons.mpr ⟨number _, all⟩)).isArgument
  | readChar =>
    obtain ⟨_, _, rfl⟩ := Option.map_eq_some_iff.mp found
    refine (isOperand_host (by decide) (List.forall_mem_cons.mpr ⟨number _, ?_⟩)).isArgument
    split
    · simp [number]
    · exact all
  | printRet =>
    obtain ⟨_, _, rfl⟩ := Option.map_eq_some_iff.mp found
    rfl
  | nop | bufferMode | soundEffect | rtrue | rfalse | retPopped | restoreUndo | quit =>
    cases found
    rfl
  | ret =>
    cases found
    simp [Effect.Fits, Clause.fits, Simple.fits, first.1]
  | push =>
    cases found
    have kept : IsArgument (.assign (.name "t") (nthPhrase ops 0)) :=
      isArgument_assign rfl rfl rfl first.isArgument
    simp [Effect.Fits, Clause.fits, Simple.fits, kept.1, isArgument_push.1]
  | throw =>
    cases found
    have deeper : IsArgument (.binary .greater depthPhrase (nthPhrase ops 1)) :=
      isArgument_binary .greater rfl second.1 (by decide) (second.binds _) (by simp)
    have pop : (setPhrase "frameptr" (.call (.member (runtime "frames") "pop") [])).fits = true := rfl
    simp [Effect.Fits, Clause.fits, Simple.fits, deeper.1, first.1, pop]
  | outputStream =>
    cases found
    have call : IsOperand (hostPhrase "output_stream" ops) := isOperand_host (by decide) all
    have resume : (setPhrase "pc" (.number i.next.toNat)).fits = true := rfl
    simp [Effect.Fits, Clause.fits, Simple.fits, call.1, resume]

theorem fits_sequence {a b : Phrase} (left : a.fits = true) (right : IsArgument b) :
    (Phrase.sequence a b).fits = true := by
  simp [Phrase.fits, left, right.1, right.2]

theorem fits_assign {e : Phrase} (value : IsArgument e) (p : Profile) (v : UInt8) :
    (assignPhrase p v e).fits = true := by
  have kept : IsArgument (.assign (.name "t") e) := isArgument_assign rfl rfl rfl value
  simp only [assignPhrase]
  split
  · exact fits_sequence kept.1 isArgument_push
  split
  · exact (isArgument_assign rfl rfl rfl value).1
  · have written : IsOperand (memory "ram" "setUint16" [.number (p.globalAddr v).toNat, .name "t"]) :=
      ⟨rfl, by simp [memory, Phrase.level]⟩
    exact fits_sequence (fits_sequence kept.1 written.isArgument) ⟨rfl, by simp [Phrase.level]⟩

theorem fits_stored {p : Profile} {i : Instruction} {e f : Effect} (fits : e.Fits)
    (found : e.stored p i = some f) : f.clauses.all Clause.fits = true := by
  cases e with
  | value e =>
    simp only [Effect.stored] at found
    split at found
    · obtain ⟨v, _, rfl⟩ := Option.map_eq_some_iff.mp found
      simpa [Effect.clauses, Clause.fits, Simple.fits] using fits_assign fits p v
    · cases found
      simpa [Effect.clauses, Clause.fits, Simple.fits] using fits.1
  | action cs =>
    simp only [Effect.stored] at found
    split at found
    · cases found
    · cases found
      exact fits

theorem fits_branch {e : Phrase} (fits : e.fits = true) (i : Instruction) (b : Branch) :
    (branchClause i b e).fits = true := by
  have test : (if b.ifTrue then Phrase.paren e else .unary .not (.paren e)).fits = true := by
    split <;> simp [Phrase.fits, Phrase.level, fits]
  have leaves : (leave i b).all Simple.fits = true := by
    simp only [leave]
    split
    · simp [Simple.fits, (isOperand_integer _).1]
    · rfl
  simp [branchClause, Clause.fits, test, leaves]

theorem fits_branched {i : Instruction} {e f : Effect} (fits : e.clauses.all Clause.fits = true)
    (found : e.branched i = some f) : f.clauses.all Clause.fits = true := by
  simp only [Effect.branched] at found
  split at found
  · cases found
    exact fits
  next b _ =>
    split at found
    · cases found
      exact fits
    split at found
    next e =>
      cases found
      have value : e.fits = true := by
        simpa [Effect.clauses, Clause.fits, Simple.fits] using fits
      simp [Effect.clauses, fits_branch value]
    · cases found

theorem fits_paused {i : Instruction} {e : Effect} {cs : List Clause}
    (fits : e.clauses.all Clause.fits = true) (found : e.paused i = some cs) :
    cs.all Clause.fits = true := by
  simp only [Effect.paused] at found
  split at found
  · split at found
    · cases found
    · cases found
      have resume : (setPhrase "pc" (.number i.next.toNat)).fits = true := rfl
      have stop : (setPhrase "stop" (.number 1)).fits = true := rfl
      simp [Clause.fits, Simple.fits, resume, stop, fits]
  · cases found
    exact fits

theorem signed_operand {op : Operand} (unsigned : op.kind ≠ .signedConstant) :
    (operandPhrase op).signed = false := by
  obtain ⟨kind, value⟩ := op
  cases kind with
  | signedConstant => exact absurd rfl unsigned
  | _ => rfl

-- Only a difference could put two signs side by side.
theorem fits_clauses {p : Profile} {i : Instruction} {cs : List Clause}
    (unsigned : i.op? = some .sub → ∀ op ∈ i.operands, op.kind ≠ .signedConstant)
    (found : clauses p i = some cs) : cs.all Clause.fits = true := by
  simp only [clauses, Option.bind_eq_bind, Option.bind_eq_some_iff] at found
  obtain ⟨op, known, e, effected, stored, storing, branched, branching, pausing⟩ := found
  have fit : ∀ e ∈ i.operands.map operandPhrase, IsOperand e := by
    intro e member
    obtain ⟨operand, _, rfl⟩ := List.mem_map.mp member
    exact isOperand_operand operand
  have plain : op = .sub → ∀ e ∈ (i.operands.map operandPhrase).tail, e.signed = false := by
    intro same e member
    obtain ⟨operand, inside, rfl⟩ := List.mem_map.mp (List.mem_of_mem_tail member)
    exact signed_operand (unsigned (same ▸ known) operand inside)
  exact fits_paused (fits_branched (fits_stored (fits_effect fit plain effected) storing) branching)
    pausing

end ZCode.Statement
