import ZCode.Script.Token

set_option autoImplicit false

namespace ZCode.Script

inductive UnaryOp where
  | negate
  | complement
  | not
  deriving DecidableEq, Repr

inductive BinaryOp where
  | bitOr
  | bitAnd
  | same
  | less
  | greater
  | shiftLeft
  | shiftRight
  | add
  | sub
  | mul
  | div
  | rem
  deriving DecidableEq, Repr

def BinaryOp.precedence : BinaryOp → Nat
  | bitOr => 1
  | bitAnd => 2
  | same => 3
  | less | greater => 4
  | shiftLeft | shiftRight => 5
  | add | sub => 6
  | mul | div | rem => 7

inductive Expr where
  | number (n : Nat)
  | null
  | name (x : String)
  | array (items : List Expr)
  | member (object : Expr) (field : String)
  | index (object key : Expr)
  | call (callee : Expr) (arguments : List Expr)
  -- Adds one; the value is the old one.
  | increment (target : Expr)
  -- Takes one away; the value is the new one.
  | decrement (target : Expr)
  | unary (op : UnaryOp) (e : Expr)
  | binary (op : BinaryOp) (a b : Expr)
  | assign (target value : Expr)
  | sequence (a b : Expr)
  deriving Repr

def restricted : List String :=
  ["arguments", "eval"]

def Expr.isPlace : Expr → Bool
  | name x => !restricted.contains x
  | member _ _ | index _ _ => true
  | _ => false

inductive Stmt where
  | empty
  | declare (bindings : List (String × Expr))
  | expr (e : Expr)
  | when (test : Expr) (body : Stmt)
  | loop (test : Expr) (body : Stmt)
  | block (body : List Stmt)
  | ret (value : Option Expr)
  deriving Repr

namespace Parser

def binaryOp? : Token → Option BinaryOp
  | .bar => some .bitOr
  | .ampersand => some .bitAnd
  | .same => some .same
  | .less => some .less
  | .greater => some .greater
  | .shiftLeft => some .shiftLeft
  | .shiftRight => some .shiftRight
  | .plus => some .add
  | .minus => some .sub
  | .star => some .mul
  | .slash => some .div
  | .percent => some .rem
  | _ => none

def reserved : List String :=
  ["break", "case", "catch", "class", "const", "continue", "debugger", "default", "delete", "do",
    "else", "enum", "export", "extends", "false", "finally", "for", "function", "if", "implements",
    "import", "in", "instanceof", "interface", "let", "new", "null", "package", "private",
    "protected", "public", "return", "static", "super", "switch", "this", "throw", "true", "try",
    "typeof", "var", "void", "while", "with", "yield"]

mutual

def sequence : Nat → List Token → Option (Expr × List Token)
  | 0, _ => none
  | fuel + 1, ts => do
    let (a, ts) ← assignment fuel ts
    moreSequence fuel a ts

def moreSequence : Nat → Expr → List Token → Option (Expr × List Token)
  | 0, _, _ => none
  | fuel + 1, a, .comma :: ts => do
    let (b, ts) ← assignment fuel ts
    moreSequence fuel (.sequence a b) ts
  | _ + 1, a, ts => some (a, ts)

def assignment : Nat → List Token → Option (Expr × List Token)
  | 0, _ => none
  | fuel + 1, ts => do
    let (a, ts) ← binary fuel 0 ts
    match ts with
    | .assign :: ts =>
      if a.isPlace then do
        let (value, ts) ← assignment fuel ts
        return (.assign a value, ts)
      else none
    | _ => return (a, ts)

def binary : Nat → Nat → List Token → Option (Expr × List Token)
  | 0, _, _ => none
  | fuel + 1, least, ts => do
    let (a, ts) ← unary fuel ts
    moreBinary fuel least a ts

def moreBinary : Nat → Nat → Expr → List Token → Option (Expr × List Token)
  | 0, _, _, _ => none
  | _ + 1, _, a, [] => some (a, [])
  | fuel + 1, least, a, t :: ts =>
    match binaryOp? t with
    | some op =>
      if least ≤ op.precedence then do
        let (b, ts) ← binary fuel (op.precedence + 1) ts
        moreBinary fuel least (.binary op a b) ts
      else some (a, t :: ts)
    | none => some (a, t :: ts)

def unary : Nat → List Token → Option (Expr × List Token)
  | 0, _ => none
  | fuel + 1, .minus :: ts => do
    let (e, ts) ← unary fuel ts
    return (.unary .negate e, ts)
  | fuel + 1, .tilde :: ts => do
    let (e, ts) ← unary fuel ts
    return (.unary .complement e, ts)
  | fuel + 1, .bang :: ts => do
    let (e, ts) ← unary fuel ts
    return (.unary .not e, ts)
  | fuel + 1, .minusMinus :: ts => do
    let (e, ts) ← unary fuel ts
    if e.isPlace then return (.decrement e, ts) else none
  | fuel + 1, ts => do
    let (e, ts) ← primary fuel ts
    let (e, ts) ← suffixes fuel e ts
    match ts with
    | .plusPlus :: ts => if e.isPlace then return (.increment e, ts) else none
    | _ => return (e, ts)

def primary : Nat → List Token → Option (Expr × List Token)
  | 0, _ => none
  | _ + 1, .number n :: ts => some (.number n, ts)
  | _ + 1, .word w :: ts =>
    if w == "null" then some (.null, ts)
    else if reserved.contains w then none
    else some (.name w, ts)
  | fuel + 1, .openParen :: ts => do
    let (e, ts) ← sequence fuel ts
    match ts with
    | .closeParen :: ts => return (e, ts)
    | _ => none
  | fuel + 1, .openBracket :: ts => do
    let (es, ts) ← items fuel .closeBracket ts
    return (.array es, ts)
  | _ + 1, _ => none

def suffixes : Nat → Expr → List Token → Option (Expr × List Token)
  | 0, _, _ => none
  | fuel + 1, e, .dot :: .word field :: ts => suffixes fuel (.member e field) ts
  | fuel + 1, e, .openBracket :: ts => do
    let (key, ts) ← sequence fuel ts
    match ts with
    | .closeBracket :: ts => suffixes fuel (.index e key) ts
    | _ => none
  | fuel + 1, e, .openParen :: ts => do
    let (arguments, ts) ← items fuel .closeParen ts
    suffixes fuel (.call e arguments) ts
  | _ + 1, e, ts => some (e, ts)

def items : Nat → Token → List Token → Option (List Expr × List Token)
  | 0, _, _ => none
  | _ + 1, _, [] => none
  | fuel + 1, closing, t :: ts =>
    if t = closing then some ([], ts)
    else do
      let (e, ts) ← assignment fuel (t :: ts)
      match ts with
      | .comma :: ts => do
        let (es, ts) ← items fuel closing ts
        return (e :: es, ts)
      | t :: ts => if t = closing then return ([e], ts) else none
      | [] => none

end

def statementEnd : List Token → Option (List Token)
  | [] => some []
  | .semicolon :: ts => some ts
  | .closeBrace :: ts => some (.closeBrace :: ts)
  | _ => none

def bindings : Nat → List Token → Option (List (String × Expr) × List Token)
  | fuel + 1, .word x :: .assign :: ts =>
    if reserved.contains x || restricted.contains x then none
    else do
      let (e, ts) ← assignment fuel ts
      match ts with
      | .comma :: ts => do
        let (rest, ts) ← bindings fuel ts
        return ((x, e) :: rest, ts)
      | _ => return ([(x, e)], ts)
  | _, _ => none

def test : Nat → List Token → Option (Expr × List Token)
  | fuel, .openParen :: ts => do
    let (e, ts) ← sequence fuel ts
    match ts with
    | .closeParen :: ts => return (e, ts)
    | _ => none
  | _, _ => none

mutual

def statement : Nat → List Token → Option (Stmt × List Token)
  | 0, _ => none
  | _ + 1, .semicolon :: ts => some (.empty, ts)
  | fuel + 1, .openBrace :: ts => do
    let (body, ts) ← statements fuel [] ts
    match ts with
    | .closeBrace :: ts => return (.block body, ts)
    | _ => none
  | fuel + 1, .word "var" :: ts => do
    let (bs, ts) ← bindings fuel ts
    let ts ← statementEnd ts
    return (.declare bs, ts)
  | fuel + 1, .word "if" :: ts => do
    let (e, ts) ← test fuel ts
    let (body, ts) ← statement fuel ts
    return (.when e body, ts)
  | fuel + 1, .word "while" :: ts => do
    let (e, ts) ← test fuel ts
    let (body, ts) ← statement fuel ts
    return (.loop e body, ts)
  | fuel + 1, .word "return" :: ts =>
    match statementEnd ts with
    | some rest => some (.ret none, rest)
    | none => do
      let (e, ts) ← sequence fuel ts
      let ts ← statementEnd ts
      return (.ret (some e), ts)
  | fuel + 1, ts => do
    let (e, ts) ← sequence fuel ts
    let ts ← statementEnd ts
    return (.expr e, ts)

def statements : Nat → List Stmt → List Token → Option (List Stmt × List Token)
  | 0, _, _ => none
  | _ + 1, read, [] => some (read.reverse, [])
  | _ + 1, read, .closeBrace :: ts => some (read.reverse, .closeBrace :: ts)
  | fuel + 1, read, ts => do
    let (s, ts) ← statement fuel ts
    statements fuel (s :: read) ts

end

end Parser

def parse? (code : String) : Option (List Stmt) := do
  let ts ← Token.ofText? code.toList
  let (body, rest) ← Parser.statements (8 * ts.length + 8) [] ts
  if rest.isEmpty then some body else none

def compiles (code : String) : Bool :=
  (parse? code).isSome

end ZCode.Script
