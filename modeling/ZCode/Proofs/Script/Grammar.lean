import ZCode.Script.Tree

-- The grammar of scripts, told apart from the parser: which tokens make an expression of which
-- category, which make statements, and what tree they stand for. The productions are those of
-- strict ECMAScript for the constructs that scripts have. Grouping is in the categories alone: the
-- left operand of an operator binds as tightly as the operator, the right one more tightly.

set_option autoImplicit false

namespace ZCode.Script

def UnaryOp.token : UnaryOp → Token
  | negate => .minus
  | complement => .tilde
  | not => .bang

def BinaryOp.token : BinaryOp → Token
  | bitOr => .bar
  | bitAnd => .ampersand
  | same => .same
  | less => .less
  | greater => .greater
  | shiftLeft => .shiftLeft
  | shiftRight => .shiftRight
  | add => .plus
  | sub => .minus
  | mul => .star
  | div => .slash
  | rem => .percent

theorem BinaryOp.precedence_le (op : BinaryOp) : op.precedence ≤ 7 := by
  cases op <;> decide

theorem BinaryOp.one_le_precedence (op : BinaryOp) : 1 ≤ op.precedence := by
  cases op <;> decide

namespace Grammar

/-- What an expression can stand in for. Operators of less than the `least` precedence need
parentheses in a `binary` expression. -/
inductive Category where
  | primary
  | leftHand
  | unary
  | binary (least : Nat)
  | assignment
  | expression

mutual

inductive Derives : Category → List Token → Expr → Prop
  | number (n : Nat) : Derives .primary [.number n] (.number n)
  | null : Derives .primary [.word "null"] .null
  | name {x : String} (free : x ∉ Parser.reserved) : Derives .primary [.word x] (.name x)
  | paren {ts : List Token} {e : Expr} (inside : Derives .expression ts e) :
    Derives .primary (.openParen :: (ts ++ [.closeParen])) e
  | array {ts : List Token} {es : List Expr} (inside : Items ts es) :
    Derives .primary (.openBracket :: (ts ++ [.closeBracket])) (.array es)
  | operand {ts : List Token} {e : Expr} (alone : Derives .primary ts e) : Derives .leftHand ts e
  | member {ts : List Token} {e : Expr} (object : Derives .leftHand ts e) (field : String) :
    Derives .leftHand (ts ++ [.dot, .word field]) (.member e field)
  | index {ts us : List Token} {e k : Expr} (object : Derives .leftHand ts e)
      (key : Derives .expression us k) :
    Derives .leftHand (ts ++ .openBracket :: (us ++ [.closeBracket])) (.index e k)
  | call {ts us : List Token} {e : Expr} {es : List Expr} (callee : Derives .leftHand ts e)
      (arguments : Items us es) :
    Derives .leftHand (ts ++ .openParen :: (us ++ [.closeParen])) (.call e es)
  | unsigned {ts : List Token} {e : Expr} (alone : Derives .leftHand ts e) : Derives .unary ts e
  | increment {ts : List Token} {e : Expr} (target : Derives .leftHand ts e)
      (place : e.isPlace = true) : Derives .unary (ts ++ [.plusPlus]) (.increment e)
  | decrement {ts : List Token} {e : Expr} (target : Derives .unary ts e)
      (place : e.isPlace = true) : Derives .unary (.minusMinus :: ts) (.decrement e)
  | sign (op : UnaryOp) {ts : List Token} {e : Expr} (operand : Derives .unary ts e) :
    Derives .unary (op.token :: ts) (.unary op e)
  | single {least : Nat} {ts : List Token} {e : Expr} (alone : Derives .unary ts e) :
    Derives (.binary least) ts e
  | operator {least : Nat} {op : BinaryOp} {ts us : List Token} {a b : Expr}
      (tight : least ≤ op.precedence) (left : Derives (.binary op.precedence) ts a)
      (right : Derives (.binary (op.precedence + 1)) us b) :
    Derives (.binary least) (ts ++ op.token :: us) (.binary op a b)
  | value {ts : List Token} {e : Expr} (alone : Derives (.binary 0) ts e) :
    Derives .assignment ts e
  | assign {ts us : List Token} {a b : Expr} (target : Derives .leftHand ts a)
      (place : a.isPlace = true) (value : Derives .assignment us b) :
    Derives .assignment (ts ++ .assign :: us) (.assign a b)
  | only {ts : List Token} {e : Expr} (alone : Derives .assignment ts e) : Derives .expression ts e
  | sequence {ts us : List Token} {a b : Expr} (first : Derives .expression ts a)
      (second : Derives .assignment us b) :
    Derives .expression (ts ++ .comma :: us) (.sequence a b)

inductive Items : List Token → List Expr → Prop
  | nil : Items [] []
  | last {ts : List Token} {e : Expr} (item : Derives .assignment ts e) : Items ts [e]
  | cons {ts us : List Token} {e : Expr} {es : List Expr} (item : Derives .assignment ts e)
      (rest : Items us es) : Items (ts ++ .comma :: us) (e :: es)

end

inductive Bindings : List Token → List (String × Expr) → Prop
  | last {x : String} {ts : List Token} {e : Expr} (free : x ∉ Parser.reserved)
      (plain : x ∉ restricted) (value : Derives .assignment ts e) :
    Bindings (.word x :: .assign :: ts) [(x, e)]
  | cons {x : String} {ts us : List Token} {e : Expr} {bs : List (String × Expr)}
      (free : x ∉ Parser.reserved) (plain : x ∉ restricted) (value : Derives .assignment ts e)
      (rest : Bindings us bs) : Bindings (.word x :: .assign :: (ts ++ .comma :: us)) ((x, e) :: bs)

def Ends (last : Bool) (ts : List Token) : Prop :=
  ts = [.semicolon] ∨ last = true ∧ ts = []

mutual

/-- A statement, which is the last one of its block or need not be. -/
inductive Statement : Bool → List Token → Stmt → Prop
  | empty {last : Bool} : Statement last [.semicolon] .empty
  | block {last : Bool} {ts : List Token} {body : List Stmt} (inside : Statements true ts body) :
    Statement last (.openBrace :: (ts ++ [.closeBrace])) (.block body)
  | declare {last : Bool} {ts us : List Token} {bs : List (String × Expr)}
      (bindings : Bindings ts bs) (ends : Ends last us) :
    Statement last (.word "var" :: (ts ++ us)) (.declare bs)
  | when {last : Bool} {ts us : List Token} {e : Expr} {s : Stmt}
      (test : Derives .expression ts e) (body : Statement last us s) :
    Statement last (.word "if" :: .openParen :: (ts ++ .closeParen :: us)) (.when e s)
  | loop {last : Bool} {ts us : List Token} {e : Expr} {s : Stmt}
      (test : Derives .expression ts e) (body : Statement last us s) :
    Statement last (.word "while" :: .openParen :: (ts ++ .closeParen :: us)) (.loop e s)
  | leave {last : Bool} {us : List Token} (ends : Ends last us) :
    Statement last (.word "return" :: us) (.ret none)
  | ret {last : Bool} {ts us : List Token} {e : Expr} (value : Derives .expression ts e)
      (ends : Ends last us) : Statement last (.word "return" :: (ts ++ us)) (.ret (some e))
  | expr {last : Bool} {ts us : List Token} {e : Expr} (value : Derives .expression ts e)
      (ends : Ends last us) : Statement last (ts ++ us) (.expr e)

inductive Statements : Bool → List Token → List Stmt → Prop
  | nil {last : Bool} : Statements last [] []
  | final {ts : List Token} {s : Stmt} (statement : Statement true ts s) : Statements true ts [s]
  | cons {last : Bool} {ts us : List Token} {s : Stmt} {ss : List Stmt}
      (first : Statement false ts s) (rest : Statements last us ss) :
    Statements last (ts ++ us) (s :: ss)

end

def Body (ts : List Token) (ss : List Stmt) : Prop :=
  Statements true ts ss

theorem Statements.append {last : Bool} {us : List Token} {ss' : List Stmt}
    (second : Statements last us ss') {ts : List Token} {ss : List Stmt} :
    Statements false ts ss → Statements last (ts ++ us) (ss ++ ss')
  | .nil => second
  | .cons first rest => by
    rw [List.append_assoc]
    exact .cons first (second.append rest)

theorem Statements.body {ts : List Token} {ss : List Stmt} (derived : Statements false ts ss) :
    Body ts ss := by
  have whole : Statements true (ts ++ []) (ss ++ []) := Statements.nil.append derived
  rwa [List.append_nil, List.append_nil] at whole

theorem Statement.alone {last : Bool} {ts : List Token} {s : Stmt}
    (statement : Statement false ts s) : Statements last ts [s] := by
  have whole : Statements last (ts ++ []) [s] := .cons statement .nil
  rwa [List.append_nil] at whole

theorem Derives.leftHand_of_place {least : Nat} {ts : List Token} {e : Expr}
    (derived : Derives (.binary least) ts e) (place : e.isPlace = true) :
    Derives .leftHand ts e := by
  cases derived with
  | operator => cases place
  | single alone =>
    cases alone with
    | unsigned alone => exact alone
    | _ => cases place

theorem Derives.loosen {n least : Nat} {ts : List Token} {e : Expr}
    (derived : Derives (.binary n) ts e) (loose : least ≤ n) : Derives (.binary least) ts e := by
  cases derived with
  | single alone => exact .single alone
  | operator tight left right => exact .operator (Nat.le_trans loose tight) left right

def isKeyword (w : String) : Bool :=
  w == "var" || w == "if" || w == "while" || w == "return"

def beginsOperand : Token → Bool
  | .number _ | .openParen | .openBracket => true
  | .word w => !isKeyword w
  | _ => false

def begins : Token → Bool
  | .minus | .tilde | .bang | .minusMinus => true
  | t => beginsOperand t

def Category.begins : Category → Token → Bool
  | primary | leftHand => beginsOperand
  | _ => Grammar.begins

theorem begins_of_operand {t : Token} (operand : beginsOperand t = true) : begins t = true := by
  cases t with
  | minus | tilde | bang | minusMinus => rfl
  | _ => exact operand

theorem not_keyword_of_free {x : String} (free : x ∉ Parser.reserved) : isKeyword x = false := by
  refine Bool.eq_false_iff.mpr fun keyword => ?_
  simp only [isKeyword, Bool.or_eq_true, beq_iff_eq] at keyword
  rcases keyword with ((rfl | rfl) | rfl) | rfl <;> exact free (by decide)

theorem Derives.exists_first {c : Category} {ts : List Token} {e : Expr} :
    Derives c ts e → ∃ t us, ts = t :: us ∧ c.begins t = true
  | .number _ | .null | .paren _ | .array _ | .decrement _ _ => ⟨_, _, rfl, rfl⟩
  | .name free => ⟨_, _, rfl, by simp [Category.begins, beginsOperand, not_keyword_of_free free]⟩
  | .sign op _ => ⟨_, _, rfl, by cases op <;> rfl⟩
  | .operand alone | .single alone | .value alone | .only alone => alone.exists_first
  | .unsigned alone => by
    obtain ⟨t, us, shape, first⟩ := alone.exists_first
    exact ⟨t, us, shape, begins_of_operand first⟩
  | .member inner _ | .index inner _ | .call inner _ | .operator _ inner _ | .sequence inner _ => by
    obtain ⟨t, us, rfl, first⟩ := inner.exists_first
    exact ⟨t, _, rfl, first⟩
  | .increment inner _ | .assign inner _ _ => by
    obtain ⟨t, us, rfl, first⟩ := inner.exists_first
    exact ⟨t, _, rfl, begins_of_operand first⟩

theorem Derives.length_pos {c : Category} {ts : List Token} {e : Expr} (derived : Derives c ts e) :
    0 < ts.length := by
  obtain ⟨t, us, rfl, -⟩ := derived.exists_first
  simp

theorem Derives.exists_begins {ts : List Token} {e : Expr} (derived : Derives .expression ts e) :
    ∃ t us, ts = t :: us ∧ begins t = true :=
  derived.exists_first

theorem Statement.exists_first {last : Bool} {ts : List Token} {s : Stmt}
    (statement : Statement last ts s) : ∃ t us, ts = t :: us ∧ t ≠ .closeBrace := by
  cases statement with
  | expr value ends =>
    obtain ⟨t, us, rfl, first⟩ := value.exists_begins
    refine ⟨t, _, rfl, ?_⟩
    rintro rfl
    cases first
  | _ => exact ⟨_, _, rfl, by simp⟩

end Grammar

end ZCode.Script
