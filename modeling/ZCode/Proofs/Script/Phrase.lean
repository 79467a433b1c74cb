import ZCode.Proofs.Script.Grammar
import ZCode.Proofs.Script.Lexeme

set_option autoImplicit false

namespace ZCode.Script

inductive Phrase where
  | number (n : Nat)
  | null
  | name (x : String)
  | paren (e : Phrase)
  | array (items : List Phrase)
  | member (object : Phrase) (field : String)
  | index (object key : Phrase)
  | call (callee : Phrase) (arguments : List Phrase)
  | increment (target : Phrase)
  | decrement (target : Phrase)
  | unary (op : UnaryOp) (e : Phrase)
  | binary (op : BinaryOp) (a b : Phrase)
  | assign (target value : Phrase)
  | sequence (a b : Phrase)

namespace Phrase

@[elab_as_elim, induction_eliminator]
theorem induction {motive : Phrase → Prop} (number : ∀ n, motive (number n))
    (null : motive null) (name : ∀ x, motive (name x)) (paren : ∀ e, motive e → motive (paren e))
    (array : ∀ items, (∀ e ∈ items, motive e) → motive (array items))
    (member : ∀ object field, motive object → motive (member object field))
    (index : ∀ object key, motive object → motive key → motive (index object key))
    (call : ∀ callee arguments, motive callee → (∀ e ∈ arguments, motive e) →
      motive (call callee arguments))
    (increment : ∀ target, motive target → motive (increment target))
    (decrement : ∀ target, motive target → motive (decrement target))
    (unary : ∀ op e, motive e → motive (unary op e))
    (binary : ∀ op a b, motive a → motive b → motive (binary op a b))
    (assign : ∀ target value, motive target → motive value → motive (assign target value))
    (sequence : ∀ a b, motive a → motive b → motive (sequence a b)) (e : Phrase) : motive e := by
  refine @Phrase.rec motive (fun es => ∀ e ∈ es, motive e) number null name paren array member
    index call increment decrement unary binary assign sequence ?_ ?_ e
  · simp
  · intro head tail first rest e member
    rcases List.mem_cons.mp member with rfl | member
    · exact first
    · exact rest e member

mutual

def expr : Phrase → Expr
  | number n => .number n
  | null => .null
  | name x => .name x
  | paren e => e.expr
  | array items => .array (exprs items)
  | member object field => .member object.expr field
  | index object key => .index object.expr key.expr
  | call callee arguments => .call callee.expr (exprs arguments)
  | increment target => .increment target.expr
  | decrement target => .decrement target.expr
  | unary op e => .unary op e.expr
  | binary op a b => .binary op a.expr b.expr
  | assign target value => .assign target.expr value.expr
  | sequence a b => .sequence a.expr b.expr

def exprs : List Phrase → List Expr
  | [] => []
  | e :: rest => e.expr :: exprs rest

end

mutual

def tokens : Phrase → List Token
  | number n => [.number n]
  | null => [.word "null"]
  | name x => [.word x]
  | paren e => .openParen :: (e.tokens ++ [.closeParen])
  | array items => .openBracket :: (listed items ++ [.closeBracket])
  | member object field => object.tokens ++ [.dot, .word field]
  | index object key => object.tokens ++ .openBracket :: (key.tokens ++ [.closeBracket])
  | call callee arguments => callee.tokens ++ .openParen :: (listed arguments ++ [.closeParen])
  | increment target => target.tokens ++ [.plusPlus]
  | decrement target => .minusMinus :: target.tokens
  | unary op e => op.token :: e.tokens
  | binary op a b => a.tokens ++ op.token :: b.tokens
  | assign target value => target.tokens ++ .assign :: value.tokens
  | sequence a b => a.tokens ++ .comma :: b.tokens

def listed : List Phrase → List Token
  | [] => []
  | [e] => e.tokens
  | e :: next :: rest => e.tokens ++ .comma :: listed (next :: rest)

end

-- How tightly a phrase binds: sequences 0, assignments 1, operators above their precedence, signs
-- and steps 9, and what can take a suffix 10.
def level : Phrase → Nat
  | sequence .. => 0
  | assign .. => 1
  | binary op .. => op.precedence + 1
  | increment _ | decrement _ | unary .. => 9
  | _ => 10

def first : Phrase → Token
  | number n => .number n
  | null => .word "null"
  | name x => .word x
  | paren _ => .openParen
  | array _ => .openBracket
  | member object _ => object.first
  | index object _ => object.first
  | call callee _ => callee.first
  | increment target => target.first
  | decrement _ => .minusMinus
  | unary op _ => op.token
  | binary _ a _ => a.first
  | assign target _ => target.first
  | sequence a _ => a.first

def signed (e : Phrase) : Bool :=
  e.first == .minus || e.first == .minusMinus

mutual

def fits : Phrase → Bool
  | number _ | null => true
  | name x => Token.isName x && !Parser.reserved.contains x
  | paren e => e.fits
  | array items => fitAll items
  | member object field => object.fits && object.level == 10 && Token.isName field
  | index object key => object.fits && object.level == 10 && key.fits
  | call callee arguments => callee.fits && callee.level == 10 && fitAll arguments
  | increment target => target.fits && target.level == 10 && target.expr.isPlace
  | decrement target => target.fits && 9 ≤ target.level && target.expr.isPlace
  | unary op e => e.fits && 9 ≤ e.level && !(op == .negate && e.signed)
  | binary op a b => a.fits && b.fits && op.precedence + 1 ≤ a.level && op.precedence + 2 ≤ b.level
      && !(op == .sub && b.signed)
  | assign target value => target.fits && 2 ≤ target.level && target.expr.isPlace && value.fits
      && 1 ≤ value.level
  | sequence a b => a.fits && b.fits && 1 ≤ b.level

def fitAll : List Phrase → Bool
  | [] => true
  | e :: rest => e.fits && 1 ≤ e.level && fitAll rest

end

theorem exists_tail (e : Phrase) : ∃ tail, e.tokens = e.first :: tail := by
  induction e with
  | member object field ih | call callee arguments ih _ | increment target ih =>
    obtain ⟨tail, shape⟩ := ih
    simp [tokens, first, shape]
  | index object key ih _ | binary op a b ih _ | assign target value ih _ | sequence a b ih _ =>
    obtain ⟨tail, shape⟩ := ih
    simp [tokens, first, shape]
  | _ => simp [tokens, first]

def begins : Token → Bool
  | .number _ | .word _ | .openParen | .openBracket | .minus | .tilde | .bang | .minusMinus => true
  | _ => false

theorem begins_first (e : Phrase) : begins e.first = true := by
  induction e with
  | unary op e ih => cases op <;> rfl
  | member object field ih | call callee arguments ih _ | increment target ih => exact ih
  | index object key ih _ | binary op a b ih _ | assign target value ih _ | sequence a b ih _ =>
    exact ih
  | _ => rfl

theorem exprs_eq (es : List Phrase) : exprs es = es.map expr := by
  induction es with
  | nil => rfl
  | cons e rest ih => simp [exprs, ih]

theorem fitAll_eq (es : List Phrase) : fitAll es = es.all fun e => e.fits && 1 ≤ e.level := by
  induction es with
  | nil => rfl
  | cons e rest ih => simp [fitAll, ih]

open Grammar

structure Derived (e : Phrase) : Prop where
  leftHand : e.level = 10 → Derives .leftHand e.tokens e.expr
  unary : 9 ≤ e.level → Derives .unary e.tokens e.expr
  binary : ∀ least < e.level, 2 ≤ e.level → Derives (.binary least) e.tokens e.expr
  assignment : 1 ≤ e.level → Derives .assignment e.tokens e.expr
  expression : Derives .expression e.tokens e.expr

theorem derived_of_sequence {e : Phrase} (derived : Derives .expression e.tokens e.expr)
    (tight : e.level = 0) : e.Derived :=
  ⟨by omega, by omega, by omega, by omega, derived⟩

theorem derived_of_assignment {e : Phrase} (derived : Derives .assignment e.tokens e.expr)
    (tight : e.level = 1) : e.Derived :=
  ⟨by omega, by omega, by omega, fun _ => derived, .only derived⟩

theorem derived_of_binary {e : Phrase}
    (derived : ∀ least < e.level, Derives (.binary least) e.tokens e.expr) (low : 1 < e.level)
    (high : e.level < 9) : e.Derived :=
  have value : Derives .assignment e.tokens e.expr := .value (derived 0 (by omega))
  ⟨by omega, by omega, fun least lower _ => derived least lower, fun _ => value, .only value⟩

theorem derived_of_unary {e : Phrase} (derived : Derives .unary e.tokens e.expr)
    (tight : e.level = 9) : e.Derived :=
  have value : Derives .assignment e.tokens e.expr := .value (.single derived)
  ⟨by omega, fun _ => derived, fun _ _ _ => .single derived, fun _ => value, .only value⟩

theorem derived_of_leftHand {e : Phrase} (derived : Derives .leftHand e.tokens e.expr) :
    e.Derived :=
  have unary := Derives.unsigned derived
  have value : Derives .assignment e.tokens e.expr := .value (.single unary)
  ⟨fun _ => derived, fun _ => unary, fun _ _ _ => .single unary, fun _ => value, .only value⟩

theorem items_listed (es : List Phrase)
    (derived : ∀ e ∈ es, Derives .assignment e.tokens e.expr) : Items (listed es) (exprs es) := by
  induction es with
  | nil => exact .nil
  | cons e rest ih =>
    cases rest with
    | nil => exact .last (derived e (by simp))
    | cons next rest =>
      exact .cons (derived e (by simp)) (ih fun d member => derived d (by simp [member]))

theorem derived {e : Phrase} (fits : e.fits = true) : e.Derived := by
  induction e with
  | number n => exact derived_of_leftHand (.operand (.number n))
  | null => exact derived_of_leftHand (.operand .null)
  | name x =>
    simp only [Phrase.fits, Bool.and_eq_true, Bool.not_eq_true', List.contains_eq_mem,
      decide_eq_false_iff_not] at fits
    exact derived_of_leftHand (.operand (.name fits.2))
  | paren e ih =>
    simp only [Phrase.fits] at fits
    exact derived_of_leftHand (.operand (.paren (ih fits).expression))
  | array items ih =>
    simp only [Phrase.fits, fitAll_eq, List.all_eq_true, Bool.and_eq_true,
      decide_eq_true_eq] at fits
    exact derived_of_leftHand (.operand (.array (items_listed items fun e member =>
      (ih e member (fits e member).1).assignment (fits e member).2)))
  | member object field ih =>
    simp only [Phrase.fits, Bool.and_eq_true, beq_iff_eq] at fits
    exact derived_of_leftHand (((ih fits.1.1).leftHand fits.1.2).member field)
  | index object key ih ihKey =>
    simp only [Phrase.fits, Bool.and_eq_true, beq_iff_eq] at fits
    exact derived_of_leftHand (((ih fits.1.1).leftHand fits.1.2).index (ihKey fits.2).expression)
  | call callee arguments ih ihArguments =>
    simp only [Phrase.fits, fitAll_eq, List.all_eq_true, Bool.and_eq_true, beq_iff_eq,
      decide_eq_true_eq] at fits
    exact derived_of_leftHand (((ih fits.1.1).leftHand fits.1.2).call
      (items_listed arguments fun e member =>
        (ihArguments e member (fits.2 e member).1).assignment (fits.2 e member).2))
  | increment target ih =>
    simp only [Phrase.fits, Bool.and_eq_true, beq_iff_eq] at fits
    exact derived_of_unary (((ih fits.1.1).leftHand fits.1.2).increment fits.2) rfl
  | decrement target ih =>
    simp only [Phrase.fits, Bool.and_eq_true, decide_eq_true_eq] at fits
    exact derived_of_unary (((ih fits.1.1).unary fits.1.2).decrement fits.2) rfl
  | unary op e ih =>
    simp only [Phrase.fits, Bool.and_eq_true, decide_eq_true_eq] at fits
    exact derived_of_unary (.sign op ((ih fits.1.1).unary fits.1.2)) rfl
  | binary op a b ihA ihB =>
    simp only [Phrase.fits, Bool.and_eq_true, decide_eq_true_eq] at fits
    obtain ⟨⟨⟨⟨left, right⟩, leftTight⟩, rightTight⟩, -⟩ := fits
    have low := op.one_le_precedence
    have high := op.precedence_le
    refine derived_of_binary ?_ (by simp only [level]; omega) (by simp only [level]; omega)
    intro least lower
    exact .operator (Nat.le_of_lt_succ lower)
      ((ihA left).binary op.precedence (by omega) (by omega))
      ((ihB right).binary (op.precedence + 1) (by omega) (by omega))
  | assign target value ihTarget ihValue =>
    simp only [Phrase.fits, Bool.and_eq_true, decide_eq_true_eq] at fits
    obtain ⟨⟨⟨⟨left, tight⟩, place⟩, right⟩, rightTight⟩ := fits
    have settable := ((ihTarget left).binary 0 (by omega) tight).leftHand_of_place place
    exact derived_of_assignment (.assign settable place ((ihValue right).assignment rightTight)) rfl
  | sequence a b ihA ihB =>
    simp only [Phrase.fits, Bool.and_eq_true, decide_eq_true_eq] at fits
    exact derived_of_sequence
      (.sequence (ihA fits.1.1).expression ((ihB fits.1.2).assignment fits.2)) rfl

end Phrase

end ZCode.Script
