import ZCode.Proofs.Script.Phrase

set_option autoImplicit false

namespace ZCode.Script

namespace Token

def joins : Token → Token → Bool
  | number _, number _ | number _, word _ => true
  | word _, number _ | word _, word _ => true
  | less, less | less, shiftLeft => true
  | greater, greater | greater, shiftRight => true
  | plus, plus | plus, plusPlus => true
  | minus, minus | minus, minusMinus => true
  | assign, assign | assign, same => true
  | slash, star => true
  | _, _ => false

def isSymbol : Token → Bool
  | number _ | word _ => false
  | _ => true

def endsExpr : Token → Bool
  | number _ | word _ | closeParen | closeBracket | plusPlus => true
  | _ => false

theorem isDigit_of_mem_spelling {n : Nat} {c : Char} (member : c ∈ (number n).spelling) :
    isDigit c = true := by
  have digit := Nat.isDigit_of_mem_toDigits (by omega) (by omega) member
  simpa [isDigit, Char.isDigit, Char.le_def] using digit

end Token

namespace Lexeme

open Token

def extenders : List Char := ['<', '>', '+', '-', '=', '*']

theorem extend?_symbol {c : Char} (other : c ∉ extenders) (t : Token) :
    extend? (.symbol t) c = none := by
  simp only [extenders, List.mem_cons, List.not_mem_nil, or_false, not_or] at other
  unfold extend?
  split <;> simp_all

theorem not_mem_extenders_of_digit {c : Char} (digit : isDigit c = true) : c ∉ extenders := by
  intro member
  simp only [extenders, List.mem_cons, List.not_mem_nil, or_false] at member
  rcases member with rfl | rfl | rfl | rfl | rfl | rfl <;> revert digit <;> decide

theorem not_mem_extenders_of_letter {c : Char} (letter : isWordStart c = true) :
    c ∉ extenders := by
  intro member
  simp only [extenders, List.mem_cons, List.not_mem_nil, or_false] at member
  rcases member with rfl | rfl | rfl | rfl | rfl | rfl <;> revert letter <;> decide

theorem isWordStart_of_mem_head {w : String} (proper : isName w = true) {c : Char}
    (member : c ∈ w.toList.head?) : isWordStart c = true := by
  simp only [isName] at proper
  split at proper
  · cases proper
  next d rest shape =>
    obtain rfl : d = c := by simpa [shape] using member
    exact (Bool.and_eq_true _ _ ▸ proper).1

theorem parts_symbol {t : Token} {c : Char} (other : extend? (.symbol t) c = none) :
    Parts (.symbol t) c :=
  ⟨other, nofun⟩

theorem follows_of_not_joins {t u : Token} (proper : (token u).Proper) (apart : joins t u = false) :
    (token u).Follows t.pending := by
  right
  intro c member
  cases u with
  | number n =>
    have digit := isDigit_of_mem_spelling (List.mem_of_mem_head? member)
    cases t with
    | number | word => cases apart
    | _ => exact parts_symbol (extend?_symbol (not_mem_extenders_of_digit digit) _)
  | word w =>
    have letter := isWordStart_of_mem_head proper member
    cases t with
    | number | word => cases apart
    | _ => exact parts_symbol (extend?_symbol (not_mem_extenders_of_letter letter) _)
  | _ =>
    obtain rfl := Option.some.inj member
    cases t with
    | number | word => exact ⟨rfl, fun _ _ => rfl⟩
    | _ => first | exact parts_symbol rfl | cases apart

theorem neat_map_token {ts : List Token} (proper : ∀ t ∈ ts, (token t).Proper)
    (chain : ts.IsChain fun t u => joins t u = false) : Neat (ts.map token) := by
  refine ⟨by simpa using proper, (List.isChain_map token).mpr (chain.imp_of_mem_imp ?_)⟩
  intro t u _ member apart
  exact follows_of_not_joins (proper u member) apart

def endsLine (c : Char) : Bool :=
  c == '\n' || c == '\r'

def LinesClosed (cs : List Char) : Prop :=
  cs.IsChain fun c d => endsLine d = true → c = ';'

def sameLine : Lexeme → Bool
  | token _ => true
  | blank c => !endsLine c
  | comment text => text.all fun c => !endsLine c

theorem not_endsLine_of_not_blank {c : Char} (other : isBlank c = false) : endsLine c = false := by
  simp only [isBlank, Bool.or_eq_false_iff] at other
  simp only [endsLine, other.1.2, other.2, Bool.or_self]

theorem not_endsLine_of_all {cs : List Char} (plain : (cs.all fun c => !endsLine c) = true) {c : Char}
    (member : c ∈ cs) : endsLine c = false := by
  simpa using List.all_eq_true.mp plain c member

theorem not_endsLine_of_mem_spelling {t : Token} (proper : (token t).Proper) {c : Char}
    (member : c ∈ t.spelling) : endsLine c = false := by
  cases t with
  | number n =>
    exact not_endsLine_of_not_blank (not_blank_of_digit (isDigit_of_mem_spelling member))
  | word w =>
    rcases isLetter_or_digit proper member with letter | digit
    · exact not_endsLine_of_not_blank (not_blank_of_letter letter)
    · exact not_endsLine_of_not_blank (not_blank_of_digit digit)
  | _ => exact not_endsLine_of_all rfl member

theorem not_endsLine_of_sameLine {xs : List Lexeme} (proper : ∀ x ∈ xs, x.Proper)
    (same : xs.all sameLine = true) {c : Char} (member : c ∈ xs.flatMap chars) :
    endsLine c = false := by
  obtain ⟨x, inside, member⟩ := List.mem_flatMap.mp member
  have kind := List.all_eq_true.mp same x inside
  cases x with
  | token t => exact not_endsLine_of_mem_spelling (proper _ inside) member
  | blank d =>
    obtain rfl : c = d := by simpa [chars] using member
    simpa [sameLine] using kind
  | comment text =>
    simp only [chars, List.cons_append, List.mem_cons, List.mem_append, List.not_mem_nil,
      or_false] at member
    rcases member with rfl | rfl | inside | rfl | rfl
    · rfl
    · rfl
    · exact not_endsLine_of_all kind inside
    · rfl
    · rfl

theorem linesClosed_cons (c : Char) {cs : List Char} (plain : ∀ d ∈ cs, endsLine d = false) :
    LinesClosed (c :: cs) := by
  induction cs generalizing c with
  | nil => exact .singleton c
  | cons d rest ih =>
    refine .cons_cons ?_ (ih d fun e member => plain e (by simp [member]))
    rw [plain d (by simp)]
    exact nofun

theorem linesClosed_of_sameLine {xs : List Lexeme} (proper : ∀ x ∈ xs, x.Proper)
    (same : xs.all sameLine = true) : LinesClosed (xs.flatMap chars) := by
  have plain := fun c => not_endsLine_of_sameLine proper same (c := c)
  cases shape : xs.flatMap chars with
  | nil => exact .nil
  | cons c rest => exact linesClosed_cons c fun d member => plain d (by simp [shape, member])

theorem LinesClosed.append {cs ds : List Char} (left : LinesClosed cs)
    (closed : cs.getLast? = some ';') (right : LinesClosed ds) : LinesClosed (cs ++ ds) := by
  refine List.isChain_append.mpr ⟨left, right, ?_⟩
  intro c last d _ _
  rw [closed] at last
  exact (Option.some.inj last).symm

end Lexeme

namespace Phrase

open Token

structure Tidy (ts : List Token) : Prop where
  chain : ts.IsChain fun t u => joins t u = false
  last : ∀ t ∈ ts.getLast?, endsExpr t = true

theorem not_joins_of_endsExpr {t u : Token} (ends : endsExpr t = true) (symbol : isSymbol u = true) :
    joins t u = false := by
  cases t with
  | number | word => cases u <;> first | rfl | cases symbol
  | closeParen | closeBracket | plusPlus => rfl
  | _ => cases ends

theorem not_joins_first {t : Token} (symbol : isSymbol t = true) (e : Phrase)
    (sign : t = .minus → e.signed = false) : joins t e.first = false := by
  have begins := e.begins_first
  have unsigned : t = .minus → e.first ≠ .minus ∧ e.first ≠ .minusMinus := by
    simpa [signed] using sign
  generalize e.first = u at begins unsigned
  cases t with
  | number | word => cases symbol
  | minus => cases u <;> simp_all [joins]
  | _ => cases u <;> first | rfl | cases begins

theorem tidy_singleton {t : Token} (ends : endsExpr t = true) : Tidy [t] :=
  ⟨.singleton t, by simpa using ends⟩

theorem Tidy.behind {ts rest : List Token} {t : Token} (tidy : Tidy ts) (symbol : isSymbol t = true)
    (later : Tidy (t :: rest)) : Tidy (ts ++ t :: rest) := by
  refine ⟨List.isChain_append.mpr ⟨tidy.chain, later.chain, ?_⟩, ?_⟩
  · intro x member y first
    obtain rfl : t = y := by simpa using first
    exact not_joins_of_endsExpr (tidy.last x member) symbol
  · intro x member
    rw [List.getLast?_append_of_ne_nil _ (by simp)] at member
    exact later.last x member

theorem Tidy.before {e : Phrase} {rest : List Token} {t : Token} (tidy : Tidy (e.tokens ++ rest))
    (symbol : isSymbol t = true) (sign : t = .minus → e.signed = false) :
    Tidy (t :: (e.tokens ++ rest)) := by
  obtain ⟨tail, shape⟩ := e.exists_tail
  refine ⟨List.isChain_cons.mpr ⟨?_, tidy.chain⟩, ?_⟩
  · intro y first
    obtain rfl : e.first = y := by simpa [shape] using first
    exact not_joins_first symbol e sign
  · intro x member
    apply tidy.last x
    simpa [shape] using member

theorem Tidy.sign {e : Phrase} {t : Token} (tidy : Tidy e.tokens) (symbol : isSymbol t = true)
    (sign : t = .minus → e.signed = false) : Tidy (t :: e.tokens) := by
  rw [← List.append_nil e.tokens] at tidy ⊢
  exact tidy.before symbol sign

theorem exists_listed (e : Phrase) (es : List Phrase) :
    ∃ more, listed (e :: es) = e.tokens ++ more := by
  cases es with
  | nil => exact ⟨[], by simp [listed]⟩
  | cons next rest => exact ⟨_, rfl⟩

theorem tidy_listed (e : Phrase) (es : List Phrase) (tidy : ∀ d ∈ e :: es, Tidy d.tokens) :
    Tidy (listed (e :: es)) := by
  induction es generalizing e with
  | nil => exact tidy e (by simp)
  | cons next rest ih =>
    have later := ih next fun d member => tidy d (by simp [member])
    obtain ⟨more, shape⟩ := exists_listed next rest
    rw [listed]
    rw [shape] at later ⊢
    exact (tidy e (by simp)).behind rfl (later.before rfl (by simp))

theorem tidy_enclosed {opening closing : Token} (es : List Phrase)
    (tidy : ∀ e ∈ es, Tidy e.tokens) (opens : isSymbol opening = true) (plain : opening ≠ .minus)
    (empty : joins opening closing = false) (closes : isSymbol closing = true)
    (ends : endsExpr closing = true) : Tidy (opening :: (listed es ++ [closing])) := by
  cases es with
  | nil => exact ⟨.cons_cons empty (.singleton _), by simpa [listed] using ends⟩
  | cons e rest =>
    have inside := (tidy_listed e rest tidy).behind closes (tidy_singleton ends)
    obtain ⟨more, shape⟩ := exists_listed e rest
    rw [shape, List.append_assoc] at inside ⊢
    exact inside.before opens fun same => absurd same plain

theorem tidy_tokens {e : Phrase} (fits : e.fits = true) : Tidy e.tokens := by
  induction e with
  | number | null | name => exact tidy_singleton rfl
  | paren e ih =>
    simp only [Phrase.fits] at fits
    exact ((ih fits).behind rfl (tidy_singleton rfl)).before rfl (by simp)
  | array items ih =>
    simp only [Phrase.fits, fitAll_eq, List.all_eq_true, Bool.and_eq_true] at fits
    exact tidy_enclosed items (fun e member => ih e member (fits e member).1) rfl (by simp) rfl rfl
      rfl
  | member object field ih =>
    simp only [Phrase.fits, Bool.and_eq_true] at fits
    exact (ih fits.1.1).behind rfl ⟨.cons_cons rfl (.singleton _), by simp [endsExpr]⟩
  | index object key ih ihKey =>
    simp only [Phrase.fits, Bool.and_eq_true] at fits
    exact (ih fits.1.1).behind rfl
      (((ihKey fits.2).behind rfl (tidy_singleton rfl)).before rfl (by simp))
  | call callee arguments ih ihArguments =>
    simp only [Phrase.fits, fitAll_eq, List.all_eq_true, Bool.and_eq_true] at fits
    exact (ih fits.1.1).behind rfl (tidy_enclosed arguments
      (fun e member => ihArguments e member (fits.2 e member).1) rfl (by simp) rfl rfl rfl)
  | increment target ih =>
    simp only [Phrase.fits, Bool.and_eq_true] at fits
    exact (ih fits.1.1).behind rfl (tidy_singleton rfl)
  | decrement target ih =>
    simp only [Phrase.fits, Bool.and_eq_true] at fits
    exact (ih fits.1.1).sign rfl (by simp)
  | unary op e ih =>
    simp only [Phrase.fits, Bool.and_eq_true, Bool.not_eq_true', Bool.and_eq_false_imp] at fits
    exact (ih fits.1.1).sign (by cases op <;> rfl) fun same => fits.2 (by cases op <;> simp_all [UnaryOp.token])
  | binary op a b ihA ihB =>
    simp only [Phrase.fits, Bool.and_eq_true, Bool.not_eq_true', Bool.and_eq_false_imp] at fits
    obtain ⟨⟨⟨⟨left, right⟩, -⟩, -⟩, sign⟩ := fits
    have symbol : isSymbol op.token = true := by cases op <;> rfl
    exact (ihA left).behind symbol ((ihB right).sign symbol fun same => sign (by
      cases op <;> simp_all [BinaryOp.token]))
  | assign target value ihTarget ihValue =>
    simp only [Phrase.fits, Bool.and_eq_true] at fits
    exact (ihTarget fits.1.1.1.1).behind rfl ((ihValue fits.1.2).sign rfl (by simp))
  | sequence a b ihA ihB =>
    simp only [Phrase.fits, Bool.and_eq_true] at fits
    exact (ihA fits.1.1).behind rfl ((ihB fits.1.2).sign rfl (by simp))

theorem proper_listed (es : List Phrase)
    (proper : ∀ e ∈ es, ∀ t ∈ e.tokens, (Lexeme.token t).Proper) :
    ∀ t ∈ listed es, (Lexeme.token t).Proper := by
  induction es with
  | nil => simp [listed]
  | cons e rest ih =>
    cases rest with
    | nil => exact proper e (by simp)
    | cons next rest =>
      intro t member
      simp only [listed, List.mem_append, List.mem_cons] at member
      rcases member with inside | rfl | later
      · exact proper e (by simp) t inside
      · exact trivial
      · exact ih (fun d found => proper d (by simp [found])) t later

theorem proper_tokens {e : Phrase} (fits : e.fits = true) :
    ∀ t ∈ e.tokens, (Lexeme.token t).Proper := by
  induction e with
  | number n => simp [tokens, Lexeme.Proper]
  | null => simpa [tokens, Lexeme.Proper] using (by decide : isName "null" = true)
  | name x =>
    simp only [Phrase.fits, Bool.and_eq_true] at fits
    simpa [tokens, Lexeme.Proper] using fits.1
  | paren e ih =>
    simp only [Phrase.fits] at fits
    simpa [tokens, or_imp, forall_and, Lexeme.Proper] using ih fits
  | array items ih =>
    simp only [Phrase.fits, fitAll_eq, List.all_eq_true, Bool.and_eq_true] at fits
    have inside := proper_listed items fun e member => ih e member (fits e member).1
    simpa [tokens, or_imp, forall_and, Lexeme.Proper] using inside
  | member object field ih =>
    simp only [Phrase.fits, Bool.and_eq_true] at fits
    have word : (Lexeme.token (.word field)).Proper := fits.2
    simp only [tokens, List.mem_append, List.mem_cons, List.not_mem_nil, or_false]
    rintro t (inside | rfl | rfl)
    · exact ih fits.1.1 t inside
    · exact trivial
    · exact word
  | index object key ih ihKey =>
    simp only [Phrase.fits, Bool.and_eq_true] at fits
    simpa [tokens, or_imp, forall_and, Lexeme.Proper] using ⟨ih fits.1.1, ihKey fits.2⟩
  | call callee arguments ih ihArguments =>
    simp only [Phrase.fits, fitAll_eq, List.all_eq_true, Bool.and_eq_true] at fits
    have inside := proper_listed arguments fun e member => ihArguments e member (fits.2 e member).1
    simpa [tokens, or_imp, forall_and, Lexeme.Proper] using ⟨ih fits.1.1, inside⟩
  | increment target ih | decrement target ih =>
    simp only [Phrase.fits, Bool.and_eq_true] at fits
    simpa [tokens, or_imp, forall_and, Lexeme.Proper] using ih fits.1.1
  | unary op e ih =>
    simp only [Phrase.fits, Bool.and_eq_true] at fits
    have symbol : (Lexeme.token op.token).Proper := by cases op <;> exact trivial
    simpa [tokens, symbol] using ih fits.1.1
  | binary op a b ihA ihB =>
    simp only [Phrase.fits, Bool.and_eq_true] at fits
    have symbol : (Lexeme.token op.token).Proper := by cases op <;> exact trivial
    simpa [tokens, or_imp, forall_and, symbol] using ⟨ihA fits.1.1.1.1, ihB fits.1.1.1.2⟩
  | assign target value ihTarget ihValue =>
    simp only [Phrase.fits, Bool.and_eq_true] at fits
    simpa [tokens, or_imp, forall_and, Lexeme.Proper] using
      ⟨ihTarget fits.1.1.1.1, ihValue fits.1.2⟩
  | sequence a b ihA ihB =>
    simp only [Phrase.fits, Bool.and_eq_true] at fits
    simpa [tokens, or_imp, forall_and, Lexeme.Proper] using ⟨ihA fits.1.1, ihB fits.1.2⟩

end Phrase

end ZCode.Script
