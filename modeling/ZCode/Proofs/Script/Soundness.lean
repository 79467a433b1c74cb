import ZCode.Proofs.Script.Grammar

set_option autoImplicit false

namespace ZCode.Script.Grammar

theorem token_of_binaryOp? {t : Token} {op : BinaryOp} (found : Parser.binaryOp? t = some op) :
    t = op.token := by
  cases t with
  | bar | ampersand | same | less | greater | shiftLeft | shiftRight | plus | minus | star | slash
  | percent =>
    cases found
    rfl
  | _ => cases found

def Below (least : Nat) (rest : List Token) : Prop :=
  ∀ t ∈ rest.head?, ∀ op, Parser.binaryOp? t = some op → op.precedence < least

theorem Below.mono {n m : Nat} {rest : List Token} (below : Below n rest) (le : n ≤ m) :
    Below m rest :=
  fun t first op found => Nat.lt_of_lt_of_le (below t first op found) le

def Takes (c : Category) (ts : List Token) (r : Expr × List Token) : Prop :=
  ∃ us, ts = us ++ r.2 ∧ Derives c us r.1

-- The loops go on behind an expression that has been derived.
structure Sound (fuel : Nat) : Prop where
  sequence : ∀ {ts r}, Parser.sequence fuel ts = some r → Takes .expression ts r
  moreSequence : ∀ {us ts a r}, Derives .expression us a →
    Parser.moreSequence fuel a ts = some r → Takes .expression (us ++ ts) r
  assignment : ∀ {ts r}, Parser.assignment fuel ts = some r → Takes .assignment ts r
  binary : ∀ {least ts r}, Parser.binary fuel least ts = some r →
    Takes (.binary least) ts r ∧ Below least r.2
  moreBinary : ∀ {n least us ts a r}, Derives (.binary n) us a → least ≤ n → Below (n + 1) ts →
    Parser.moreBinary fuel least a ts = some r →
    Takes (.binary least) (us ++ ts) r ∧ Below least r.2
  unary : ∀ {ts r}, Parser.unary fuel ts = some r → Takes .unary ts r
  primary : ∀ {ts r}, Parser.primary fuel ts = some r → Takes .primary ts r
  suffixes : ∀ {us ts a r}, Derives .leftHand us a →
    Parser.suffixes fuel a ts = some r → Takes .leftHand (us ++ ts) r
  items : ∀ {closing ts es rest}, Parser.items fuel closing ts = some (es, rest) →
    ∃ us, ts = us ++ closing :: rest ∧ Items us es

namespace Sound

variable {fuel : Nat} {ts us : List Token} {a : Expr} {r : Expr × List Token}

theorem sequence_succ (sound : Sound fuel) (read : Parser.sequence (fuel + 1) ts = some r) :
    Takes .expression ts r := by
  simp only [Parser.sequence, Option.bind_eq_bind, Option.bind_eq_some_iff] at read
  obtain ⟨⟨a, mid⟩, first, more⟩ := read
  obtain ⟨us, rfl, derived⟩ := sound.assignment first
  exact sound.moreSequence (.only derived) more

theorem moreSequence_succ (sound : Sound fuel) (before : Derives .expression us a)
    (read : Parser.moreSequence (fuel + 1) a ts = some r) : Takes .expression (us ++ ts) r := by
  rw [Parser.moreSequence.eq_def] at read
  split at read
  · cases read
  next fuel' a ts same =>
    cases same
    simp only [Option.bind_eq_bind, Option.bind_eq_some_iff] at read
    obtain ⟨⟨b, mid⟩, second, more⟩ := read
    obtain ⟨vs, rfl, derived⟩ := sound.assignment second
    simpa using sound.moreSequence (.sequence before derived) more
  · cases read
    exact ⟨us, rfl, before⟩

theorem assignment_succ (sound : Sound fuel) (read : Parser.assignment (fuel + 1) ts = some r) :
    Takes .assignment ts r := by
  simp only [Parser.assignment, Option.bind_eq_bind, Option.bind_eq_some_iff] at read
  obtain ⟨⟨a, mid⟩, first, more⟩ := read
  obtain ⟨us, rfl, derived⟩ := (sound.binary first).1
  dsimp only at more derived
  split at more
  next rest =>
    split at more
    next place =>
      simp only [Option.bind_eq_some_iff] at more
      obtain ⟨⟨b, rest⟩, second, same⟩ := more
      obtain ⟨vs, rfl, value⟩ := sound.assignment second
      cases same
      exact ⟨us ++ .assign :: vs, by simp, .assign (derived.leftHand_of_place place) place value⟩
    next => cases more
  next =>
    cases more
    exact ⟨us, rfl, .value derived⟩

theorem binary_succ {least : Nat} (sound : Sound fuel)
    (read : Parser.binary (fuel + 1) least ts = some r) :
    Takes (.binary least) ts r ∧ Below least r.2 := by
  simp only [Parser.binary, Option.bind_eq_bind, Option.bind_eq_some_iff] at read
  obtain ⟨⟨a, mid⟩, first, more⟩ := read
  obtain ⟨us, rfl, derived⟩ := sound.unary first
  -- a single operand binds more tightly than any operator behind it
  refine sound.moreBinary (n := max least 7) (.single derived) (Nat.le_max_left _ _) ?_ more
  intro t _ op _
  have := op.precedence_le
  omega

theorem moreBinary_succ {n least : Nat} (sound : Sound fuel) (before : Derives (.binary n) us a)
    (loose : least ≤ n) (below : Below (n + 1) ts)
    (read : Parser.moreBinary (fuel + 1) least a ts = some r) :
    Takes (.binary least) (us ++ ts) r ∧ Below least r.2 := by
  cases ts with
  | nil =>
    cases read
    exact ⟨⟨us, rfl, before.loosen loose⟩, nofun⟩
  | cons t ts =>
    simp only [Parser.moreBinary] at read
    split at read
    next op found =>
      have tight := below t (by simp) op found
      split at read
      next enough =>
        simp only [Option.bind_eq_bind, Option.bind_eq_some_iff] at read
        obtain ⟨⟨b, mid⟩, second, more⟩ := read
        obtain ⟨⟨vs, rfl, right⟩, next_⟩ := sound.binary second
        have whole : Derives (.binary op.precedence) (us ++ op.token :: vs) (.binary op a b) :=
          .operator (Nat.le_refl _) (before.loosen (by omega)) right
        simpa [token_of_binaryOp? found] using sound.moreBinary whole enough next_ more
      next low =>
        cases read
        refine ⟨⟨us, rfl, before.loosen loose⟩, ?_⟩
        intro u first other same
        obtain rfl : t = u := by simpa using first
        obtain rfl : op = other := Option.some.inj (found.symm.trans same)
        omega
    next none_ =>
      cases read
      refine ⟨⟨us, rfl, before.loosen loose⟩, ?_⟩
      intro u first other same
      obtain rfl : t = u := by simpa using first
      exact absurd (none_.symm.trans same) (by simp)

theorem sign_succ (sound : Sound fuel) (op : UnaryOp)
    (read : ((Parser.unary fuel ts).bind fun r => some (Expr.unary op r.1, r.2)) = some r) :
    Takes .unary (op.token :: ts) r := by
  obtain ⟨⟨e, rest⟩, inner, same⟩ := Option.bind_eq_some_iff.mp read
  obtain ⟨us, rfl, derived⟩ := sound.unary inner
  cases same
  exact ⟨op.token :: us, rfl, .sign op derived⟩

theorem unary_succ (sound : Sound fuel) (read : Parser.unary (fuel + 1) ts = some r) :
    Takes .unary ts r := by
  rw [Parser.unary.eq_def] at read
  split at read
  next => cases read
  next same =>
    cases same
    exact sound.sign_succ .negate read
  next same =>
    cases same
    exact sound.sign_succ .complement read
  next same =>
    cases same
    exact sound.sign_succ .not read
  next same =>
    cases same
    simp only [Option.bind_eq_bind, Option.bind_eq_some_iff] at read
    obtain ⟨⟨e, rest⟩, inner, read⟩ := read
    obtain ⟨us, rfl, derived⟩ := sound.unary inner
    dsimp only at read
    split at read
    next place =>
      cases read
      exact ⟨.minusMinus :: us, rfl, .decrement derived place⟩
    next => cases read
  next same _ _ _ _ =>
    cases same
    simp only [Option.bind_eq_bind, Option.bind_eq_some_iff] at read
    obtain ⟨⟨e, rest⟩, inner, ⟨e', rest'⟩, more, read⟩ := read
    obtain ⟨us, rfl, derived⟩ := sound.primary inner
    obtain ⟨vs, split, whole⟩ := sound.suffixes (.operand derived) more
    rw [split]
    dsimp only at read whole ⊢
    split at read
    next rest =>
      split at read
      next place =>
        cases read
        exact ⟨vs ++ [.plusPlus], by simp, .increment whole place⟩
      next => cases read
    next =>
      cases read
      exact ⟨vs, rfl, .unsigned whole⟩

theorem primary_succ (sound : Sound fuel) (read : Parser.primary (fuel + 1) ts = some r) :
    Takes .primary ts r := by
  rw [Parser.primary.eq_def] at read
  split at read
  next => cases read
  next n _ _ =>
    cases read
    exact ⟨[.number n], rfl, .number n⟩
  next w _ _ =>
    split at read
    next same =>
      cases read
      rw [beq_iff_eq] at same
      subst same
      exact ⟨[.word "null"], rfl, .null⟩
    next =>
      split at read
      next => cases read
      next free =>
        cases read
        exact ⟨[.word w], rfl, .name (by simpa using free)⟩
  next same =>
    cases same
    simp only [Option.bind_eq_bind, Option.bind_eq_some_iff] at read
    obtain ⟨⟨e, rest⟩, inner, read⟩ := read
    obtain ⟨us, rfl, derived⟩ := sound.sequence inner
    dsimp only at read derived
    split at read
    next =>
      cases read
      exact ⟨.openParen :: (us ++ [.closeParen]), by simp, .paren derived⟩
    next => cases read
  next same =>
    cases same
    simp only [Option.bind_eq_bind, Option.bind_eq_some_iff] at read
    obtain ⟨⟨es, rest⟩, inner, read⟩ := read
    obtain ⟨us, rfl, derived⟩ := sound.items inner
    cases read
    exact ⟨.openBracket :: (us ++ [.closeBracket]), by simp, .array derived⟩
  next => cases read

theorem suffixes_succ (sound : Sound fuel) (before : Derives .leftHand us a)
    (read : Parser.suffixes (fuel + 1) a ts = some r) : Takes .leftHand (us ++ ts) r := by
  rw [Parser.suffixes.eq_def] at read
  split at read
  next => cases read
  next same =>
    cases same
    simpa using sound.suffixes (before.member _) read
  next same =>
    cases same
    simp only [Option.bind_eq_bind, Option.bind_eq_some_iff] at read
    obtain ⟨⟨k, rest⟩, inner, read⟩ := read
    obtain ⟨vs, rfl, derived⟩ := sound.sequence inner
    dsimp only at read derived
    split at read
    next => simpa using sound.suffixes (before.index derived) read
    next => cases read
  next same =>
    cases same
    simp only [Option.bind_eq_bind, Option.bind_eq_some_iff] at read
    obtain ⟨⟨es, rest⟩, inner, read⟩ := read
    obtain ⟨vs, rfl, derived⟩ := sound.items inner
    simpa using sound.suffixes (before.call derived) read
  next =>
    cases read
    exact ⟨us, rfl, before⟩

theorem items_succ {closing : Token} {es : List Expr} {rest : List Token} (sound : Sound fuel)
    (read : Parser.items (fuel + 1) closing ts = some (es, rest)) :
    ∃ us, ts = us ++ closing :: rest ∧ Items us es := by
  cases ts with
  | nil => cases read
  | cons t ts =>
    simp only [Parser.items] at read
    split at read
    next same =>
      cases read
      subst same
      exact ⟨[], rfl, .nil⟩
    next =>
      simp only [Option.bind_eq_bind, Option.bind_eq_some_iff] at read
      obtain ⟨⟨e, mid⟩, first, read⟩ := read
      obtain ⟨us, split, derived⟩ := sound.assignment first
      rw [split]
      dsimp only at read derived ⊢
      split at read
      next =>
        simp only [Option.bind_eq_some_iff] at read
        obtain ⟨⟨es', rest'⟩, more, read⟩ := read
        obtain ⟨vs, rfl, items⟩ := sound.items more
        cases read
        exact ⟨us ++ .comma :: vs, by simp, .cons derived items⟩
      next =>
        split at read
        next same =>
          cases read
          subst same
          exact ⟨us, rfl, .last derived⟩
        next => cases read
      next => cases read

end Sound

theorem sound (fuel : Nat) : Sound fuel := by
  induction fuel with
  | zero =>
    constructor
    all_goals intros; simp_all [Parser.sequence, Parser.moreSequence, Parser.assignment,
      Parser.binary, Parser.moreBinary, Parser.unary, Parser.primary, Parser.suffixes, Parser.items]
  | succ fuel ih =>
    exact ⟨ih.sequence_succ, ih.moreSequence_succ, ih.assignment_succ, ih.binary_succ,
      ih.moreBinary_succ, ih.unary_succ, ih.primary_succ, ih.suffixes_succ, ih.items_succ⟩

def atEnd : List Token → Bool
  | [] | .closeBrace :: _ => true
  | _ => false

theorem exists_statementEnd {ts rest : List Token} (read : Parser.statementEnd ts = some rest) :
    ∃ us, ts = us ++ rest ∧ Ends (atEnd rest) us := by
  rw [Parser.statementEnd.eq_def] at read
  split at read
  next =>
    cases read
    exact ⟨[], rfl, .inr ⟨rfl, rfl⟩⟩
  next =>
    cases read
    exact ⟨[.semicolon], rfl, .inl rfl⟩
  next =>
    cases read
    exact ⟨[], rfl, .inr ⟨rfl, rfl⟩⟩
  next => cases read

theorem exists_bindings {fuel : Nat} {ts rest : List Token} {bs : List (String × Expr)}
    (read : Parser.bindings fuel ts = some (bs, rest)) :
    ∃ us, ts = us ++ rest ∧ Bindings us bs := by
  induction fuel generalizing ts bs with
  | zero => cases read
  | succ fuel ih =>
    rw [Parser.bindings.eq_def] at read
    split at read
    next same =>
      cases same
      split at read
      next => cases read
      next free =>
        simp only [Bool.or_eq_true, not_or, List.contains_iff_mem] at free
        simp only [Option.bind_eq_bind, Option.bind_eq_some_iff] at read
        obtain ⟨⟨e, mid⟩, first, read⟩ := read
        obtain ⟨us, rfl, value⟩ := (sound fuel).assignment first
        dsimp only at read value
        split at read
        next =>
          simp only [Option.bind_eq_some_iff] at read
          obtain ⟨⟨bs', rest'⟩, more, same⟩ := read
          cases same
          obtain ⟨vs, rfl, later⟩ := ih more
          exact ⟨_ :: .assign :: (us ++ .comma :: vs), by simp, .cons free.1 free.2 value later⟩
        next =>
          cases read
          exact ⟨_ :: .assign :: us, rfl, .last free.1 free.2 value⟩
    next => cases read

theorem exists_test {fuel : Nat} {ts rest : List Token} {e : Expr}
    (read : Parser.test fuel ts = some (e, rest)) :
    ∃ us, ts = .openParen :: (us ++ .closeParen :: rest) ∧ Derives .expression us e := by
  rw [Parser.test.eq_def] at read
  split at read
  next =>
    simp only [Option.bind_eq_bind, Option.bind_eq_some_iff] at read
    obtain ⟨⟨e', mid⟩, inner, read⟩ := read
    obtain ⟨us, rfl, derived⟩ := (sound fuel).sequence inner
    dsimp only at read derived
    split at read
    next =>
      cases read
      exact ⟨us, rfl, derived⟩
    next => cases read
  next => cases read

structure SoundStatements (fuel : Nat) : Prop where
  statement : ∀ {ts s rest}, Parser.statement fuel ts = some (s, rest) →
    ∃ us, ts = us ++ rest ∧ Statement (atEnd rest) us s
  statements : ∀ {read ts ss rest}, Parser.statements fuel read ts = some (ss, rest) →
    atEnd rest = true ∧ ∃ us body, ts = us ++ rest ∧ ss = read.reverse ++ body ∧
      Statements true us body

theorem statements_atEnd {ts : List Token} (ended : atEnd ts = true) (fuel : Nat)
    (read : List Stmt) : Parser.statements (fuel + 1) read ts = some (read.reverse, ts) := by
  cases ts with
  | nil => rfl
  | cons t ts =>
    cases t with
    | closeBrace => rfl
    | _ => cases ended

theorem statements_cons {t : Token} (other : t ≠ .closeBrace) (fuel : Nat) (read : List Stmt)
    (ts : List Token) : Parser.statements (fuel + 1) read (t :: ts) =
      (Parser.statement fuel (t :: ts)).bind fun r => Parser.statements fuel (r.1 :: read) r.2 := by
  cases t with
  | closeBrace => exact absurd rfl other
  | _ => rfl

namespace SoundStatements

variable {fuel : Nat} {ts rest : List Token}

theorem statement_succ {s : Stmt} (sound_ : SoundStatements fuel)
    (read : Parser.statement (fuel + 1) ts = some (s, rest)) :
    ∃ us, ts = us ++ rest ∧ Statement (atEnd rest) us s := by
  rw [Parser.statement.eq_def] at read
  split at read
  next => cases read
  next =>
    cases read
    exact ⟨[.semicolon], rfl, .empty⟩
  next same =>
    cases same
    simp only [Option.bind_eq_bind, Option.bind_eq_some_iff] at read
    obtain ⟨⟨body, mid⟩, inner, read⟩ := read
    obtain ⟨-, us, body, rfl, rfl, derived⟩ := sound_.statements inner
    dsimp only at read
    split at read
    next =>
      cases read
      exact ⟨.openBrace :: (us ++ [.closeBrace]), by simp, .block derived⟩
    next => cases read
  next same =>
    cases same
    simp only [Option.bind_eq_bind, Option.bind_eq_some_iff] at read
    obtain ⟨⟨bs, mid⟩, inner, rest', ended, read⟩ := read
    obtain ⟨us, rfl, bindings⟩ := exists_bindings inner
    obtain ⟨vs, split, ends⟩ := exists_statementEnd ended
    cases read
    dsimp only at split
    exact ⟨.word "var" :: (us ++ vs), by simp [split], .declare bindings ends⟩
  next same =>
    cases same
    simp only [Option.bind_eq_bind, Option.bind_eq_some_iff] at read
    obtain ⟨⟨e, mid⟩, testing, ⟨s', rest'⟩, inner, read⟩ := read
    obtain ⟨us, rfl, test⟩ := exists_test testing
    obtain ⟨vs, split, body⟩ := sound_.statement inner
    cases read
    dsimp only at split
    exact ⟨.word "if" :: .openParen :: (us ++ .closeParen :: vs), by simp [split], .when test body⟩
  next same =>
    cases same
    simp only [Option.bind_eq_bind, Option.bind_eq_some_iff] at read
    obtain ⟨⟨e, mid⟩, testing, ⟨s', rest'⟩, inner, read⟩ := read
    obtain ⟨us, rfl, test⟩ := exists_test testing
    obtain ⟨vs, split, body⟩ := sound_.statement inner
    cases read
    dsimp only at split
    exact ⟨.word "while" :: .openParen :: (us ++ .closeParen :: vs), by simp [split],
      .loop test body⟩
  next same =>
    cases same
    split at read
    next ended =>
      cases read
      obtain ⟨vs, rfl, ends⟩ := exists_statementEnd ended
      exact ⟨.word "return" :: vs, rfl, .leave ends⟩
    next =>
      simp only [Option.bind_eq_bind, Option.bind_eq_some_iff] at read
      obtain ⟨⟨e, mid⟩, inner, rest', ended, read⟩ := read
      obtain ⟨us, rfl, value⟩ := (sound fuel).sequence inner
      obtain ⟨vs, split, ends⟩ := exists_statementEnd ended
      cases read
      dsimp only at split
      exact ⟨.word "return" :: (us ++ vs), by simp [split], .ret value ends⟩
  next same _ _ _ _ _ _ =>
    cases same
    simp only [Option.bind_eq_bind, Option.bind_eq_some_iff] at read
    obtain ⟨⟨e, mid⟩, inner, rest', ended, read⟩ := read
    obtain ⟨us, rfl, value⟩ := (sound fuel).sequence inner
    obtain ⟨vs, split, ends⟩ := exists_statementEnd ended
    cases read
    dsimp only at split
    exact ⟨us ++ vs, by simp [split], .expr value ends⟩

theorem statements_succ {read ss : List Stmt} (sound_ : SoundStatements fuel)
    (reading : Parser.statements (fuel + 1) read ts = some (ss, rest)) :
    atEnd rest = true ∧ ∃ us body, ts = us ++ rest ∧ ss = read.reverse ++ body ∧
      Statements true us body := by
  by_cases ended : atEnd ts = true
  · rw [statements_atEnd ended] at reading
    cases reading
    exact ⟨ended, [], [], rfl, by simp, .nil⟩
  · cases ts with
    | nil => exact absurd rfl ended
    | cons t ts =>
      have other : t ≠ .closeBrace := by
        rintro rfl
        exact ended rfl
      rw [statements_cons other, Option.bind_eq_some_iff] at reading
      obtain ⟨⟨s, mid⟩, first, more⟩ := reading
      dsimp only at more
      obtain ⟨us, split, statement⟩ := sound_.statement first
      obtain ⟨last, vs, body, splitMore, whole, later⟩ := sound_.statements more
      refine ⟨last, us ++ vs, s :: body, ?_, by simp [whole], ?_⟩
      · rw [split, splitMore, List.append_assoc]
      -- a statement that nothing follows may lack its semicolon
      cases final : atEnd mid with
      | false =>
        rw [final] at statement
        exact .cons statement later
      | true =>
        rw [final] at statement
        cases fuel with
        | zero => cases more
        | succ fuel =>
          rw [statements_atEnd final, Option.some.injEq, Prod.mk.injEq] at more
          obtain ⟨rfl, rfl⟩ := more
          obtain rfl : vs = [] := by simpa using splitMore
          obtain rfl : body = [] := by simpa using whole
          rw [List.append_nil]
          exact .final statement

end SoundStatements

theorem soundStatements (fuel : Nat) : SoundStatements fuel := by
  induction fuel with
  | zero => constructor <;> simp [Parser.statement, Parser.statements]
  | succ fuel ih => exact ⟨ih.statement_succ, ih.statements_succ⟩

end ZCode.Script.Grammar
