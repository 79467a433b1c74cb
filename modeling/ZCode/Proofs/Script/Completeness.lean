import ZCode.Proofs.Script.Soundness

set_option autoImplicit false

namespace ZCode.Script.Grammar

theorem binaryOp?_token (op : BinaryOp) : Parser.binaryOp? op.token = some op := by
  cases op <;> rfl

theorem below_token {op : BinaryOp} {least : Nat} (lower : op.precedence < least)
    (rest : List Token) : Below least (op.token :: rest) := by
  intro t first other found
  obtain rfl : op.token = t := by simpa using first
  rw [binaryOp?_token] at found
  cases found
  exact lower

def extendsOperand : Token → Bool
  | .dot | .openBracket | .openParen | .plusPlus => true
  | _ => false

def OperandEnds (rest : List Token) : Prop :=
  ∀ t ∈ rest.head?, extendsOperand t = false

structure OperatorEnds (least : Nat) (rest : List Token) : Prop where
  operand : OperandEnds rest
  below : Below least rest

structure AssignmentEnds (rest : List Token) : Prop where
  operator : OperatorEnds 0 rest
  assign : rest.head? ≠ some .assign

theorem OperatorEnds.mono {n m : Nat} {rest : List Token} (ends : OperatorEnds n rest)
    (le : n ≤ m) : OperatorEnds m rest :=
  ⟨ends.operand, ends.below.mono le⟩

theorem operatorEnds_token {op : BinaryOp} {least : Nat} (lower : op.precedence < least)
    (rest : List Token) : OperatorEnds least (op.token :: rest) where
  operand := by cases op <;> simp [OperandEnds, BinaryOp.token, extendsOperand]
  below := below_token lower rest

theorem operatorEnds_assign (least : Nat) (rest : List Token) :
    OperatorEnds least (.assign :: rest) := by
  constructor <;> simp [OperandEnds, Below, extendsOperand, Parser.binaryOp?]

def separates : Token → Bool
  | .closeParen | .closeBracket | .closeBrace | .comma | .semicolon => true
  | _ => false

theorem assignmentEnds_nil : AssignmentEnds [] :=
  ⟨⟨nofun, nofun⟩, nofun⟩

theorem assignmentEnds_cons {t : Token} (ends : separates t = true) (rest : List Token) :
    AssignmentEnds (t :: rest) := by
  cases t with
  | closeParen | closeBracket | closeBrace | comma | semicolon =>
    refine ⟨⟨?_, ?_⟩, ?_⟩ <;> simp [OperandEnds, Below, extendsOperand, Parser.binaryOp?]
  | _ => cases ends

theorem suffixes_stop {rest : List Token} (ends : OperandEnds rest) (fuel : Nat) (e : Expr) :
    Parser.suffixes (fuel + 1) e rest = some (e, rest) := by
  cases rest with
  | nil => rfl
  | cons t ts =>
    have stops := ends t (by simp)
    cases t with
    | dot | openBracket | openParen => cases stops
    | _ => rfl

theorem moreBinary_stop {least : Nat} {rest : List Token} (below : Below least rest) (fuel : Nat)
    (e : Expr) : Parser.moreBinary (fuel + 1) least e rest = some (e, rest) := by
  cases rest with
  | nil => rfl
  | cons t ts =>
    simp only [Parser.moreBinary]
    split
    next op found =>
      have lower := below t (by simp) op found
      rw [if_neg (by omega)]
    next => rfl

theorem moreSequence_stop {rest : List Token} (ends : rest.head? ≠ some .comma) (fuel : Nat)
    (e : Expr) : Parser.moreSequence (fuel + 1) e rest = some (e, rest) := by
  cases rest with
  | nil => rfl
  | cons t ts =>
    cases t with
    | comma => exact absurd rfl ends
    | _ => rfl

-- How the parser reads tokens as an expression of a category. Operators, commas and suffixes are
-- read by loops that go on behind the expression, so there the parser is left in the loop, with
-- less fuel.
def Reads : Category → List Token → Expr → Prop
  | .primary, ts, e => ∀ fuel rest, 8 * ts.length ≤ fuel + 7 →
    Parser.primary fuel (ts ++ rest) = some (e, rest)
  | .leftHand, ts, e => ∀ fuel rest, 8 * ts.length ≤ fuel + 7 →
    ∃ left, fuel < left + ts.length ∧
      ((Parser.primary fuel (ts ++ rest)).bind fun r => Parser.suffixes fuel r.1 r.2) =
        Parser.suffixes left e rest
  | .unary, ts, e => ∀ fuel rest, 8 * ts.length ≤ fuel + 6 → OperandEnds rest →
    Parser.unary fuel (ts ++ rest) = some (e, rest)
  | .binary n, ts, e => ∀ least fuel rest, least ≤ n → 8 * ts.length ≤ fuel + 5 →
    OperatorEnds (n + 1) rest → ∃ left, fuel ≤ left + ts.length ∧
      Parser.binary fuel least (ts ++ rest) = Parser.moreBinary left least e rest
  | .assignment, ts, e => ∀ fuel rest, 8 * ts.length ≤ fuel + 4 → AssignmentEnds rest →
    Parser.assignment fuel (ts ++ rest) = some (e, rest)
  | .expression, ts, e => ∀ fuel rest, 8 * ts.length ≤ fuel + 3 → AssignmentEnds rest →
    ∃ left, fuel ≤ left + ts.length ∧
      Parser.sequence fuel (ts ++ rest) = Parser.moreSequence left e rest

def ReadsItems (ts : List Token) (es : List Expr) : Prop :=
  ∀ closing fuel rest, begins closing = false → separates closing = true → closing ≠ .comma →
    8 * ts.length ≤ fuel + 3 → 0 < fuel →
    Parser.items fuel closing (ts ++ closing :: rest) = some (es, rest)

section

variable {ts us : List Token} {a b e : Expr}

theorem Reads.closed {t : Token} {rest : List Token} (reads : Reads .expression ts e) {fuel : Nat}
    (size : 0 < ts.length) (enough : 8 * ts.length ≤ fuel + 3) (ends : separates t = true)
    (comma : t ≠ .comma) : Parser.sequence fuel (ts ++ t :: rest) = some (e, t :: rest) := by
  obtain ⟨left, used, reading⟩ := reads fuel (t :: rest) enough (assignmentEnds_cons ends rest)
  obtain ⟨left, rfl⟩ : ∃ f, left = f + 1 := ⟨left - 1, by omega⟩
  rw [reading, moreSequence_stop (by simpa using comma)]

theorem reads_name {x : String} (free : x ∉ Parser.reserved) :
    Reads .primary [.word x] (.name x) := by
  intro fuel rest enough
  obtain ⟨fuel, rfl⟩ : ∃ f, fuel = f + 1 := ⟨fuel - 1, by simp at enough; omega⟩
  have ordinary : (x == "null") = false := by
    rw [beq_eq_false_iff_ne]
    rintro rfl
    exact free (by decide)
  simp [Parser.primary, ordinary, free]

theorem Reads.paren (reads : Reads .expression ts e) (size : 0 < ts.length) :
    Reads .primary (.openParen :: (ts ++ [.closeParen])) e := by
  intro fuel rest enough
  simp only [List.length_cons, List.length_append, List.length_nil] at enough
  obtain ⟨fuel, rfl⟩ : ∃ f, fuel = f + 1 := ⟨fuel - 1, by omega⟩
  have reading : Parser.sequence fuel (ts ++ .closeParen :: rest) = some (e, .closeParen :: rest) :=
    reads.closed size (by omega) rfl (by simp)
  simp [Parser.primary, reading]

theorem ReadsItems.array {es : List Expr} (reads : ReadsItems ts es) :
    Reads .primary (.openBracket :: (ts ++ [.closeBracket])) (.array es) := by
  intro fuel rest enough
  simp only [List.length_cons, List.length_append, List.length_nil] at enough
  obtain ⟨fuel, rfl⟩ : ∃ f, fuel = f + 1 := ⟨fuel - 1, by omega⟩
  have reading := reads .closeBracket fuel rest rfl rfl (by simp) (by omega) (by omega)
  simp [Parser.primary, reading]

theorem Reads.operand (reads : Reads .primary ts e) (size : 0 < ts.length) :
    Reads .leftHand ts e := by
  intro fuel rest enough
  exact ⟨fuel, by omega, by rw [reads fuel rest enough, Option.bind_some]⟩

theorem Reads.suffix (reads : Reads .leftHand ts e) (size : 0 < ts.length) (some_ : 0 < us.length)
    (step : ∀ fuel rest, 8 * us.length ≤ fuel + 8 →
      Parser.suffixes (fuel + 1) e (us ++ rest) = Parser.suffixes fuel a rest) :
    Reads .leftHand (ts ++ us) a := by
  intro fuel rest enough
  rw [List.length_append] at enough ⊢
  obtain ⟨left, used, reading⟩ := reads fuel (us ++ rest) (by omega)
  obtain ⟨left, rfl⟩ : ∃ f, left = f + 1 := ⟨left - 1, by omega⟩
  refine ⟨left, by omega, ?_⟩
  rw [List.append_assoc, reading, step left rest (by omega)]

theorem Reads.index (reads : Reads .leftHand ts e) (size : 0 < ts.length)
    (key : Reads .expression us b) (some_ : 0 < us.length) :
    Reads .leftHand (ts ++ .openBracket :: (us ++ [.closeBracket])) (.index e b) := by
  refine reads.suffix size (by simp) ?_
  intro fuel rest enough
  simp only [List.length_cons, List.length_append, List.length_nil] at enough
  have reading : Parser.sequence fuel (us ++ .closeBracket :: rest) =
      some (b, .closeBracket :: rest) := key.closed some_ (by omega) rfl (by simp)
  simp [Parser.suffixes, reading]

theorem Reads.call {es : List Expr} (reads : Reads .leftHand ts e) (size : 0 < ts.length)
    (arguments : ReadsItems us es) :
    Reads .leftHand (ts ++ .openParen :: (us ++ [.closeParen])) (.call e es) := by
  refine reads.suffix size (by simp) ?_
  intro fuel rest enough
  simp only [List.length_cons, List.length_append, List.length_nil] at enough
  have reading := arguments .closeParen fuel rest rfl rfl (by simp) (by omega) (by omega)
  simp [Parser.suffixes, reading]

theorem unary_of_operand {t : Token} (first : beginsOperand t = true) (fuel : Nat) :
    Parser.unary (fuel + 1) (t :: ts) =
      ((Parser.primary fuel (t :: ts)).bind fun r => Parser.suffixes fuel r.1 r.2).bind
        fun r => match r.2 with
          | .plusPlus :: ts => if r.1.isPlace then some (.increment r.1, ts) else none
          | _ => some r := by
  cases t with
  | number | word | openParen | openBracket =>
    simp only [Parser.unary, Option.bind_eq_bind, Option.bind_assoc]
    rfl
  | _ => cases first

theorem Reads.unsigned (reads : Reads .leftHand ts e)
    (first : ∃ t us, ts = t :: us ∧ beginsOperand t = true) : Reads .unary ts e := by
  intro fuel rest enough ends
  obtain ⟨t, us, rfl, first⟩ := first
  obtain ⟨fuel, rfl⟩ : ∃ f, fuel = f + 1 := ⟨fuel - 1, by simp at enough; omega⟩
  obtain ⟨left, used, reading⟩ := reads fuel rest (by omega)
  obtain ⟨left, rfl⟩ : ∃ f, left = f + 1 := ⟨left - 1, by omega⟩
  rw [suffixes_stop ends, List.cons_append] at reading
  rw [List.cons_append, unary_of_operand first, reading, Option.bind_some]
  cases rest with
  | nil => rfl
  | cons u rest =>
    have stops := ends u (by simp)
    cases u with
    | plusPlus => cases stops
    | _ => rfl

theorem Reads.increment (reads : Reads .leftHand ts e)
    (first : ∃ t us, ts = t :: us ∧ beginsOperand t = true) (place : e.isPlace = true) :
    Reads .unary (ts ++ [.plusPlus]) (.increment e) := by
  intro fuel rest enough _
  obtain ⟨t, us, rfl, first⟩ := first
  simp only [List.length_append, List.length_cons, List.length_nil] at enough
  obtain ⟨fuel, rfl⟩ : ∃ f, fuel = f + 1 := ⟨fuel - 1, by omega⟩
  obtain ⟨left, used, reading⟩ := reads fuel (.plusPlus :: rest) (by simp only [List.length_cons]; omega)
  obtain ⟨left, rfl⟩ : ∃ f, left = f + 1 := ⟨left - 1, by simp only [List.length_cons] at used; omega⟩
  have stops : Parser.suffixes (left + 1) e (.plusPlus :: rest) = some (e, .plusPlus :: rest) := rfl
  rw [stops, List.cons_append] at reading
  rw [List.append_assoc, List.cons_append, List.cons_append, List.nil_append,
    unary_of_operand first, reading, Option.bind_some]
  simp only [place, if_true]

theorem Reads.decrement (reads : Reads .unary ts e) (place : e.isPlace = true) :
    Reads .unary (.minusMinus :: ts) (.decrement e) := by
  intro fuel rest enough ends
  simp only [List.length_cons] at enough
  obtain ⟨fuel, rfl⟩ : ∃ f, fuel = f + 1 := ⟨fuel - 1, by omega⟩
  simp [Parser.unary, reads fuel rest (by omega) ends, place]

theorem Reads.sign (reads : Reads .unary ts e) (op : UnaryOp) :
    Reads .unary (op.token :: ts) (.unary op e) := by
  intro fuel rest enough ends
  simp only [List.length_cons] at enough
  obtain ⟨fuel, rfl⟩ : ∃ f, fuel = f + 1 := ⟨fuel - 1, by omega⟩
  have reading := reads fuel rest (by omega) ends
  cases op <;> simp [UnaryOp.token, Parser.unary, reading]

theorem Reads.single (reads : Reads .unary ts e) (size : 0 < ts.length) (n : Nat) :
    Reads (.binary n) ts e := by
  intro least fuel rest _ enough ends
  obtain ⟨fuel, rfl⟩ : ∃ f, fuel = f + 1 := ⟨fuel - 1, by omega⟩
  refine ⟨fuel, by omega, ?_⟩
  simp only [Parser.binary, reads fuel rest (by omega) ends.operand, Option.bind_eq_bind,
    Option.bind_some]

theorem Reads.operator {n : Nat} {op : BinaryOp} (left : Reads (.binary op.precedence) ts a)
    (right : Reads (.binary (op.precedence + 1)) us b) (leftSize : 0 < ts.length)
    (rightSize : 0 < us.length) (tight : n ≤ op.precedence) :
    Reads (.binary n) (ts ++ op.token :: us) (.binary op a b) := by
  intro least fuel rest low enough ends
  rw [List.length_append, List.length_cons] at enough ⊢
  obtain ⟨afterLeft, used, reading⟩ := left least fuel (op.token :: (us ++ rest)) (by omega)
    (by omega) (operatorEnds_token (by omega) _)
  obtain ⟨afterLeft, rfl⟩ : ∃ f, afterLeft = f + 1 := ⟨afterLeft - 1, by omega⟩
  obtain ⟨afterRight, usedRight, readingRight⟩ :=
    right (op.precedence + 1) afterLeft rest (by omega) (by omega) (ends.mono (by omega))
  obtain ⟨afterRight, rfl⟩ : ∃ f, afterRight = f + 1 := ⟨afterRight - 1, by omega⟩
  rw [moreBinary_stop (ends.below.mono (by omega))] at readingRight
  refine ⟨afterLeft, by omega, ?_⟩
  rw [List.append_assoc, List.cons_append, reading]
  simp only [Parser.moreBinary, binaryOp?_token, show least ≤ op.precedence by omega, if_true,
    readingRight, Option.bind_eq_bind, Option.bind_some]

theorem Reads.value (reads : Reads (.binary 0) ts e) (size : 0 < ts.length) :
    Reads .assignment ts e := by
  intro fuel rest enough ends
  obtain ⟨fuel, rfl⟩ : ∃ f, fuel = f + 1 := ⟨fuel - 1, by omega⟩
  obtain ⟨left, used, reading⟩ := reads 0 fuel rest (by omega) (by omega)
    (ends.operator.mono (by omega))
  obtain ⟨left, rfl⟩ : ∃ f, left = f + 1 := ⟨left - 1, by omega⟩
  simp only [Parser.assignment, reading, moreBinary_stop ends.operator.below, Option.bind_eq_bind,
    Option.bind_some]
  split
  next ts => exact absurd rfl ends.assign
  next => rfl

theorem Reads.assign (target : Reads (.binary 0) ts a) (size : 0 < ts.length)
    (place : a.isPlace = true) (value : Reads .assignment us b) :
    Reads .assignment (ts ++ .assign :: us) (.assign a b) := by
  intro fuel rest enough ends
  rw [List.length_append, List.length_cons] at enough
  obtain ⟨fuel, rfl⟩ : ∃ f, fuel = f + 1 := ⟨fuel - 1, by omega⟩
  obtain ⟨after, used, reading⟩ := target 0 fuel (.assign :: (us ++ rest)) (by omega) (by omega)
    (operatorEnds_assign _ _)
  obtain ⟨after, rfl⟩ : ∃ f, after = f + 1 := ⟨after - 1, by omega⟩
  rw [moreBinary_stop (operatorEnds_assign _ _).below] at reading
  simp [Parser.assignment, reading, place, value fuel rest (by omega) ends]

theorem Reads.only (reads : Reads .assignment ts e) (size : 0 < ts.length) :
    Reads .expression ts e := by
  intro fuel rest enough ends
  obtain ⟨fuel, rfl⟩ : ∃ f, fuel = f + 1 := ⟨fuel - 1, by omega⟩
  refine ⟨fuel, by omega, ?_⟩
  simp only [Parser.sequence, reads fuel rest (by omega) ends, Option.bind_eq_bind,
    Option.bind_some]

theorem Reads.sequence (first : Reads .expression ts a) (size : 0 < ts.length)
    (second : Reads .assignment us b) : Reads .expression (ts ++ .comma :: us) (.sequence a b) := by
  intro fuel rest enough ends
  rw [List.length_append, List.length_cons] at enough ⊢
  obtain ⟨after, used, reading⟩ := first fuel (.comma :: (us ++ rest)) (by omega)
    (assignmentEnds_cons rfl _)
  obtain ⟨after, rfl⟩ : ∃ f, after = f + 1 := ⟨after - 1, by omega⟩
  refine ⟨after, by omega, ?_⟩
  rw [List.append_assoc, List.cons_append, reading]
  simp only [Parser.moreSequence, second after rest (by omega) ends, Option.bind_eq_bind,
    Option.bind_some]

theorem readsItems_nil : ReadsItems [] [] := by
  intro closing fuel rest _ _ _ _ some_
  obtain ⟨fuel, rfl⟩ : ∃ f, fuel = f + 1 := ⟨fuel - 1, by omega⟩
  simp [Parser.items]

theorem Reads.last (item : Reads .assignment ts e)
    (first : ∃ t us, ts = t :: us ∧ begins t = true) : ReadsItems ts [e] := by
  intro closing fuel rest opens closes comma enough some_
  obtain ⟨t, us, rfl, first⟩ := first
  obtain ⟨fuel, rfl⟩ : ∃ f, fuel = f + 1 := ⟨fuel - 1, by omega⟩
  have opening : t ≠ closing := by
    rintro rfl
    exact absurd (first.symm.trans opens) (by simp)
  have reading := item fuel (closing :: rest) (by omega) (assignmentEnds_cons closes rest)
  rw [List.cons_append] at reading
  simp only [List.cons_append, Parser.items, if_neg opening, Option.bind_eq_bind, reading,
    Option.bind_some]
  cases closing with
  | comma => exact absurd rfl comma
  | closeParen | closeBracket | closeBrace | semicolon => rfl
  | _ => cases closes

theorem Reads.cons {es : List Expr} (item : Reads .assignment ts e)
    (first : ∃ t us, ts = t :: us ∧ begins t = true) (rest : ReadsItems us es) :
    ReadsItems (ts ++ .comma :: us) (e :: es) := by
  intro closing fuel behind opens closes comma enough some_
  obtain ⟨t, ts, rfl, first⟩ := first
  simp only [List.length_append, List.length_cons] at enough
  obtain ⟨fuel, rfl⟩ : ∃ f, fuel = f + 1 := ⟨fuel - 1, by omega⟩
  have opening : t ≠ closing := by
    rintro rfl
    exact absurd (first.symm.trans opens) (by simp)
  have reading := item fuel (.comma :: (us ++ closing :: behind))
    (by simp only [List.length_cons]; omega) (assignmentEnds_cons rfl _)
  have later := rest closing fuel behind opens closes comma (by omega) (by omega)
  rw [List.cons_append] at reading
  simp only [List.append_assoc, List.cons_append, Parser.items, if_neg opening, Option.bind_eq_bind,
    reading, Option.bind_some, later, Option.pure_def]

end

mutual

theorem Derives.reads {c : Category} {ts : List Token} {e : Expr} :
    Derives c ts e → Reads c ts e
  | .number n => by
    intro fuel rest enough
    obtain ⟨fuel, rfl⟩ : ∃ f, fuel = f + 1 := ⟨fuel - 1, by simp at enough; omega⟩
    rfl
  | .null => by
    intro fuel rest enough
    obtain ⟨fuel, rfl⟩ : ∃ f, fuel = f + 1 := ⟨fuel - 1, by simp at enough; omega⟩
    rfl
  | .name free => reads_name free
  | .paren inside => inside.reads.paren inside.length_pos
  | .array inside => inside.reads.array
  | .operand alone => alone.reads.operand alone.length_pos
  | .member object field =>
    object.reads.suffix object.length_pos (Nat.succ_pos 1) fun _ _ _ => rfl
  | .index object key => object.reads.index object.length_pos key.reads key.length_pos
  | .call callee arguments => callee.reads.call callee.length_pos arguments.reads
  | .unsigned alone => alone.reads.unsigned alone.exists_first
  | .increment target place => target.reads.increment target.exists_first place
  | .decrement target place => target.reads.decrement place
  | .sign op operand => operand.reads.sign op
  | .single alone => alone.reads.single alone.length_pos _
  | .operator tight left right =>
    left.reads.operator right.reads left.length_pos right.length_pos tight
  | .value alone => alone.reads.value alone.length_pos
  | .assign target place value =>
    ((target.reads.unsigned target.exists_first).single target.length_pos 0).assign
      target.length_pos place value.reads
  | .only alone => alone.reads.only alone.length_pos
  | .sequence first second => first.reads.sequence first.length_pos second.reads

theorem Items.reads {ts : List Token} {es : List Expr} : Items ts es → ReadsItems ts es
  | .nil => readsItems_nil
  | .last item => item.reads.last item.exists_first
  | .cons item rest => item.reads.cons item.exists_first rest.reads

end

theorem ends_of_statementEnd {ts rest : List Token} (ended : Parser.statementEnd ts = some rest) :
    AssignmentEnds ts ∧ ts.head? ≠ some .comma := by
  cases ts with
  | nil => exact ⟨assignmentEnds_nil, nofun⟩
  | cons t ts =>
    cases t with
    | semicolon | closeBrace => exact ⟨assignmentEnds_cons rfl _, by simp⟩
    | _ => cases ended

theorem Ends.statementEnd {last : Bool} {us rest : List Token} (ends : Ends last us)
    (final : last = true → atEnd rest = true) : Parser.statementEnd (us ++ rest) = some rest := by
  rcases ends with rfl | ⟨rfl, rfl⟩
  · rfl
  · have ended := final rfl
    cases rest with
    | nil => rfl
    | cons t rest =>
      cases t with
      | closeBrace => rfl
      | _ => cases ended

theorem Derives.sequence_eq {ts us rest : List Token} {e : Expr}
    (derived : Derives .expression ts e) (ended : Parser.statementEnd us = some rest) (fuel : Nat)
    (enough : 8 * ts.length ≤ fuel + 3) : Parser.sequence fuel (ts ++ us) = some (e, us) := by
  have size := derived.length_pos
  obtain ⟨ends, comma⟩ := ends_of_statementEnd ended
  obtain ⟨left, used, reading⟩ := derived.reads fuel us enough ends
  obtain ⟨left, rfl⟩ : ∃ f, left = f + 1 := ⟨left - 1, by omega⟩
  rw [reading, moreSequence_stop comma]

theorem Derives.test_eq {ts : List Token} {e : Expr} (derived : Derives .expression ts e)
    (fuel : Nat) (rest : List Token) (enough : 8 * ts.length ≤ fuel + 3) :
    Parser.test fuel (.openParen :: (ts ++ .closeParen :: rest)) = some (e, rest) := by
  have reading : Parser.sequence fuel (ts ++ .closeParen :: rest) = some (e, .closeParen :: rest) :=
    derived.reads.closed derived.length_pos enough rfl (by simp)
  simp [Parser.test, reading]

theorem Bindings.reads {ts us rest : List Token} {bs : List (String × Expr)}
    (bindings : Bindings ts bs) (ended : Parser.statementEnd us = some rest) (fuel : Nat)
    (enough : 8 * ts.length ≤ fuel + 4) : Parser.bindings fuel (ts ++ us) = some (bs, us) := by
  obtain ⟨ends, comma⟩ := ends_of_statementEnd ended
  induction bindings generalizing fuel with
  | @last x ts e free plain value =>
    simp only [List.length_cons] at enough
    obtain ⟨fuel, rfl⟩ : ∃ f, fuel = f + 1 := ⟨fuel - 1, by omega⟩
    have reading := value.reads fuel us (by omega) ends
    simp only [List.cons_append, Parser.bindings, List.contains_eq_mem, free, plain, reading,
      decide_false, Bool.or_self, Bool.false_eq_true, if_false, Option.bind_eq_bind,
      Option.bind_some]
    split
    next => exact absurd rfl comma
    next => rfl
  | @cons x ts vs e bs free plain value _ ih =>
    simp only [List.length_cons, List.length_append] at enough
    obtain ⟨fuel, rfl⟩ : ∃ f, fuel = f + 1 := ⟨fuel - 1, by omega⟩
    have reading := value.reads fuel (.comma :: (vs ++ us)) (by omega) (assignmentEnds_cons rfl _)
    simp [Parser.bindings, free, plain, reading, ih fuel (by omega)]

theorem statement_of_begins {t : Token} (first : begins t = true) (fuel : Nat) (ts : List Token) :
    Parser.statement (fuel + 1) (t :: ts) = (Parser.sequence fuel (t :: ts)).bind fun r =>
      (Parser.statementEnd r.2).bind fun rest => some (.expr r.1, rest) := by
  cases t with
  | word w =>
    simp only [begins, beginsOperand, isKeyword, Bool.not_eq_true', Bool.or_eq_false_iff,
      beq_eq_false_iff_ne] at first
    rw [Parser.statement.eq_def]
    split <;> simp_all
  | semicolon | openBrace => cases first
  | _ => rfl

theorem statementEnd_of_begins {t : Token} (first : begins t = true) (ts : List Token) :
    Parser.statementEnd (t :: ts) = none := by
  cases t with
  | semicolon | closeBrace => cases first
  | _ => rfl

def ReadsStatement (last : Bool) (ts : List Token) (s : Stmt) : Prop :=
  ∀ fuel rest, (last = true → atEnd rest = true) → 8 * ts.length ≤ fuel + 2 →
    Parser.statement fuel (ts ++ rest) = some (s, rest)

def ReadsStatements (last : Bool) (ts : List Token) (ss : List Stmt) : Prop :=
  ∀ fuel read rest, (last = true → atEnd rest = true) → 8 * ts.length ≤ fuel →
    ∃ left, fuel ≤ left + ts.length ∧
      Parser.statements fuel read (ts ++ rest) = Parser.statements left (ss.reverse ++ read) rest

section

variable {last : Bool} {ts us : List Token} {e : Expr} {s : Stmt} {ss : List Stmt}

theorem ReadsStatements.block (inside : ReadsStatements true ts ss) :
    ReadsStatement last (.openBrace :: (ts ++ [.closeBrace])) (.block ss) := by
  intro fuel rest _ enough
  simp only [List.length_cons, List.length_append, List.length_nil] at enough
  obtain ⟨fuel, rfl⟩ : ∃ f, fuel = f + 1 := ⟨fuel - 1, by omega⟩
  obtain ⟨left, used, reading⟩ := inside fuel [] (.closeBrace :: rest) (fun _ => rfl) (by omega)
  obtain ⟨left, rfl⟩ : ∃ f, left = f + 1 := ⟨left - 1, by omega⟩
  rw [statements_atEnd rfl] at reading
  simp [Parser.statement, reading]

theorem Bindings.declare {bs : List (String × Expr)} (bindings : Bindings ts bs)
    (ends : Ends last us) : ReadsStatement last (.word "var" :: (ts ++ us)) (.declare bs) := by
  intro fuel rest final enough
  simp only [List.length_cons, List.length_append] at enough
  obtain ⟨fuel, rfl⟩ : ∃ f, fuel = f + 1 := ⟨fuel - 1, by omega⟩
  have ended := ends.statementEnd final
  simp [Parser.statement, bindings.reads ended fuel (by omega), ended]

theorem ReadsStatement.when (test : Derives .expression ts e) (body : ReadsStatement last us s) :
    ReadsStatement last (.word "if" :: .openParen :: (ts ++ .closeParen :: us)) (.when e s) := by
  intro fuel rest final enough
  simp only [List.length_cons, List.length_append] at enough
  obtain ⟨fuel, rfl⟩ : ∃ f, fuel = f + 1 := ⟨fuel - 1, by omega⟩
  have testing := test.test_eq fuel (us ++ rest) (by omega)
  simp [Parser.statement, testing, body fuel rest final (by omega)]

theorem ReadsStatement.loop (test : Derives .expression ts e) (body : ReadsStatement last us s) :
    ReadsStatement last (.word "while" :: .openParen :: (ts ++ .closeParen :: us)) (.loop e s) := by
  intro fuel rest final enough
  simp only [List.length_cons, List.length_append] at enough
  obtain ⟨fuel, rfl⟩ : ∃ f, fuel = f + 1 := ⟨fuel - 1, by omega⟩
  have testing := test.test_eq fuel (us ++ rest) (by omega)
  simp [Parser.statement, testing, body fuel rest final (by omega)]

theorem Ends.leave (ends : Ends last us) :
    ReadsStatement last (.word "return" :: us) (.ret none) := by
  intro fuel rest final enough
  simp only [List.length_cons] at enough
  obtain ⟨fuel, rfl⟩ : ∃ f, fuel = f + 1 := ⟨fuel - 1, by omega⟩
  simp [Parser.statement, ends.statementEnd final]

theorem Derives.ret (value : Derives .expression ts e) (ends : Ends last us) :
    ReadsStatement last (.word "return" :: (ts ++ us)) (.ret (some e)) := by
  intro fuel rest final enough
  simp only [List.length_cons, List.length_append] at enough
  obtain ⟨fuel, rfl⟩ : ∃ f, fuel = f + 1 := ⟨fuel - 1, by omega⟩
  have ended := ends.statementEnd final
  have reading := value.sequence_eq ended fuel (by omega)
  obtain ⟨t, ts, rfl, first⟩ := value.exists_begins
  rw [List.cons_append] at reading
  simp [Parser.statement, statementEnd_of_begins first, reading, ended]

theorem Derives.expr (value : Derives .expression ts e) (ends : Ends last us) :
    ReadsStatement last (ts ++ us) (.expr e) := by
  intro fuel rest final enough
  have size := value.length_pos
  rw [List.length_append] at enough
  obtain ⟨fuel, rfl⟩ : ∃ f, fuel = f + 1 := ⟨fuel - 1, by omega⟩
  have ended := ends.statementEnd final
  have reading := value.sequence_eq ended fuel (by omega)
  obtain ⟨t, ts, rfl, first⟩ := value.exists_begins
  rw [List.cons_append] at reading
  rw [List.append_assoc, List.cons_append, statement_of_begins first, reading, Option.bind_some,
    ended, Option.bind_some]

theorem ReadsStatement.final (reads : ReadsStatement true ts s)
    (first : ∃ t us, ts = t :: us ∧ t ≠ .closeBrace) : ReadsStatements true ts [s] := by
  intro fuel read rest final enough
  obtain ⟨t, us, rfl, other⟩ := first
  obtain ⟨fuel, rfl⟩ : ∃ f, fuel = f + 1 := ⟨fuel - 1, by simp at enough; omega⟩
  have reading := reads fuel rest final (by omega)
  rw [List.cons_append] at reading
  refine ⟨fuel, by simp, ?_⟩
  rw [List.cons_append, statements_cons other, reading]
  rfl

theorem ReadsStatement.cons (reads : ReadsStatement false ts s)
    (first : ∃ t us, ts = t :: us ∧ t ≠ .closeBrace) (later : ReadsStatements last us ss) :
    ReadsStatements last (ts ++ us) (s :: ss) := by
  intro fuel read rest final enough
  obtain ⟨t, ts, rfl, other⟩ := first
  rw [List.length_append, List.length_cons] at enough ⊢
  obtain ⟨fuel, rfl⟩ : ∃ f, fuel = f + 1 := ⟨fuel - 1, by omega⟩
  have reading := reads fuel (us ++ rest) nofun (by rw [List.length_cons]; omega)
  obtain ⟨left, used, more⟩ := later fuel (s :: read) rest final (by omega)
  refine ⟨left, by omega, ?_⟩
  rw [List.cons_append] at reading
  rw [List.append_assoc, List.cons_append, statements_cons other, reading, Option.bind_some, more,
    List.reverse_cons, List.append_assoc, List.cons_append, List.nil_append]

end

mutual

theorem Statement.reads {last : Bool} {ts : List Token} {s : Stmt} :
    Statement last ts s → ReadsStatement last ts s
  | .empty => by
    intro fuel rest _ enough
    obtain ⟨fuel, rfl⟩ : ∃ f, fuel = f + 1 := ⟨fuel - 1, by simp at enough; omega⟩
    rfl
  | .block inside => inside.reads.block
  | .declare bindings ends => bindings.declare ends
  | .when test body => body.reads.when test
  | .loop test body => body.reads.loop test
  | .leave ends => ends.leave
  | .ret value ends => value.ret ends
  | .expr value ends => value.expr ends

theorem Statements.reads {last : Bool} {ts : List Token} {ss : List Stmt} :
    Statements last ts ss → ReadsStatements last ts ss
  | .nil => fun fuel _ _ _ _ => ⟨fuel, by simp, rfl⟩
  | .final statement => statement.reads.final statement.exists_first
  | .cons first rest => first.reads.cons first.exists_first rest.reads

end

theorem statements_eq_some_iff {ts : List Token} {ss : List Stmt} :
    Parser.statements (8 * ts.length + 8) [] ts = some (ss, []) ↔ Body ts ss := by
  constructor
  · intro read
    obtain ⟨-, us, body, split, rfl, derived⟩ := (soundStatements _).statements read
    rw [List.append_nil] at split
    exact split ▸ derived
  · intro body
    obtain ⟨left, used, reading⟩ := body.reads (8 * ts.length + 8) [] [] (fun _ => rfl) (by omega)
    obtain ⟨left, rfl⟩ : ∃ f, left = f + 1 := ⟨left - 1, by omega⟩
    rw [List.append_nil, List.append_nil, statements_atEnd (show atEnd [] = true from rfl)] at reading
    simpa using reading

theorem parse?_eq_some_iff {code : String} {ss : List Stmt} :
    parse? code = some ss ↔ ∃ ts, Token.ofText? code.toList = some ts ∧ Body ts ss := by
  simp only [parse?, Option.bind_eq_bind, Option.bind_eq_some_iff]
  constructor
  · rintro ⟨ts, lexed, ⟨body, rest⟩, read, same⟩
    cases rest with
    | nil =>
      obtain rfl : body = ss := by simpa using same
      exact ⟨ts, lexed, statements_eq_some_iff.mp read⟩
    | cons => cases same
  · rintro ⟨ts, lexed, body⟩
    exact ⟨ts, lexed, (ss, []), statements_eq_some_iff.mpr body, rfl⟩

end ZCode.Script.Grammar
