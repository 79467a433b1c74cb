import ZCode.Proofs.Statement.Execution

set_option autoImplicit false

namespace ZCode.Statement

open ZCode.Script

def Realizes (n : Nat) (i : Instruction) (op : Op) (ops : List Operand)
    (tells : Value → Rules.Result) (e : Phrase) : Prop :=
  ∀ t m ws m₁ r m₂, Chain t ops ws m m₁ → Rules.Sized n m₁ →
    (Rules.perform i op ws).run m₁ = some (r, m₂) →
      ∃ x, Gives (eval e.expr) (frame m t) x (frame m₂ t) ∧ tells x = r ∧ Rules.Sized n m₂

def toStore (x : Value) : Rules.Result :=
  .word x.word

def toTest (x : Value) : Rules.Result :=
  .test x.truthy

theorem number_signed {op : Operand} (signed : op.signed = true) (w : UInt16) :
    number op w = w.toInt16.toInt := by
  rw [number, if_pos signed]

theorem number_unsigned {op : Operand} (unsigned : op.signed = false) (w : UInt16) :
    number op w = w.toNat := by
  rw [number, if_neg (by simp [unsigned])]

theorem same_words (x y : UInt16) :
    (applyBinary .same (.ofInt x.toNat) (.ofInt y.toNat)).truthy = (x == y) := by
  rw [applyBinary_same, Value.truthy, beq_eq_decide, decide_eq_decide, Int.natCast_inj,
    UInt16.toNat_inj]

theorem Chain.unsigned {t : Value} {ops : List Operand} {ws : List UInt16} {m m₁ : Machine}
    (chain : Chain t ops ws m m₁) (unsigned : ∀ op ∈ ops, op.signed = false) :
    List.zipWith (fun op w => Value.ofInt (number op w)) ops ws = ws.map .ofWord := by
  induction chain with
  | nil => rfl
  | cons _ _ ih =>
    rw [List.forall_mem_cons] at unsigned
    rw [List.zipWith_cons_cons, ih unsigned.2, number_unsigned unsigned.1]
    rfl

section Inversion

variable {t : Value} {a b c : Operand} {ws : List UInt16} {m m₁ : Machine}

theorem Chain.one (chain : Chain t [a] ws m m₁) : ∃ x, ws = [x] ∧
    Gives (eval (operandPhrase a).expr) (frame m t) (.ofInt (number a x)) (frame m₁ t) := by
  cases chain with
  | cons first rest =>
    cases rest with
    | nil => exact ⟨_, rfl, first⟩

theorem Chain.two (chain : Chain t [a, b] ws m m₁) : ∃ x y m₂, ws = [x, y] ∧
    Gives (eval (operandPhrase a).expr) (frame m t) (.ofInt (number a x)) (frame m₂ t) ∧
    Gives (eval (operandPhrase b).expr) (frame m₂ t) (.ofInt (number b y)) (frame m₁ t) := by
  cases chain with
  | cons first rest =>
    obtain ⟨y, rfl, second⟩ := rest.one
    exact ⟨_, y, _, rfl, first, second⟩

theorem Chain.three (chain : Chain t [a, b, c] ws m m₁) : ∃ x y z m₂ m₃, ws = [x, y, z] ∧
    Gives (eval (operandPhrase a).expr) (frame m t) (.ofInt (number a x)) (frame m₂ t) ∧
    Gives (eval (operandPhrase b).expr) (frame m₂ t) (.ofInt (number b y)) (frame m₃ t) ∧
    Gives (eval (operandPhrase c).expr) (frame m₃ t) (.ofInt (number c z)) (frame m₁ t) := by
  cases chain with
  | cons first rest =>
    obtain ⟨y, z, _, rfl, second, third⟩ := rest.two
    exact ⟨_, y, z, _, _, rfl, first, second, third⟩

end Inversion

section Opcodes

variable {n : Nat} {i : Instruction} {op : Op} {a b c : Operand} {tells : Value → Rules.Result}

theorem realizes_one {e : Phrase} {f : UInt16 → Rules.Result} (value : Value → Value)
    (computes : ∀ x, Rules.perform i op [x] = pure (f x))
    (gives : ∀ {s s₁ v}, Gives (eval (operandPhrase a).expr) s v s₁ → Gives (eval e.expr) s (value v) s₁)
    (agrees : ∀ x, tells (value (.ofInt (number a x))) = f x) : Realizes n i op [a] tells e := by
  intro t m ws m₁ r m₂ chain sized ran
  obtain ⟨x, rfl, first⟩ := chain.one
  rw [computes, Rules.pure_eq_some_iff] at ran
  obtain ⟨rfl, rfl⟩ := ran
  exact ⟨_, gives first, agrees x, sized⟩

theorem realizes_two {e : Phrase} {f : UInt16 → UInt16 → Rules.Result}
    (value : Value → Value → Value)
    (computes : ∀ x y, Rules.perform i op [x, y] = pure (f x y))
    (gives : ∀ {s s₁ s₂ v w}, Gives (eval (operandPhrase a).expr) s v s₁ →
      Gives (eval (operandPhrase b).expr) s₁ w s₂ → Gives (eval e.expr) s (value v w) s₂)
    (agrees : ∀ x y, tells (value (.ofInt (number a x)) (.ofInt (number b y))) = f x y) :
    Realizes n i op [a, b] tells e := by
  intro t m ws m₁ r m₂ chain sized ran
  obtain ⟨x, y, _, rfl, first, second⟩ := chain.two
  rw [computes, Rules.pure_eq_some_iff] at ran
  obtain ⟨rfl, rfl⟩ := ran
  exact ⟨_, gives first second, agrees x y, sized⟩

theorem realizes_binary (o : BinaryOp) {f : UInt16 → UInt16 → Rules.Result}
    (computes : ∀ x y, Rules.perform i op [x, y] = pure (f x y))
    (agrees : ∀ x y, tells (applyBinary o (.ofInt (number a x)) (.ofInt (number b y))) = f x y) :
    Realizes n i op [a, b] tells (.binary o (operandPhrase a) (operandPhrase b)) :=
  realizes_two (applyBinary o) computes (fun first second => first.binary o second) agrees

theorem realizes_less (first : a.signed = true) (second : b.signed = true) :
    Realizes n i .jl [a, b] toTest (.binary .less (operandPhrase a) (operandPhrase b)) := by
  refine realizes_binary .less (fun _ _ => rfl) fun x y => ?_
  rw [number_signed first, number_signed second, applyBinary_less, toTest]
  simp [Value.truthy, Int16.lt_iff_toInt_lt]

theorem realizes_greater (first : a.signed = true) (second : b.signed = true) :
    Realizes n i .jg [a, b] toTest (.binary .greater (operandPhrase a) (operandPhrase b)) := by
  refine realizes_binary .greater (fun _ _ => rfl) fun x y => ?_
  rw [number_signed first, number_signed second, applyBinary_greater, toTest]
  simp [Value.truthy, Int16.lt_iff_toInt_lt]

section Unsigned

variable (first : a.signed = false) (second : b.signed = false)

include first second

theorem realizes_or :
    Realizes n i .or [a, b] toStore (.binary .bitOr (operandPhrase a) (operandPhrase b)) := by
  refine realizes_binary .bitOr (fun _ _ => rfl) fun x y => ?_
  rw [number_unsigned first, number_unsigned second, toStore, word_bitOr, Value.word_ofInt,
    Value.word_ofInt, Word.ofInt_toNat, Word.ofInt_toNat]

theorem realizes_and :
    Realizes n i .and [a, b] toStore (.binary .bitAnd (operandPhrase a) (operandPhrase b)) := by
  refine realizes_binary .bitAnd (fun _ _ => rfl) fun x y => ?_
  rw [number_unsigned first, number_unsigned second, toStore, word_bitAnd, Value.word_ofInt,
    Value.word_ofInt, Word.ofInt_toNat, Word.ofInt_toNat]

theorem realizes_add :
    Realizes n i .add [a, b] toStore (.binary .add (operandPhrase a) (operandPhrase b)) := by
  refine realizes_binary .add (fun _ _ => rfl) fun x y => ?_
  have left := x.toNat_lt
  have right := y.toNat_lt
  rw [number_unsigned first, number_unsigned second, applyBinary_add (by omega), toStore,
    Value.word_ofInt, UInt16.ofInt_add, Word.ofInt_toNat, Word.ofInt_toNat]

theorem realizes_sub :
    Realizes n i .sub [a, b] toStore (.binary .sub (operandPhrase a) (operandPhrase b)) := by
  refine realizes_binary .sub (fun _ _ => rfl) fun x y => ?_
  have left := x.toNat_lt
  have right := y.toNat_lt
  rw [number_unsigned first, number_unsigned second, applyBinary_sub (by omega), toStore,
    Value.word_ofInt, Word.ofInt_sub, Word.ofInt_toNat, Word.ofInt_toNat]

theorem realizes_mul :
    Realizes n i .mul [a, b] toStore (.binary .mul (operandPhrase a) (operandPhrase b)) := by
  refine realizes_binary .mul (fun _ _ => rfl) fun x y => ?_
  have product : x.toNat * y.toNat ≤ 65535 * 65535 :=
    Nat.mul_le_mul (Nat.le_of_lt_succ x.toNat_lt) (Nat.le_of_lt_succ y.toNat_lt)
  rw [number_unsigned first, number_unsigned second, applyBinary_mul (by simp; omega), toStore,
    Value.word_ofInt, UInt16.ofInt_mul, Word.ofInt_toNat, Word.ofInt_toNat]

end Unsigned

theorem realizes_div (first : a.signed = true) (second : b.signed = true) :
    Realizes n i .div [a, b] toStore (.binary .bitOr
      (.paren (.binary .div (operandPhrase a) (operandPhrase b))) (.number 0)) := by
  refine realizes_two (fun v w => applyBinary .bitOr (applyBinary .div v w) (.ofInt 0))
    (fun _ _ => rfl) (fun first second => (first.binary .div second).binary .bitOr (gives_number 0))
    fun x y => ?_
  have bounds := Word.toInt16_bounds x
  have none_ : (Value.ofInt 0).word = 0 := rfl
  rw [number_signed first, number_signed second, toStore, word_bitOr, word_div (by omega), none_,
    UInt16.or_zero]

theorem realizes_mod (first : a.signed = true) (second : b.signed = true) :
    Realizes n i .mod [a, b] toStore (.binary .rem (operandPhrase a) (operandPhrase b)) := by
  refine realizes_binary .rem (fun _ _ => rfl) fun x y => ?_
  have zero : y.toInt16.toInt = 0 ↔ y = 0 := Word.toInt16_inj (b := 0)
  rw [number_signed first, number_signed second, toStore, word_rem]
  simp only [zero]

theorem realizes_not (same : ∀ x, Rules.perform i op [x] = pure (.word (~~~ x)))
    (first : a.signed = false) :
    Realizes n i op [a] toStore (.unary .complement (operandPhrase a)) := by
  refine realizes_one (applyUnary .complement) same (fun value => value.unary .complement) fun x => ?_
  rw [number_unsigned first, toStore, word_complement, Value.word_ofInt, Word.ofInt_toNat]

theorem realizes_jz (first : a.signed = false) :
    Realizes n i .jz [a] toTest (.binary .same (operandPhrase a) (.number 0)) := by
  refine realizes_one (fun v => applyBinary .same v (.ofInt 0)) (fun _ => rfl)
    (fun value => value.binary .same (gives_number 0)) fun x => ?_
  rw [number_unsigned first, toTest]
  exact congrArg Rules.Result.test (same_words x 0)

theorem realizes_je (first : a.signed = false) (second : b.signed = false) :
    Realizes n i .je [a, b] toTest (.binary .same (operandPhrase a) (operandPhrase b)) := by
  refine realizes_binary .same (fun _ _ => rfl) fun x y => ?_
  rw [number_unsigned first, number_unsigned second, toTest, same_words]
  simp [beq_eq_decide]

theorem realizes_jeq {ops : List Operand} (unsigned : ∀ op ∈ ops, op.signed = false) :
    Realizes n i .je ops toTest (hostPhrase "jeq" (ops.map operandPhrase)) := by
  intro t m ws m₁ r m₂ chain sized ran
  have values := chain.all
  rw [chain.unsigned unsigned] at values
  cases ws with
  | nil => cases ran
  | cons x others =>
    obtain ⟨rfl, rfl⟩ := Rules.pure_eq_some_iff.mp ran
    refine ⟨_, (gives_runtime "jeq").call values (gives_pure _), ?_, sized⟩
    have same (y : UInt16) : (Value.ofWord y).same (.ofWord x) = (y == x) := by
      rw [← same_words]
      rfl
    have found : (others.map Value.ofWord).any (·.same (.ofWord x)) = others.contains x := by
      rw [List.any_map, List.contains_eq_any_beq]
      congr 1
      funext y
      exact (same y).trans (Bool.beq_comm ..)
    simp only [List.map_cons, List.tail_cons, argument, List.getD_cons_zero, found, toTest,
      Value.truthy_ofInt]
    cases others.contains x <;> rfl

section Tables

variable {s s₁ s₂ : State} {x y : UInt16}

theorem gives_byteAddress (first : Gives (eval (operandPhrase a).expr) s (.ofInt x.toNat) s₁)
    (second : Gives (eval (operandPhrase b).expr) s₁ (.ofInt y.toInt16.toInt) s₂) :
    Gives (eval (Phrase.binary .add (operandPhrase a) (operandPhrase b)).expr) s
      (.ofInt (x.toNat + y.toInt16.toInt)) s₂ := by
  have table := x.toNat_lt
  have index := Word.toInt16_bounds y
  rw [← applyBinary_add (by omega)]
  exact first.binary .add second

theorem gives_wordAddress (first : Gives (eval (operandPhrase a).expr) s (.ofInt x.toNat) s₁)
    (second : Gives (eval (operandPhrase b).expr) s₁ (.ofInt y.toInt16.toInt) s₂) :
    Gives (eval (Phrase.binary .add (operandPhrase a)
      (.binary .mul (.number 2) (operandPhrase b))).expr) s
      (.ofInt (x.toNat + 2 * y.toInt16.toInt)) s₂ := by
  have table := x.toNat_lt
  have index := Word.toInt16_bounds y
  rw [← applyBinary_add (by omega), ← applyBinary_mul (by omega)]
  exact first.binary .add ((gives_number 2).binary .mul second)

end Tables

variable (first : a.signed = false) (second : b.signed = true)

include first second

theorem realizes_loadw : Realizes n i .loadw [a, b] toStore (memory "m" "getUint16"
    [.binary .add (operandPhrase a) (.binary .mul (.number 2) (operandPhrase b))]) := by
  intro t m ws m₁ r m₂ chain sized ran
  obtain ⟨x, y, _, rfl, table, index⟩ := chain.two
  replace ran := Rules.bind_eq_some_iff.mp ran
  simp only [Rules.bind_eq_some_iff, Rules.item_eq_some_iff, Rules.get_eq_some_iff,
    Rules.pure_eq_some_iff] at ran
  obtain ⟨_, _, ⟨⟨low, high⟩, rfl, rfl⟩, _, _, ⟨rfl, rfl⟩, rfl, rfl⟩ := ran
  rw [number_unsigned first] at table
  rw [number_signed second] at index
  refine ⟨_, gives_getUint16 (gives_wordAddress table index) low high, ?_, sized⟩
  rw [toStore, Value.word_ofWord]

theorem realizes_loadb : Realizes n i .loadb [a, b] toStore (memory "m" "getUint8"
    [.binary .add (operandPhrase a) (operandPhrase b)]) := by
  intro t m ws m₁ r m₂ chain sized ran
  obtain ⟨x, y, _, rfl, table, index⟩ := chain.two
  replace ran := Rules.bind_eq_some_iff.mp ran
  simp only [Rules.bind_eq_some_iff, Rules.item_eq_some_iff, Rules.get_eq_some_iff,
    Rules.pure_eq_some_iff] at ran
  obtain ⟨_, _, ⟨⟨low, high⟩, rfl, rfl⟩, _, _, ⟨rfl, rfl⟩, rfl, rfl⟩ := ran
  rw [number_unsigned first] at table
  rw [number_signed second] at index
  refine ⟨_, gives_getUint8 (gives_byteAddress table index) low high, ?_, sized⟩
  rw [toStore, Value.word_ofInt, ← UInt8.toNat_toUInt16, Word.ofInt_toNat]

variable (third : c.signed = false)

include third

theorem realizes_storew : Realizes n i .storew [a, b, c] (fun _ => .nothing)
    (memory "ram" "setUint16"
      [.binary .add (operandPhrase a) (.binary .mul (.number 2) (operandPhrase b)),
        operandPhrase c]) := by
  intro t m ws m₁ r m₂ chain sized ran
  obtain ⟨x, y, w, _, _, rfl, table, index, value⟩ := chain.three
  replace ran := Rules.bind_eq_some_iff.mp ran
  simp only [Rules.bind_eq_some_iff, Rules.item_eq_some_iff, Rules.write,
    Rules.modify_eq_some_iff, Rules.pure_eq_some_iff] at ran
  obtain ⟨_, _, ⟨⟨low, high⟩, rfl, rfl⟩, _, _, rfl, rfl, rfl⟩ := ran
  rw [number_unsigned first] at table
  rw [number_signed second] at index
  rw [number_unsigned third] at value
  have written := gives_setUint16 (gives_wordAddress table index) value low high
  rw [Value.word_ofInt, Word.ofInt_toNat] at written
  exact ⟨_, written, rfl, ⟨sized.locals, sized.stack, by simpa using sized.memory⟩⟩

theorem realizes_storeb : Realizes n i .storeb [a, b, c] (fun _ => .nothing)
    (memory "ram" "setUint8"
      [.binary .add (operandPhrase a) (operandPhrase b), operandPhrase c]) := by
  intro t m ws m₁ r m₂ chain sized ran
  obtain ⟨x, y, w, _, _, rfl, table, index, value⟩ := chain.three
  replace ran := Rules.bind_eq_some_iff.mp ran
  simp only [Rules.bind_eq_some_iff, Rules.item_eq_some_iff, Rules.write,
    Rules.modify_eq_some_iff, Rules.pure_eq_some_iff] at ran
  obtain ⟨_, _, ⟨⟨low, high⟩, rfl, rfl⟩, _, _, rfl, rfl, rfl⟩ := ran
  rw [number_unsigned first] at table
  rw [number_signed second] at index
  rw [number_unsigned third] at value
  have byte : (Value.ofInt w.toNat).toNumber.toUInt8 = w.toUInt8 :=
    (Number.toUInt8_ofInt _).trans (Word.ofInt_toNat_byte w)
  have written := gives_setUint8 (gives_byteAddress table index) value low high
  rw [byte] at written
  exact ⟨_, written, rfl, ⟨sized.locals, sized.stack, by simpa using sized.memory⟩⟩

end Opcodes

theorem realizes_pop {n : Nat} {i : Instruction} :
    Realizes n i .popOrCatch [] (fun _ => .nothing) popped := by
  intro t m ws m₁ r m₂ chain sized ran
  cases chain with
  | nil =>
    obtain ⟨_, _, taken, ran⟩ := Rules.bind_eq_some_iff.mp ran
    obtain ⟨⟨low, high⟩, rfl, rfl⟩ := Rules.pop_eq_some_iff.mp taken
    obtain ⟨rfl, rfl⟩ := Rules.pure_eq_some_iff.mp ran
    exact ⟨_, gives_popped low high sized.stack, rfl, ⟨sized.locals, sized.stack, sized.memory⟩⟩

def shapeOf (version : UInt8) (op : Op) : Shape :=
  (Shape.row? version op).getD {}

-- The rows of the table that change between versions.
section Rows

variable (version : UInt8)

theorem shapeOf_save : shapeOf version .save =
    if version < 4 then .branchingAndPausing else .storingAndPausing :=
  rfl

theorem shapeOf_restore : shapeOf version .restore =
    if version < 4 then .branchingAndPausing else .storingAndPausing :=
  rfl

theorem shapeOf_showStatus : shapeOf version .showStatus = if version < 4 then .pausing else {} :=
  apply_ite (fun row : Option Shape => row.getD {}) (version < 4) (some .pausing) none

theorem shapeOf_notOrCall1n : shapeOf version .notOrCall1n =
    if version < 5 then .storing else .ends :=
  rfl

theorem shapeOf_popOrCatch : shapeOf version .popOrCatch = if version < 5 then {} else .storing :=
  apply_ite (fun row : Option Shape => row.getD {}) (version < 5) none (some .storing)

theorem shapeOf_read : shapeOf version .read =
    if version < 5 then .pausing else .storingAndPausing :=
  rfl

end Rows

structure Shaped (p : Profile) (length : Nat) (op : Op) (i : Instruction) : Prop where
  known : i.op? = some op
  stores : i.stores = (shapeOf p.version op).stores
  result : (shapeOf p.version op).stores = true → i.result.isSome = true
  branch : i.branch.isSome = (shapeOf p.version op).branches
  endsBlock : i.endsBlock = (shapeOf p.version op).endsBlock
  pauses : i.pauses = (shapeOf p.version op).pauses
  signed : ∀ k operand, i.operands[k]? = some operand →
    operand.signed = (shapeOf p.version op).signedAt k
  reachable : ∀ operand ∈ i.operands, Reachable length operand
  globals : ∀ v : UInt8, 16 ≤ v → (p.globalAddr v).toNat + 2 ≤ length

theorem Shaped.unsigned {p : Profile} {n : Nat} {op : Op} {i : Instruction}
    (shaped : Shaped p n op i) (isSub : i.op? = some .sub) :
    ∀ operand ∈ i.operands, operand.kind ≠ .signedConstant := by
  intro operand inside same
  obtain rfl : op = .sub := Option.some.inj (shaped.known.symm.trans isSub)
  obtain ⟨k, at_⟩ := List.mem_iff_getElem?.mp inside
  have unsigned : operand.signed = false := shaped.signed k operand at_
  rw [Operand.signed, same] at unsigned
  cases unsigned

def Simulates (p : Profile) (n : Nat) (i : Instruction) (cs : List Clause) : Prop :=
  ∀ t m flow m', Rules.Sized n m → (Rules.step p i).run m = some (flow, m') →
    ∃ c t', Gives (execAll (Clause.stmts cs)) (frame m t) c (frame m' t') ∧ Completes i c flow ∧
      Rules.Sized n m'

section Simulation

variable {p : Profile} {n : Nat} {op : Op} {i : Instruction} {e : Phrase} {signs : List Bool}

theorem Shaped.simulates (shaped : Shaped p n op i) {cs : List Clause}
    (runs : ∀ t m ws m₁ r m₂ flow m', Chain t i.operands ws m m₁ → Rules.Sized n m₁ →
      (Rules.perform i op ws).run m₁ = some (r, m₂) →
      (Rules.conclude p i r).run m₂ = some (flow, m') →
      ∃ c t', Gives (execAll (Clause.stmts cs)) (frame m t) c (frame m' t') ∧ Completes i c flow ∧
        Rules.Sized n m') : Simulates p n i cs := by
  intro t m flow m' sized ran
  obtain ⟨ws, m₁, r, m₂, read, performed, concluded⟩ := (Rules.step_eq_some_iff shaped.known).mp ran
  obtain ⟨chain, sized⟩ := exists_chain (t := t) sized shaped.reachable read
  exact runs t m ws m₁ r m₂ flow m' chain sized performed concluded

theorem Shaped.clauses_stored (shaped : Shaped p n op i)
    (shape : shapeOf p.version op = { stores := true, signed := signs })
    (effected : effect p i (i.operands.map operandPhrase) op = some (.value e)) {v : UInt8}
    (result : i.result = some v) :
    clauses p i = some [.simple (.expr (assignPhrase p v e))] := by
  have stores : i.stores = true := by rw [shaped.stores, shape]
  have straight : i.branch = none := by simpa [shape] using shaped.branch
  have goes : i.pauses = false := by rw [shaped.pauses, shape]
  simp [clauses, shaped.known, effected, Effect.stored, stores, result, Effect.branched, straight,
    Effect.paused, goes, Effect.clauses]

theorem Shaped.stored (shaped : Shaped p n op i)
    (shape : shapeOf p.version op = { stores := true, signed := signs })
    (effected : effect p i (i.operands.map operandPhrase) op = some (.value e))
    (realizes : Realizes n i op i.operands toStore e) :
    ∃ cs, clauses p i = some cs ∧ Simulates p n i cs := by
  obtain ⟨v, result⟩ := Option.isSome_iff_exists.mp (shaped.result (by rw [shape]))
  refine ⟨_, shaped.clauses_stored shape effected result, shaped.simulates ?_⟩
  intro t m ws m₁ r m₂ flow m' chain sized performed concluded
  obtain ⟨x, value, rfl, sized⟩ := realizes t m ws m₁ r m₂ chain sized performed
  simp only [Rules.conclude, toStore, result, Rules.bind_eq_some_iff, Rules.pure_eq_some_iff]
    at concluded
  obtain ⟨_, _, stored, rfl, rfl⟩ := concluded
  obtain ⟨⟨y, t', assigned⟩, sized⟩ := gives_assign sized (shaped.globals v) value stored
  exact ⟨.normal, t', assigned.expr.andThen gives_done, rfl, sized⟩

theorem Shaped.tested (shaped : Shaped p n op i)
    (shape : shapeOf p.version op = { branches := true, signed := signs })
    (effected : effect p i (i.operands.map operandPhrase) op = some (.value e))
    (realizes : Realizes n i op i.operands toTest e) :
    ∃ cs, clauses p i = some cs ∧ Simulates p n i cs := by
  obtain ⟨b, branching⟩ := Option.isSome_iff_exists.mp (shaped.branch.trans (by rw [shape]))
  have keeps : i.stores = false := by rw [shaped.stores, shape]
  have goes : i.pauses = false := by rw [shaped.pauses, shape]
  have stays : i.endsBlock = false := by rw [shaped.endsBlock, shape]
  refine ⟨[branchClause i b e], ?_, shaped.simulates ?_⟩
  · simp [clauses, shaped.known, effected, Effect.stored, keeps, Effect.branched, branching, stays,
      Effect.paused, goes, Effect.clauses]
  intro t m ws m₁ r m₂ flow m' chain sized performed concluded
  obtain ⟨x, value, rfl, sized⟩ := realizes t m ws m₁ r m₂ chain sized performed
  obtain ⟨c, branched, completes⟩ := gives_branch branching value concluded
  exact ⟨c, t, branched.andEmpty, completes, sized.branch concluded⟩

theorem Shaped.clauses_plain (shaped : Shaped p n op i) {ends : Bool}
    (shape : shapeOf p.version op = { endsBlock := ends, signed := signs }) {e : Effect}
    (effected : effect p i (i.operands.map operandPhrase) op = some e) :
    clauses p i = some e.clauses := by
  have keeps : i.stores = false := by rw [shaped.stores, shape]
  have straight : i.branch = none := by simpa [shape] using shaped.branch
  have goes : i.pauses = false := by rw [shaped.pauses, shape]
  simp [clauses, shaped.known, effected, Effect.stored, keeps, Effect.branched, straight,
    Effect.paused, goes]

theorem Shaped.done (shaped : Shaped p n op i)
    (shape : shapeOf p.version op = { signed := signs })
    (effected : effect p i (i.operands.map operandPhrase) op = some (.value e))
    (realizes : Realizes n i op i.operands (fun _ => .nothing) e) :
    ∃ cs, clauses p i = some cs ∧ Simulates p n i cs := by
  refine ⟨_, shaped.clauses_plain shape effected, shaped.simulates ?_⟩
  intro t m ws m₁ r m₂ flow m' chain sized performed concluded
  obtain ⟨x, value, rfl, sized⟩ := realizes t m ws m₁ r m₂ chain sized performed
  obtain ⟨rfl, rfl⟩ := Rules.pure_eq_some_iff.mp concluded
  exact ⟨.normal, t, value.expr.andThen gives_done, rfl, sized⟩

theorem Shaped.push {a : Operand} (shaped : Shaped p n .push i) (only : i.operands = [a]) :
    ∃ cs, clauses p i = some cs ∧ Simulates p n i cs := by
  have unsigned : a.signed = false := shaped.signed 0 a (by rw [only]; rfl)
  refine ⟨_, shaped.clauses_plain (show shapeOf p.version .push = {} from rfl) rfl,
    shaped.simulates ?_⟩
  intro t m ws m₁ r m₂ flow m' chain sized performed concluded
  rw [only] at chain ⊢
  obtain ⟨x, rfl, first⟩ := chain.one
  obtain ⟨_, _, put, performed⟩ := Rules.bind_eq_some_iff.mp performed
  obtain ⟨⟨low, high⟩, rfl⟩ := Rules.push_eq_some_iff.mp put
  obtain ⟨rfl, rfl⟩ := Rules.pure_eq_some_iff.mp performed
  obtain ⟨rfl, rfl⟩ := Rules.pure_eq_some_iff.mp concluded
  rw [number_unsigned unsigned] at first
  have pushed := gives_push (t := .ofInt x.toNat) low high sized.stack
  rw [Value.word_ofInt, Word.ofInt_toNat] at pushed
  exact ⟨.normal, _, (gives_keep first).expr.andThen (pushed.expr.andThen gives_done), rfl,
    ⟨sized.locals, by simpa using sized.stack, sized.memory⟩⟩

theorem Shaped.nop (shaped : Shaped p n .nop i) (none_ : i.operands = []) :
    ∃ cs, clauses p i = some cs ∧ Simulates p n i cs := by
  refine ⟨_, shaped.clauses_plain (show shapeOf p.version .nop = {} from rfl) rfl,
    shaped.simulates ?_⟩
  intro t m ws m₁ r m₂ flow m' chain sized performed concluded
  rw [none_] at chain
  cases chain with
  | nil =>
    obtain ⟨rfl, rfl⟩ := Rules.pure_eq_some_iff.mp performed
    obtain ⟨rfl, rfl⟩ := Rules.pure_eq_some_iff.mp concluded
    exact ⟨.normal, t, Gives.andThen rfl gives_done, rfl, sized⟩

theorem Shaped.returns (shaped : Shaped p n op i)
    (shape : shapeOf p.version op = { endsBlock := true, signed := signs })
    (effected : effect p i (i.operands.map operandPhrase) op =
      some (.action [.simple (.ret (some e))]))
    (gives : ∀ t m ws m₁ r m₂, Chain t i.operands ws m m₁ → Rules.Sized n m₁ →
      (Rules.perform i op ws).run m₁ = some (r, m₂) →
      ∃ w, r = .leave (some w) ∧ Gives (eval e.expr) (frame m t) (.ofWord w) (frame m₂ t) ∧
        Rules.Sized n m₂) :
    ∃ cs, clauses p i = some cs ∧ Simulates p n i cs := by
  refine ⟨_, shaped.clauses_plain shape effected, shaped.simulates ?_⟩
  intro t m ws m₁ r m₂ flow m' chain sized performed concluded
  obtain ⟨w, rfl, value, sized⟩ := gives t m ws m₁ r m₂ chain sized performed
  obtain ⟨rfl, rfl⟩ := Rules.pure_eq_some_iff.mp concluded
  exact ⟨_, t, value.ret.andLeave, rfl, sized⟩

theorem Shaped.ret {a : Operand} (shaped : Shaped p n .ret i) (only : i.operands = [a]) :
    ∃ cs, clauses p i = some cs ∧ Simulates p n i cs := by
  have unsigned : a.signed = false := shaped.signed 0 a (by rw [only]; rfl)
  refine shaped.returns (e := operandPhrase a) rfl (by rw [only]; rfl) ?_
  intro t m ws m₁ r m₂ chain sized performed
  rw [only] at chain
  obtain ⟨x, rfl, first⟩ := chain.one
  obtain ⟨rfl, rfl⟩ := Rules.pure_eq_some_iff.mp performed
  rw [number_unsigned unsigned] at first
  exact ⟨x, rfl, first, sized⟩

theorem Shaped.retPopped (shaped : Shaped p n .retPopped i) (none_ : i.operands = []) :
    ∃ cs, clauses p i = some cs ∧ Simulates p n i cs := by
  refine shaped.returns rfl rfl ?_
  intro t m ws m₁ r m₂ chain sized performed
  rw [none_] at chain
  cases chain with
  | nil =>
    obtain ⟨_, _, taken, performed⟩ := Rules.bind_eq_some_iff.mp performed
    obtain ⟨⟨low, high⟩, rfl, rfl⟩ := Rules.pop_eq_some_iff.mp taken
    obtain ⟨rfl, rfl⟩ := Rules.pure_eq_some_iff.mp performed
    exact ⟨_, rfl, gives_popped low high sized.stack, ⟨sized.locals, sized.stack, sized.memory⟩⟩

theorem Shaped.returnsWord (shaped : Shaped p n op i) (none_ : i.operands = []) {w : UInt16}
    (shape : shapeOf p.version op = { endsBlock := true, signed := signs })
    (effected : effect p i (i.operands.map operandPhrase) op =
      some (.action [.simple (.ret (some (.number w.toNat)))]))
    (computes : Rules.perform i op [] = pure (.leave (some w))) :
    ∃ cs, clauses p i = some cs ∧ Simulates p n i cs := by
  refine shaped.returns shape effected ?_
  intro t m ws m₁ r m₂ chain sized performed
  rw [none_] at chain
  cases chain with
  | nil =>
    rw [computes] at performed
    obtain ⟨rfl, rfl⟩ := Rules.pure_eq_some_iff.mp performed
    exact ⟨w, rfl, gives_number w.toNat, sized⟩

theorem Shaped.jump {a : Operand} (shaped : Shaped p n .jump i) (only : i.operands = [a]) :
    ∃ cs, clauses p i = some cs ∧ Simulates p n i cs := by
  have signed : a.signed = true := shaped.signed 0 a (by rw [only]; rfl)
  refine ⟨_, shaped.clauses_plain
    (show shapeOf p.version .jump = { endsBlock := true, signed := [true] } from rfl) rfl,
    shaped.simulates ?_⟩
  intro t m ws m₁ r m₂ flow m' chain sized performed concluded
  rw [only] at chain ⊢
  obtain ⟨x, rfl, first⟩ := chain.one
  obtain ⟨_, _, moved, performed⟩ := Rules.bind_eq_some_iff.mp performed
  obtain rfl := Rules.modify_eq_some_iff.mp moved
  obtain ⟨rfl, rfl⟩ := Rules.pure_eq_some_iff.mp performed
  obtain ⟨rfl, rfl⟩ := Rules.pure_eq_some_iff.mp concluded
  rw [number_signed signed] at first
  have bounds := Word.toInt16_bounds x
  have address := i.next.toNat_lt
  have target : applyBinary .add (.ofInt x.toInt16.toInt) (.ofInt ((i.next.toNat : Int) - 2)) =
      .ofInt (i.next.toNat + x.toInt16.toInt - 2) := by
    rw [applyBinary_add (by omega)]
    congr 1
    omega
  have landed := first.binary .add (gives_integer (s := frame m₁ t) ((i.next.toNat : Int) - 2))
  rw [target] at landed
  refine ⟨.normal, t, (gives_setPc (e := .binary .add _ _) landed).expr.andThen gives_done,
    .inr ⟨rfl, ?_⟩, ⟨sized.locals, sized.stack, sized.memory⟩⟩
  rw [shaped.endsBlock]
  rfl

theorem Shaped.exists_one (shaped : Shaped p n op i) (one : i.operands.length = 1) :
    ∃ a, i.operands = [a] ∧ a.signed = (shapeOf p.version op).signedAt 0 := by
  obtain ⟨a, only⟩ := List.length_eq_one_iff.mp one
  exact ⟨a, only, shaped.signed 0 a (by rw [only]; rfl)⟩

theorem Shaped.exists_two (shaped : Shaped p n op i) (two : i.operands.length = 2) :
    ∃ a b, i.operands = [a, b] ∧ a.signed = (shapeOf p.version op).signedAt 0 ∧
      b.signed = (shapeOf p.version op).signedAt 1 := by
  obtain ⟨a, b, both⟩ := List.length_eq_two.mp two
  exact ⟨a, b, both, shaped.signed 0 a (by rw [both]; rfl), shaped.signed 1 b (by rw [both]; rfl)⟩

theorem Shaped.exists_three (shaped : Shaped p n op i) (three : i.operands.length = 3) :
    ∃ a b c, i.operands = [a, b, c] ∧ a.signed = (shapeOf p.version op).signedAt 0 ∧
      b.signed = (shapeOf p.version op).signedAt 1 ∧
      c.signed = (shapeOf p.version op).signedAt 2 := by
  obtain ⟨a, b, c, all⟩ := List.length_eq_three.mp three
  exact ⟨a, b, c, all, shaped.signed 0 a (by rw [all]; rfl), shaped.signed 1 b (by rw [all]; rfl),
    shaped.signed 2 c (by rw [all]; rfl)⟩

theorem exists_simulation (shaped : Shaped p n op i)
    (count : i.operands.length ∈ Rules.operandCounts p.version op) :
    ∃ cs, clauses p i = some cs ∧ Simulates p n i cs := by
  have none_ (zero : i.operands.length ∈ [0]) : i.operands = [] :=
    List.length_eq_zero_iff.mp (List.mem_singleton.mp zero)
  have single (one : i.operands.length ∈ [1]) := shaped.exists_one (List.mem_singleton.mp one)
  have pair (two : i.operands.length ∈ [2]) := shaped.exists_two (List.mem_singleton.mp two)
  have triple (three : i.operands.length ∈ [3]) :=
    shaped.exists_three (List.mem_singleton.mp three)
  cases op with
  | je =>
    have unsigned : ∀ a ∈ i.operands, a.signed = false := by
      intro a member
      obtain ⟨k, at_⟩ := List.mem_iff_getElem?.mp member
      exact shaped.signed k a at_
    by_cases two : i.operands.length = 2
    · obtain ⟨a, b, both, first, second⟩ := shaped.exists_two two
      exact shaped.tested rfl (by rw [both]; rfl) (both ▸ realizes_je first second)
    · refine shaped.tested rfl ?_ (realizes_jeq unsigned)
      match ops : i.operands with
      | [_, _] => exact absurd (by rw [ops]; rfl) two
      | [] | [_] | _ :: _ :: _ :: _ => rfl
  | jl =>
    obtain ⟨a, b, both, first, second⟩ := pair count
    exact shaped.tested rfl (by rw [both]; rfl) (both ▸ realizes_less first second)
  | jg =>
    obtain ⟨a, b, both, first, second⟩ := pair count
    exact shaped.tested rfl (by rw [both]; rfl) (both ▸ realizes_greater first second)
  | or =>
    obtain ⟨a, b, both, first, second⟩ := pair count
    exact shaped.stored rfl (by rw [both]; rfl) (both ▸ realizes_or first second)
  | and =>
    obtain ⟨a, b, both, first, second⟩ := pair count
    exact shaped.stored rfl (by rw [both]; rfl) (both ▸ realizes_and first second)
  | add =>
    obtain ⟨a, b, both, first, second⟩ := pair count
    exact shaped.stored rfl (by rw [both]; rfl) (both ▸ realizes_add first second)
  | sub =>
    obtain ⟨a, b, both, first, second⟩ := pair count
    exact shaped.stored rfl (by rw [both]; rfl) (both ▸ realizes_sub first second)
  | mul =>
    obtain ⟨a, b, both, first, second⟩ := pair count
    exact shaped.stored rfl (by rw [both]; rfl) (both ▸ realizes_mul first second)
  | div =>
    obtain ⟨a, b, both, first, second⟩ := pair count
    exact shaped.stored rfl (by rw [both]; rfl) (both ▸ realizes_div first second)
  | mod =>
    obtain ⟨a, b, both, first, second⟩ := pair count
    exact shaped.stored rfl (by rw [both]; rfl) (both ▸ realizes_mod first second)
  | loadw =>
    obtain ⟨a, b, both, first, second⟩ := pair count
    exact shaped.stored rfl (by rw [both]; rfl) (both ▸ realizes_loadw first second)
  | loadb =>
    obtain ⟨a, b, both, first, second⟩ := pair count
    exact shaped.stored rfl (by rw [both]; rfl) (both ▸ realizes_loadb first second)
  | storew =>
    obtain ⟨a, b, c, all, first, second, third⟩ := triple count
    exact shaped.done rfl (by rw [all]; rfl) (all ▸ realizes_storew first second third)
  | storeb =>
    obtain ⟨a, b, c, all, first, second, third⟩ := triple count
    exact shaped.done rfl (by rw [all]; rfl) (all ▸ realizes_storeb first second third)
  | jz =>
    obtain ⟨a, only, first⟩ := single count
    exact shaped.tested rfl (by rw [only]; rfl) (only ▸ realizes_jz first)
  | not =>
    obtain ⟨a, only, first⟩ := single count
    exact shaped.stored rfl (by rw [only]; rfl) (only ▸ realizes_not (fun _ => rfl) first)
  | notOrCall1n =>
    by_cases old : p.version < 5
    · rw [Rules.operandCounts, if_pos old] at count
      have shape : shapeOf p.version .notOrCall1n = { stores := true } := by
        simp [shapeOf_notOrCall1n, old, Shape.storing]
      obtain ⟨a, only, first⟩ := single count
      rw [shape] at first
      exact shaped.stored shape (by rw [only]; simp [effect, old]; rfl)
        (only ▸ realizes_not (fun _ => rfl) first)
    · rw [Rules.operandCounts, if_neg old] at count
      cases count
  | popOrCatch =>
    by_cases old : p.version < 5
    · rw [Rules.operandCounts, if_pos old] at count
      have shape : shapeOf p.version .popOrCatch = {} := by rw [shapeOf_popOrCatch, if_pos old]
      exact shaped.done shape (by simp [effect, old]) (none_ count ▸ realizes_pop)
    · rw [Rules.operandCounts, if_neg old] at count
      cases count
  | push =>
    obtain ⟨a, only, -⟩ := single count
    exact shaped.push only
  | jump =>
    obtain ⟨a, only, -⟩ := single count
    exact shaped.jump only
  | ret =>
    obtain ⟨a, only, -⟩ := single count
    exact shaped.ret only
  | nop => exact shaped.nop (none_ count)
  | retPopped => exact shaped.retPopped (none_ count)
  | rtrue => exact shaped.returnsWord (none_ count) (w := 1) rfl rfl rfl
  | rfalse => exact shaped.returnsWord (none_ count) (w := 0) rfl rfl rfl
  | _ => cases count

end Simulation

end ZCode.Statement
