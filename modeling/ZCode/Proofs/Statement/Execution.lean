import ZCode.Proofs.Rules
import ZCode.Proofs.Script.Execution
import ZCode.Proofs.Statement.Syntax

set_option autoImplicit false

namespace ZCode.Statement

open ZCode.Script

def frame (m : Machine) (t : Value) : State :=
  ⟨m, [("t", t), ("s", .object .stack), ("l", .object .locals), ("e", .object .runtime)]⟩

theorem wholeKey?_ofInt (n : Int) : wholeKey? (.ofInt n) = some n := by
  simp [wholeKey?, Value.ofInt, Number.ofInt]

theorem wordIn_inside {words : Array UInt16} {i : Int} (low : 0 ≤ i) (high : i < words.size) :
    Machine.wordIn words i = .ofWord (words.getD i.toNat 0) := by
  have inside : i.toNat < words.size := by omega
  simp [Machine.wordIn, low, inside]

theorem setWordIn_nonneg (words : Array UInt16) {i : Int} (low : 0 ≤ i) (v : Value) :
    Machine.setWordIn words i v = words.setIfInBounds i.toNat v.word := by
  rw [Machine.setWordIn, if_pos low]
  rfl

section Phrases

variable {m m₁ m₂ : Machine} {t t₁ x : Value}

theorem gives_e : Gives (eval (.name "e")) (frame m t) (.object .runtime) (frame m t) :=
  gives_name rfl

theorem gives_l : Gives (eval (.name "l")) (frame m t) (.object .locals) (frame m t) :=
  gives_name rfl

theorem gives_s : Gives (eval (.name "s")) (frame m t) (.object .stack) (frame m t) :=
  gives_name rfl

theorem gives_t : Gives (eval (Phrase.name "t").expr) (frame m t) t (frame m t) :=
  gives_name rfl

theorem gives_runtime (field : String) :
    Gives (eval (runtime field).expr) (frame m t) (runtimeMember m field) (frame m t) :=
  gives_e.member rfl

theorem gives_constant {s : State} (n : Nat) :
    Gives (eval (Phrase.number n).expr) s (.ofInt n) s :=
  gives_number n

theorem gives_memory {view method : String} {k : Method} {arguments : List Phrase}
    {vs : List Value} {s : State} (viewed : runtimeMember m view = .object .memory)
    (named : memoryMember method = .object (.method k))
    (inside : Gives (evalAll (Phrase.exprs arguments)) (frame m t) vs (frame m₁ t₁))
    (applied : Gives (applyMethod k vs) (frame m₁ t₁) x s) :
    Gives (eval (memory view method arguments).expr) (frame m t) x s := by
  have object := gives_runtime (m := m) (t := t) view
  rw [viewed] at object
  refine (object.member (w := .object (.method k)) ?_).call inside applied
  rw [← named]
  rfl

theorem gives_local (i : Int) : Gives (getIndex (.object .locals) (.ofInt i)) (frame m t)
    (Machine.wordIn m.locals i) (frame m t) := by
  refine Gives.bind gives_getMachine ?_
  rw [wholeKey?_ofInt, Option.map_some, Option.getD_some]
  exact gives_pure _

theorem gives_stack (i : Int) : Gives (getIndex (.object .stack) (.ofInt i)) (frame m t)
    (Machine.wordIn m.stack i) (frame m t) := by
  refine Gives.bind gives_getMachine ?_
  rw [wholeKey?_ofInt, Option.map_some, Option.getD_some]
  exact gives_pure _

theorem gives_setSp (n : Int) :
    Gives (setPlace (.member (.object .runtime) "sp") (.ofInt n)) (frame m t) ()
      (frame { m with sp := n } t) := by
  have written : Gives (setPlace (.member (.object .runtime) "sp") (.ofInt n)) (frame m t) ()
      (frame { m with sp := (Value.ofInt n).toInt } t) := rfl
  rwa [Value.toInt_ofInt] at written

theorem gives_slot {n : Nat} (inside : n < m.locals.size) :
    Gives (eval (slot n).expr) (frame m t) (.ofWord (m.locals.getD n 0)) (frame m t) := by
  have word := wordIn_inside (Int.natCast_nonneg n) (Int.ofNat_lt.mpr inside)
  rw [Int.toNat_natCast] at word
  rw [← word]
  exact gives_l.index (gives_number n) (gives_local n)

theorem gives_popped_any (near : m.sp.natAbs < 2 ^ 53) :
    Gives (eval popped.expr) (frame m t) (Machine.wordIn m.stack (m.sp - 1))
      (frame { m with sp := m.sp - 1 } t) := by
  have less : applyBinary .sub (.ofInt m.sp) (.ofInt 1) = .ofInt (m.sp - 1) :=
    applyBinary_sub (by omega)
  have key : Gives (eval (.decrement (runtime "sp").expr)) (frame m t) (.ofInt (m.sp - 1))
      (frame { m with sp := m.sp - 1 } t) := by
    have stepped := gives_setSp (m := m) (t := t) (m.sp - 1)
    rw [← less] at stepped ⊢
    exact Gives.decrement (Gives.placeMember gives_e) (gives_e.member rfl) stepped
  exact gives_s.index key (gives_stack (m.sp - 1))

theorem gives_popped (low : 0 < m.sp) (high : m.sp ≤ m.stack.size) (sized : m.stack.size = 1024) :
    Gives (eval popped.expr) (frame m t) (.ofWord (m.stack.getD (m.sp - 1).toNat 0))
      (frame { m with sp := m.sp - 1 } t) := by
  have inside : m.sp - 1 < m.stack.size := by omega
  rw [← wordIn_inside (by omega) inside]
  exact gives_popped_any (by omega)

theorem gives_signExtended {e : Phrase} {w : UInt16} {s s₁ : State}
    (value : Gives (eval e.expr) s (.ofWord w) s₁) :
    Gives (eval (signExtended e).expr) s (.ofInt w.toInt16.toInt) s₁ := by
  rw [← signExtend]
  exact (value.binary .shiftLeft (gives_number 16)).binary .shiftRight (gives_number 16)

theorem gives_keep {e : Phrase} {s : State} (value : Gives (eval e.expr) s x (frame m t)) :
    Gives (eval (Phrase.assign (.name "t") e).expr) s x (frame m x) :=
  Gives.assign (p := .named "t") rfl value rfl

theorem gives_push (low : 0 ≤ m.sp) (high : m.sp < m.stack.size) (sized : m.stack.size = 1024) :
    Gives (eval pushPhrase.expr) (frame m t) t
      (frame { m with stack := m.stack.setIfInBounds m.sp.toNat t.word, sp := m.sp + 1 } t) := by
  have more : applyBinary .add (.ofInt m.sp) (.ofInt 1) = .ofInt (m.sp + 1) :=
    applyBinary_add (by omega)
  have key : Gives (eval (.increment (runtime "sp").expr)) (frame m t) (.ofInt m.sp)
      (frame { m with sp := m.sp + 1 } t) := by
    have stepped := gives_setSp (m := m) (t := t) (m.sp + 1)
    rw [← more] at stepped
    exact Gives.increment (Gives.placeMember gives_e) (gives_e.member rfl) stepped
  refine Gives.assign (gives_s.placeIndex key) gives_t ?_
  rw [← setWordIn_nonneg m.stack low]
  simp only [setPlace, setIndex, wholeKey?_ofInt]
  rfl

theorem gives_setSlot {n : Nat} {e : Phrase} (value : Gives (eval e.expr) (frame m t) x (frame m₁ t₁)) :
    Gives (eval (Phrase.assign (slot n) e).expr) (frame m t) x
      (frame { m₁ with locals := m₁.locals.setIfInBounds n x.word } t₁) := by
  refine Gives.assign (gives_l.placeIndex (gives_number n)) value ?_
  have written := setWordIn_nonneg m₁.locals (Int.natCast_nonneg n) x
  rw [Int.toNat_natCast] at written
  rw [← written]
  simp only [setPlace, setIndex, wholeKey?_ofInt]
  rfl

theorem gives_setPc {e : Phrase} (value : Gives (eval e.expr) (frame m t) x (frame m₁ t₁)) :
    Gives (eval (setPhrase "pc" e).expr) (frame m t) x (frame { m₁ with pc := x } t₁) :=
  Gives.assign (Gives.placeMember gives_e) value rfl

theorem gives_offset {s : State} {a : Int} (low : 0 ≤ a) : Gives (offset (.ofInt a)) s a.toNat s := by
  have whole : Number.truncate (a : Rat) = a := Number.truncate_intCast a
  have above : ¬ a < 0 := by omega
  simp only [offset, Value.ofInt, Value.toNumber, Number.ofInt, whole, above, if_false]
  exact gives_pure _

theorem gives_readByte {a : Int} (low : 0 ≤ a) (high : a + 1 ≤ m.memory.length) :
    Gives (readByte (.ofInt a)) (frame m t) (Rules.byteAt m a.toNat) (frame m t) := by
  have inside : a.toNat < m.memory.bytes.size := by
    rw [Image.length] at high
    omega
  refine (gives_offset low).bind (Gives.bind gives_getMachine ?_)
  have found : (frame m t).machine.memory.bytes[a.toNat]? = some (Rules.byteAt m a.toNat) := by
    simp [frame, Rules.byteAt, inside]
  rw [found]
  exact gives_pure _

theorem gives_readWord {a : Int} (low : 0 ≤ a) (high : a + 2 ≤ m.memory.length) :
    Gives (readWord (.ofInt a)) (frame m t) (Rules.wordAt m a.toNat) (frame m t) := by
  have inside : a.toNat + 1 < m.memory.bytes.size := by
    rw [Image.length] at high
    omega
  refine (gives_offset low).bind (Gives.bind gives_getMachine ?_)
  have first : (frame m t).machine.memory.bytes[a.toNat]? = some (Rules.byteAt m a.toNat) := by
    simp [frame, Rules.byteAt, Nat.lt_of_succ_lt inside]
  have second : (frame m t).machine.memory.bytes[a.toNat + 1]? =
      some (Rules.byteAt m (a.toNat + 1)) := by
    simp [frame, Rules.byteAt, inside]
  rw [first, second]
  exact gives_pure _

theorem gives_writeBytes {a : Int} {bytes : List UInt8} (low : 0 ≤ a)
    (high : a + bytes.length ≤ m.memory.length) :
    Gives (writeBytes (.ofInt a) bytes) (frame m t) ()
      (frame { m with memory := m.memory.write a.toNat bytes } t) := by
  refine (gives_offset low).bind (Gives.bind gives_getMachine ?_)
  rw [if_neg (by simp only [frame]; omega)]
  exact gives_modifyMachine _

theorem wordBytes_eq (w : UInt16) : Image.wordBytes w = [(w >>> 8).toUInt8, w.toUInt8] := by
  simp only [Image.wordBytes, List.cons.injEq, and_true, ← UInt8.toNat_inj, UInt8.toNat_ofNat',
    UInt16.toNat_toUInt8, UInt16.toNat_shiftRight, UInt16.reduceToNat, Nat.shiftRight_eq_div_pow,
    Nat.reducePow, Nat.reduceMod, Nat.mod_mod]

section Methods

variable {e f : Phrase} {a : Int}

theorem gives_getUint16 (address : Gives (eval e.expr) (frame m t) (.ofInt a) (frame m₁ t₁))
    (low : 0 ≤ a) (high : a + 2 ≤ m₁.memory.length) :
    Gives (eval (memory "m" "getUint16" [e]).expr) (frame m t) (.ofWord (Rules.wordAt m₁ a.toNat))
      (frame m₁ t₁) :=
  gives_memory rfl rfl (address.cons gives_nil) ((gives_readWord low high).bind (gives_pure _))

theorem gives_getInt16 (address : Gives (eval e.expr) (frame m t) (.ofInt a) (frame m₁ t₁))
    (low : 0 ≤ a) (high : a + 2 ≤ m₁.memory.length) :
    Gives (eval (memory "m" "getInt16" [e]).expr) (frame m t)
      (.ofInt (Rules.wordAt m₁ a.toNat).toInt16.toInt) (frame m₁ t₁) :=
  gives_memory rfl rfl (address.cons gives_nil) ((gives_readWord low high).bind (gives_pure _))

theorem gives_getUint8 (address : Gives (eval e.expr) (frame m t) (.ofInt a) (frame m₁ t₁))
    (low : 0 ≤ a) (high : a + 1 ≤ m₁.memory.length) :
    Gives (eval (memory "m" "getUint8" [e]).expr) (frame m t)
      (.ofInt (Rules.byteAt m₁ a.toNat).toNat) (frame m₁ t₁) :=
  gives_memory rfl rfl (address.cons gives_nil) ((gives_readByte low high).bind (gives_pure _))

variable {t₂ : Value}

theorem gives_setUint16 (address : Gives (eval e.expr) (frame m t) (.ofInt a) (frame m₁ t₁))
    (value : Gives (eval f.expr) (frame m₁ t₁) x (frame m₂ t₂)) (low : 0 ≤ a)
    (high : a + 2 ≤ m₂.memory.length) :
    Gives (eval (memory "ram" "setUint16" [e, f]).expr) (frame m t) .undefined
      (frame { m₂ with memory := m₂.memory.write a.toNat (Image.wordBytes x.word) } t₂) := by
  refine gives_memory rfl rfl (address.cons (value.cons gives_nil)) ?_
  rw [wordBytes_eq]
  exact (gives_writeBytes low (by simpa using high)).bind (gives_pure _)

theorem gives_setUint8 (address : Gives (eval e.expr) (frame m t) (.ofInt a) (frame m₁ t₁))
    (value : Gives (eval f.expr) (frame m₁ t₁) x (frame m₂ t₂)) (low : 0 ≤ a)
    (high : a + 1 ≤ m₂.memory.length) :
    Gives (eval (memory "ram" "setUint8" [e, f]).expr) (frame m t) .undefined
      (frame { m₂ with memory := m₂.memory.write a.toNat [x.toNumber.toUInt8] } t₂) :=
  gives_memory rfl rfl (address.cons (value.cons gives_nil))
    ((gives_writeBytes low (by simpa using high)).bind (gives_pure _))

end Methods

theorem gives_integer {s : State} (n : Int) : Gives (eval (integer n).expr) s (.ofInt n) s := by
  cases n with
  | ofNat n => exact gives_number n
  | negSucc n =>
    have negated : applyUnary .negate (.ofInt (n + 1 : Nat)) = .ofInt (Int.negSucc n) :=
      congrArg Value.number (Number.neg_ofInt (n + 1 : Nat))
    rw [← negated]
    exact (gives_number (n + 1)).unary .negate

def number (op : Operand) (w : UInt16) : Int :=
  if op.signed then w.toInt16.toInt else w.toNat

def Reachable (length : Nat) (op : Operand) : Prop :=
  match op.kind with
  | .slot | .signedSlot => op.value.toNat < 15
  | .global | .signedGlobal => op.value.toNat + 2 ≤ length
  | .reserved _ => False
  | _ => True

theorem gives_operand {n : Nat} {op : Operand} {w : UInt16} (sized : Rules.Sized n m)
    (reachable : Reachable n op) (ran : (Rules.operand op).run m = some (w, m₁)) :
    Gives (eval (operandPhrase op).expr) (frame m t) (.ofInt (number op w)) (frame m₁ t) ∧
      Rules.Sized n m₁ := by
  obtain ⟨kind, value⟩ := op
  have room (inside : value.toNat + 2 ≤ n) : (value.toNat : Int) + 2 ≤ m.memory.length := by
    have := sized.memory
    omega
  cases kind with
  | constant =>
    obtain ⟨rfl, rfl⟩ := Rules.pure_eq_some_iff.mp ran
    exact ⟨gives_number value.toNat, sized⟩
  | signedConstant =>
    obtain ⟨rfl, rfl⟩ := Rules.pure_eq_some_iff.mp ran
    exact ⟨gives_integer value.toInt16.toInt, sized⟩
  | stack =>
    obtain ⟨⟨low, high⟩, rfl, rfl⟩ := Rules.pop_eq_some_iff.mp ran
    exact ⟨gives_popped low high sized.stack, ⟨sized.locals, sized.stack, sized.memory⟩⟩
  | signedStack =>
    obtain ⟨⟨low, high⟩, rfl, rfl⟩ := Rules.pop_eq_some_iff.mp ran
    exact ⟨gives_signExtended (gives_popped low high sized.stack),
      ⟨sized.locals, sized.stack, sized.memory⟩⟩
  | slot =>
    cases ran
    exact ⟨gives_slot (sized.locals ▸ reachable), sized⟩
  | signedSlot =>
    cases ran
    exact ⟨gives_signExtended (gives_slot (sized.locals ▸ reachable)), sized⟩
  | global =>
    cases ran
    have word := gives_getUint16 (t := t) (gives_constant value.toNat) (by omega) (room reachable)
    rw [Int.toNat_natCast] at word
    exact ⟨word, sized⟩
  | signedGlobal =>
    cases ran
    have word := gives_getInt16 (t := t) (gives_constant value.toNat) (by omega) (room reachable)
    rw [Int.toNat_natCast] at word
    exact ⟨word, sized⟩
  | reserved => exact reachable.elim

inductive Chain (t : Value) : List Operand → List UInt16 → Machine → Machine → Prop
  | nil {m : Machine} : Chain t [] [] m m
  | cons {op : Operand} {w : UInt16} {ops : List Operand} {ws : List UInt16} {m m₁ m₂ : Machine}
    (first : Gives (eval (operandPhrase op).expr) (frame m t) (.ofInt (number op w)) (frame m₁ t))
    (rest : Chain t ops ws m₁ m₂) : Chain t (op :: ops) (w :: ws) m m₂

theorem exists_chain {n : Nat} {ops : List Operand} {ws : List UInt16} (sized : Rules.Sized n m)
    (reachable : ∀ op ∈ ops, Reachable n op) (ran : (ops.mapM Rules.operand).run m = some (ws, m₁)) :
    Chain t ops ws m m₁ ∧ Rules.Sized n m₁ := by
  induction ops generalizing m ws with
  | nil =>
    obtain ⟨rfl, rfl⟩ := Rules.pure_eq_some_iff.mp ran
    exact ⟨.nil, sized⟩
  | cons op rest ih =>
    simp only [List.mapM_cons, Rules.bind_eq_some_iff, Rules.pure_eq_some_iff] at ran
    obtain ⟨w, m₂, first, later, m₃, others, rfl, rfl⟩ := ran
    obtain ⟨value, sized⟩ := gives_operand sized (reachable op (by simp)) first
    obtain ⟨values, sized⟩ := ih sized (fun other member => reachable other (by simp [member])) others
    exact ⟨.cons value values, sized⟩

theorem Chain.all {ops : List Operand} {ws : List UInt16} (chain : Chain t ops ws m m₁) :
    Gives (evalAll (Phrase.exprs (ops.map operandPhrase))) (frame m t)
      (List.zipWith (fun op w => Value.ofInt (number op w)) ops ws) (frame m₁ t) := by
  induction chain with
  | nil => exact gives_nil
  | cons first _ ih => exact first.cons ih

theorem gives_assign {n : Nat} {p : Profile} {v : UInt8} {e : Phrase} (sized : Rules.Sized n m₁)
    (inside : 16 ≤ v → (p.globalAddr v).toNat + 2 ≤ n)
    (value : Gives (eval e.expr) (frame m t) x (frame m₁ t₁))
    (ran : (Rules.store p v x.word).run m₁ = some ((), m₂)) :
    (∃ y t₂, Gives (eval (assignPhrase p v e).expr) (frame m t) y (frame m₂ t₂)) ∧
      Rules.Sized n m₂ := by
  simp only [Rules.store] at ran
  simp only [assignPhrase, beq_iff_eq]
  split at ran
  next stack =>
    obtain ⟨⟨low, high⟩, rfl⟩ := Rules.push_eq_some_iff.mp ran
    rw [if_pos stack]
    refine ⟨⟨_, _, (gives_keep value).sequence (gives_push low high sized.stack)⟩, ?_⟩
    exact ⟨sized.locals, by simpa using sized.stack, sized.memory⟩
  next variable_ =>
    rw [if_neg variable_]
    split at ran
    next slot =>
      obtain rfl := Rules.modify_eq_some_iff.mp ran
      rw [if_pos slot]
      exact ⟨⟨_, _, gives_setSlot value⟩, ⟨by simpa using sized.locals, sized.stack, sized.memory⟩⟩
    next global =>
      obtain rfl := Rules.modify_eq_some_iff.mp ran
      rw [if_neg global]
      have room : ((p.globalAddr v).toNat : Int) + 2 ≤ m₁.memory.length := by
        have := inside (UInt8.not_lt.mp global)
        have := sized.memory
        omega
      have written := gives_setUint16 (t := x) (gives_constant (p.globalAddr v).toNat) gives_t
        (by omega) room
      rw [Int.toNat_natCast] at written
      refine ⟨⟨_, _, ((gives_keep value).sequence written).sequence gives_t⟩, ?_⟩
      exact ⟨sized.locals, sized.stack, by simpa using sized.memory⟩

-- How the statements of an instruction complete where execution goes on as told. The last ones of a
-- block need not return.
def Completes (i : Instruction) (c : Completion) : Rules.Flow → Prop
  | .next => c = .normal
  | .leave none => c = .returned .undefined ∨ c = .normal ∧ i.endsBlock = true
  | .leave (some w) => c = .returned (.ofWord w)

theorem gives_leave {i : Instruction} {b : Branch} {flow : Rules.Flow}
    (ran : (Rules.depart i b).run m = some (flow, m₁)) :
    ∃ c, Gives (execAll ((leave i b).map Simple.stmt)) (frame m t) c (frame m₁ t) ∧
      Completes i c flow := by
  simp only [Rules.depart] at ran
  have value := gives_integer (s := frame m t) b.offset.toInt
  split at ran
  next zero =>
    obtain ⟨rfl, rfl⟩ := Rules.pure_eq_some_iff.mp ran
    rw [leave, if_pos (by simp [Branch.returns, zero])]
    exact ⟨_, (Gives.ret value).andLeave, by rw [zero]; rfl⟩
  next nonzero =>
    split at ran
    next one =>
      obtain ⟨rfl, rfl⟩ := Rules.pure_eq_some_iff.mp ran
      rw [leave, if_pos (by simp [Branch.returns, one])]
      exact ⟨_, (Gives.ret value).andLeave, by rw [one]; rfl⟩
    next other =>
      simp only [Rules.bind_eq_some_iff, Rules.modify_eq_some_iff, Rules.pure_eq_some_iff] at ran
      obtain ⟨-, _, rfl, rfl, rfl⟩ := ran
      rw [leave, if_neg (by simp [Branch.returns, nonzero, other])]
      exact ⟨_, (gives_setPc (gives_constant _)).expr.andThen gives_ret_none.andLeave, .inl rfl⟩

theorem gives_branch {i : Instruction} {b : Branch} {e : Phrase} {flow : Rules.Flow}
    (branching : i.branch = some b) (value : Gives (eval e.expr) (frame m t) x (frame m₁ t))
    (ran : (Rules.branch i x.truthy).run m₁ = some (flow, m₂)) :
    ∃ c, Gives (exec (branchClause i b e).stmt) (frame m t) c (frame m₂ t) ∧ Completes i c flow := by
  simp only [Rules.branch, branching] at ran
  have test : ∃ y, Gives (eval (if b.ifTrue then Phrase.paren e else .unary .not (.paren e)).expr)
      (frame m t) y (frame m₁ t) ∧ y.truthy = (b.ifTrue == x.truthy) := by
    cases sense : b.ifTrue with
    | true => exact ⟨x, value, by simp⟩
    | false => exact ⟨_, value.unary .not, by simp [applyUnary, Value.truthy]⟩
  obtain ⟨y, tested, truth⟩ := test
  split at ran
  next other =>
    obtain ⟨rfl, rfl⟩ := Rules.pure_eq_some_iff.mp ran
    refine ⟨.normal, tested.whenPassed ?_, rfl⟩
    rw [truth]
    simpa using other
  next same =>
    obtain ⟨c, left, completes⟩ := gives_leave (t := t) ran
    refine ⟨c, tested.whenTaken ?_ left.block, completes⟩
    rw [truth]
    simpa using same

end Phrases

end ZCode.Statement
