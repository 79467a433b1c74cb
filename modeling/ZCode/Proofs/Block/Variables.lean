import ZCode.Proofs.Block.Counting
import ZCode.Proofs.Block.Suspension

set_option autoImplicit false

namespace ZCode.Rules

open ZCode.Script (Machine)

/-- The address of the variable does not wrap around. -/
def Meets (p : Profile) (v : UInt8) : Prop :=
  v < 16 ∨ p.globals.toNat + 2 * (v.toNat - 16) < 2 ^ 16

instance (p : Profile) (v : UInt8) : Decidable (Meets p v) :=
  inferInstanceAs (Decidable (_ ∨ _))

/-- An instruction that writes word `x` to variable `v` by its number, and the machine on which it
does so, with the other operands read. -/
inductive Sets (v x : UInt16) : Op → List Operand → Machine → Machine → Prop
  | store {b : Operand} {m m₁ : Machine} (read : (operand b).run m = some (x, m₁)) :
    Sets v x .store [⟨.constant, v⟩, b] m m₁
  | pull {m m₁ : Machine} (taken : pop.run m = some (x, m₁)) :
    Sets v x .pull [⟨.constant, v⟩] m m₁
  | count (up : Bool) {old : UInt16} {m : Machine} (held : contents? m v = some old)
    (counted : bump up old = x) : Sets v x (if up then .inc else .dec) [⟨.constant, v⟩] m m

section

variable {p : Profile} {m m' : Machine} {v : UInt8} {x y old : UInt16}

theorem Sets.machine {v x : UInt16} {op : Op} {ops : List Operand} (sets : Sets v x op ops m m') :
    ∃ sp, m' = { m with sp := sp } := by
  cases sets with
  | store read => exact ⟨_, machine_of_operand read⟩
  | pull taken =>
    obtain ⟨-, -, rfl⟩ := pop_eq_some_iff.mp taken
    exact ⟨_, rfl⟩
  | count => exact ⟨m.sp, rfl⟩

theorem Sets.contents? {v x : UInt16} {op : Op} {ops : List Operand} (sets : Sets v x op ops m m')
    (named : v ≠ 0) : contents? m' v = contents? m v := by
  obtain ⟨sp, rfl⟩ := sets.machine
  simp only [Rules.contents?, if_neg named]
  rfl

theorem toUInt16_lt_iff : v.toUInt16 < 16 ↔ v < 16 := by
  rw [UInt16.lt_iff_toNat_lt, UInt8.toNat_toUInt16, UInt8.lt_iff_toNat_lt]
  rfl

theorem toUInt16_ne_zero (named : v ≠ 0) : v.toUInt16 ≠ 0 := by
  intro zero
  apply named
  rw [← UInt8.toNat_inj, ← UInt8.toNat_toUInt16, zero]
  rfl

theorem toNat_pred (named : v ≠ 0) : (v - 1).toNat = v.toNat - 1 := by
  have positive : 0 < v.toNat := Nat.pos_of_ne_zero fun zero => named (UInt8.toNat_inj.mp zero)
  exact UInt8.toNat_sub_of_le v 1 (UInt8.le_iff_toNat_le.mpr positive)

theorem address_eq (table : m.globals = p.globals) (global : ¬ v < 16) :
    address m v.toUInt16 = (p.globalAddr v).toNat + if Meets p v then 0 else 2 ^ 16 := by
  have number := v.toNat_lt
  have base := p.globals.toNat_lt
  have above : 16 ≤ v.toNat := UInt8.le_iff_toNat_le.mp (UInt8.not_lt.mp global)
  have meets : Meets p v ↔ p.globals.toNat + 2 * (v.toNat - 16) < 2 ^ 16 := or_iff_right global
  rw [address, table, UInt8.toNat_toUInt16, Instruction.globalAddr_eq p v above,
    UInt16.toNat_ofNat']
  simp only [meets]
  split <;> omega

theorem names_variable_iff (named : v ≠ 0) (table : m.globals = p.globals) (signed : Bool) :
    Names m v.toUInt16 (Instruction.variableOperand p signed v) ↔ Meets p v := by
  have positive : v.toNat ≠ 0 := fun zero => named (UInt8.toNat_inj.mp zero)
  rw [Instruction.variableOperand, if_neg (by simpa using named)]
  by_cases slot : v < 16
  · have same : v.toUInt16.toNat = (v - 1).toUInt16.toNat + 1 := by
      rw [UInt8.toNat_toUInt16, UInt8.toNat_toUInt16, toNat_pred named]
      omega
    rw [if_pos slot]
    have meets : Meets p v := .inl slot
    cases signed <;> exact iff_of_true ⟨toUInt16_lt_iff.mpr slot, same⟩ meets
  · have above : 16 ≤ v.toUInt16 := UInt16.not_lt.mp (mt toUInt16_lt_iff.mp slot)
    have same : address m v.toUInt16 = (p.globalAddr v).toNat ↔ Meets p v := by
      rw [address_eq table slot]
      split
      next meets => simp [meets]
      next apart => simp [apart]
    rw [if_neg slot]
    cases signed <;> exact (and_iff_right above).trans same

theorem exists_variable (named : v ≠ 0) (signed : Bool) :
    ∃ y, (operand (Instruction.variableOperand p signed v)).run m = some (y, m) := by
  rw [Instruction.variableOperand, if_neg (by simpa using named)]
  split <;> cases signed <;> exact ⟨_, rfl⟩

theorem operand_assign_variable (named : v ≠ 0) (table : m.globals = p.globals) {signed : Bool}
    (held : contents? m v.toUInt16 = some old)
    (read : (operand (Instruction.variableOperand p signed v)).run m = some (y, m)) :
    (operand (Instruction.variableOperand p signed v)).run (assign m v.toUInt16 x) =
      some (if Meets p v then x else y, assign m v.toUInt16 x) := by
  have names := names_variable_iff named table signed
  by_cases meets : Meets p v
  · have off : (Instruction.variableOperand p signed v).onStack = false := by
      rw [Instruction.variableOperand, if_neg (by simpa using named)]
      split <;> cases signed <;> rfl
    rw [if_pos meets]
    exact operand_of_names (names_assign.mpr (names.mpr meets)) off (contents?_assign held)
  · have aligned : Aligned m.globals (Instruction.variableOperand p signed v) := by
      rw [table, Instruction.variableOperand_eq]
      exact Statement.aligned_written p signed (.byNumber v)
    rw [if_neg meets]
    exact operand_assign (mt names.mp meets) aligned read

theorem store_of_meets (named : v ≠ 0) (table : m.globals = p.globals) (meets : Meets p v) :
    (store p v x).run m = some ((), assign m v.toUInt16 x) := by
  rw [store, assign, if_neg named, if_neg (toUInt16_ne_zero named)]
  simp only [toUInt16_lt_iff]
  split
  next slot =>
    rw [toNat_pred named, UInt8.toNat_toUInt16]
    rfl
  next global =>
    rw [address_eq table global, if_pos meets]
    rfl

theorem contents?_store (named : v ≠ 0) (table : m.globals = p.globals)
    (held : contents? m v.toUInt16 = some old) (stored : (store p v x).run m = some ((), m')) :
    contents? m' v.toUInt16 = some (if Meets p v then x else old) := by
  by_cases meets : Meets p v
  · rw [store_of_meets named table meets] at stored
    cases stored
    rw [if_pos meets]
    exact contents?_assign held
  · have global : ¬ v < 16 := fun slot => meets (.inl slot)
    rw [store, if_neg named, if_neg global] at stored
    obtain rfl := modify_eq_some_iff.mp stored
    -- the word written lies 2 ^ 16 bytes in front of the one read
    have far := address_eq table global
    rw [if_neg meets] at far
    rw [if_neg meets, ← held, contents?, contents?]
    simp only [if_neg (toUInt16_ne_zero named), if_neg (mt toUInt16_lt_iff.mp global)]
    have kept (memory : Image) : address { m with memory } v.toUInt16 = address m v.toUInt16 := rfl
    rw [kept, Image.length_write, wordAt_write_apart (by omega)]

end

end ZCode.Rules

namespace ZCode.Statement

open ZCode.Script

-- The machine on which an instruction computes its value: one that pauses has stopped it.
def entered (i : Instruction) (m : Machine) : Machine :=
  if i.pauses then { m with stop := .ofInt 1, pc := .ofInt i.next.toNat } else m

/-- The value that the instruction's script computes, before it is stored, has the low word `x`. -/
def Computes (p : Profile) (i : Instruction) (m : Machine) (x : UInt16) (m₁ : Machine) : Prop :=
  ∃ op e y t, i.op? = some op ∧ meant p i (i.operands.map operandPhrase) op = some (.value e) ∧
    Gives (eval e.expr) (frame (entered i m) (.ofInt 0)) y (frame m₁ t) ∧ y.word = x

def ReadsAs (m : Machine) (op : Operand) (y : UInt16) : Prop :=
  ∀ t, Gives (eval (operandPhrase op).expr) (frame m t) (.ofInt (number op y)) (frame m t)

/-- To load the variable by its number yields the word `x`, which goes where the store byte says. -/
def Loads (p : Profile) (m : Machine) (v x : UInt16) : Prop :=
  ∀ img pos j, Instruction.decode img p pos = .ok j → j.op? = some .load →
    j.operands = [⟨.constant, v⟩] → Computes p j m x m ∧
      ∀ u m', j.result = some u → (Rules.store p u x).run m = some ((), m') → Runs p j m .normal m'

section

variable {p : Profile} {n : Nat} {i : Instruction} {op : Op} {m m₁ m' : Machine} {t : Value}
  {s s' : State} {c : Completion} {e : Phrase}

theorem gives_entered {cs : List Clause}
    (ran : Gives (execAll ((pausing i ++ cs).map Clause.stmt)) (frame m t) c s) :
    Gives (execAll (cs.map Clause.stmt)) (frame (entered i m) t) c s := by
  rw [pausing] at ran
  rw [entered]
  split at ran
  next pauses =>
    have stopped : Gives (exec (Clause.simple (.expr (setPhrase "stop" (.number 1)))).stmt)
        (frame m t) .normal (frame { m with stop := .ofInt 1 } t) := gives_setNumber rfl rfl
    have resumed : Gives (exec (Clause.simple (.expr (setPhrase "pc" (.number i.next.toNat)))).stmt)
        (frame { m with stop := .ofInt 1 } t) .normal
        (frame { m with stop := .ofInt 1, pc := .ofInt i.next.toNat } t) := gives_setNumber rfl rfl
    have row : Gives (execAll ((pauseRow i).clauses.map Clause.stmt)) (frame m t) .normal
        (frame { m with stop := .ofInt 1, pc := .ofInt i.next.toNat } t) :=
      stopped.andThen (resumed.andThen gives_done)
    rw [if_pos pauses]
    rw [List.map_append, gives_append_iff] at ran
    rcases ran with ⟨s₁, before, later⟩ | ⟨v, -, before⟩
    · obtain ⟨-, rfl⟩ := before.unique row
      exact later
    · cases (before.unique row).1
  next goes =>
    rw [if_neg goes]
    exact ran

theorem exists_value_of_assign {v : UInt8} (named : v ≠ 0) {z : Value}
    (ran : Gives (eval (assignPhrase p v e).expr) (frame m t) z s) :
    ∃ y s₁, Gives (eval e.expr) (frame m t) y s₁ := by
  rw [assignPhrase, if_neg (by simpa using named)] at ran
  split at ran
  · -- the slot is found before the value is computed, and finding it changes nothing
    obtain ⟨q, s₁, s₂, located, value, -⟩ := gives_assign_iff.mp ran
    have place : Gives (evalPlace (slot (v - 1).toNat).expr) (frame m t) _ (frame m t) :=
      gives_l.placeIndex (gives_number _)
    obtain ⟨-, rfl⟩ := located.unique place
    exact ⟨z, s₂, value⟩
  · obtain ⟨_, _, both, -⟩ := gives_sequence_iff.mp ran
    obtain ⟨_, _, first, -⟩ := gives_sequence_iff.mp both
    obtain ⟨q, s₁, s₂, located, value, -⟩ := gives_assign_iff.mp first
    obtain ⟨-, rfl⟩ := gives_pure_iff.mp located
    exact ⟨_, s₂, value⟩

theorem exists_value_of_branch {b : Branch} (ran : Gives (exec (branchClause i b e).stmt) s c s') :
    ∃ z s₁, Gives (eval e.expr) s z s₁ ∧ (Bound s₁ → ∃ x, s'.machine = { s₁.machine with pc := x }) := by
  obtain ⟨y, s₁, tested, ran⟩ := gives_when_iff.mp ran
  obtain ⟨z, value⟩ : ∃ z, Gives (eval e.expr) s z s₁ := by
    cases way : b.ifTrue with
    | true =>
      rw [way] at tested
      exact ⟨y, tested⟩
    | false =>
      rw [way] at tested
      obtain ⟨z, value, -⟩ := gives_unary_iff.mp tested
      exact ⟨z, value⟩
  refine ⟨z, s₁, value, fun bound => ?_⟩
  split at ran
  · have ran : Gives (execAll ((leave i b).map Simple.stmt)) s₁ c s' := ran
    rw [leave] at ran
    split at ran
    · obtain ⟨_, -, returned⟩ := gives_ret_iff.mp (gives_singleton_iff.mp ran)
      obtain ⟨-, rfl⟩ := returned.unique (gives_integer _)
      exact ⟨_, rfl⟩
    · have jumped : Gives (exec (Clause.simple (.expr (setPhrase "pc"
          (.number (i.jumpTarget b.offset.toInt).toNat)))).stmt) s₁ .normal _ :=
        gives_setNumber bound rfl
      rcases gives_cons_iff.mp ran with ⟨s₂, first, last⟩ | ⟨_, _, first⟩
      · obtain ⟨-, rfl⟩ := first.unique jumped
        cases last
        exact ⟨_, rfl⟩
      · cases (first.unique jumped).1
  · obtain ⟨-, rfl⟩ := ran
    exact ⟨_, rfl⟩

theorem exists_stored {length : Nat} (shaped : Shaped p n op i) {cs : List Clause}
    (found : sense p i = some cs) {v : UInt8} (stores : i.stores = true) (result : i.result = some v)
    (named : v ≠ 0) (sized : Rules.Sized length m)
    (inside : 16 ≤ v → (p.globalAddr v).toNat + 2 ≤ length)
    (given : Gives (execAll (cs.map Clause.stmt)) (frame m (.ofInt 0)) c s) :
    ∃ x m₁ m₂ pc, Computes p i m x m₁ ∧ Rules.Sized length m₁ ∧ m₁.globals = m.globals ∧
      (Rules.store p v x).run m₁ = some ((), m₂) ∧ Rules.Sized length m₂ ∧
      s.machine = { m₂ with pc := pc } := by
  rcases sense_cases shaped found with ⟨e, e', effected, carried, parts⟩ | ⟨as, -, action, -⟩
  · obtain ⟨keeps, -⟩ | ⟨-, u, at_, rfl⟩ := carried
    · rw [stores] at keeps
      cases keeps
    obtain rfl : v = u := Option.some.inj (result.symm.trans at_)
    obtain ⟨z, s₂, assigned, behind⟩ : ∃ z s₂,
        Gives (eval (assignPhrase p v e).expr) (frame (entered i m) (.ofInt 0)) z s₂ ∧
          (Bound s₂ → ∃ pc, s.machine = { s₂.machine with pc := pc }) := by
      rcases parts with rfl | ⟨b, -, -, rfl⟩
      · obtain ⟨-, z, value⟩ := gives_expr_iff.mp (gives_singleton_iff.mp (gives_entered given))
        exact ⟨z, s, value, fun _ => ⟨_, rfl⟩⟩
      · exact exists_value_of_branch (gives_singleton_iff.mp (gives_entered given))
    obtain ⟨y, s₁, value⟩ := exists_value_of_assign named assigned
    -- whatever the value calls, it assigns to no name but the temporary
    have mild : e.Mild := mild_expr.mp (mild_meant effected _ (List.mem_singleton_self _))
    have framed : Framed length m.globals (frame (entered i m) (.ofInt 0)) := by
      refine ⟨_, _, rfl, ?_⟩
      rw [entered]
      split <;> exact ⟨⟨sized.locals, sized.stack, sized.memory⟩, rfl⟩
    have lasts := (lasts_framed length m.globals).eval fun t member =>
      temporary_of_mild (mild t member)
    obtain ⟨m₁, t₁, rfl, sized₁, table⟩ := lasts.gives value framed
    obtain ⟨m₂, stored⟩ : ∃ m₂, (Rules.store p v y.word).run m₁ = some ((), m₂) := by
      rw [Rules.store, if_neg named]
      split <;> exact ⟨_, rfl⟩
    -- storing the value by the rules leads to the state that the run has left
    obtain ⟨⟨z', t₂, written⟩, sized₂⟩ := gives_assign sized₁ inside value stored
    obtain ⟨-, rfl⟩ := assigned.unique written
    obtain ⟨pc, left⟩ := behind rfl
    exact ⟨y.word, m₁, m₂, pc, ⟨op, e, y, t₁, shaped.known, effected, value, rfl⟩, sized₁, table,
      stored, sized₂, left⟩
  · -- an action has no value to store
    cases stores.symm.trans (shaped.stores.trans action.keeps)

theorem loads_of_contents {v x : UInt16} (inside : p.globals.toNat + Settings.globalsSize ≤ n)
    (sized : Rules.Sized n m) (held : Rules.contents? m v = some x) : Loads p m v x := by
  intro img pos j decoded known one
  have shaped := shaped_of_decode inside decoded known
  have goes : j.pauses = false := shaped.pauses
  have effected : effect p j (j.operands.map operandPhrase) .load =
      some (.value (hostPhrase "indirect" [.number v.toNat])) := by
    rw [one]
    rfl
  have value : Gives (eval (hostPhrase "indirect" [.number v.toNat]).expr) (frame m (.ofInt 0))
      (.ofWord x) (frame m (.ofInt 0)) :=
    (gives_runtime "indirect").call ((gives_number v.toNat).cons gives_nil) (gives_readVariable held)
  constructor
  · refine ⟨.load, _, .ofWord x, .ofInt 0, known, effected, ?_, Value.word_ofWord x⟩
    rw [entered, goes]
    exact value
  · intro u m' result stored
    have written := shaped.clauses_stored rfl effected result
    rw [← Value.word_ofWord x] at stored
    obtain ⟨⟨_, _, assigned⟩, -⟩ := gives_assign sized (shaped.globals u) value stored
    exact runs_of_clauses written shaped.unsigned (assigned.expr.andThen gives_done)

theorem runs_of_sets {v x old : UInt16} (shaped : Shaped p n op i) (sized : Rules.Sized n m)
    (sets : Rules.Sets v x op i.operands m m₁) (held : Rules.contents? m₁ v = some old) :
    Runs p i m .normal (Rules.assign m₁ v x) := by
  have number : Gives (eval (Phrase.number v.toNat).expr) (frame m (.ofInt 0)) (.ofWord v)
      (frame m (.ofInt 0)) := gives_number v.toNat
  have written : Gives (applyMethod .indirect [.ofWord v, .ofWord x]) (frame m₁ (.ofInt 0))
      .undefined (frame (Rules.assign m₁ v x) (.ofInt 0)) :=
    (gives_writeVariable held).bind (gives_pure _)
  -- each opcode is one call of the runtime object, whatever value that has
  suffices called : ∃ e z, effect p i (i.operands.map operandPhrase) op = some (.value e) ∧
      Gives (eval e.expr) (frame m (.ofInt 0)) z (frame (Rules.assign m₁ v x) (.ofInt 0)) ∧
      ∃ signs, shapeOf p.version op = { signed := signs } by
    obtain ⟨e, z, effected, value, signs, shape⟩ := called
    have clauses := shaped.clauses_plain shape effected
    exact runs_of_clauses clauses shaped.unsigned (value.expr.andThen gives_done)
  generalize two : i.operands = ops at sets
  cases sets with
  | @store b _ _ read =>
    have unsigned : b.signed = false := shaped.signed 1 b (by simp [two])
    obtain ⟨second, -⟩ := gives_operand (t := .ofInt 0) sized
      (shaped.reachable b (by simp [two])) read
    rw [number_unsigned unsigned] at second
    exact ⟨hostPhrase "indirect" [.number v.toNat, operandPhrase b], _, rfl,
      (gives_runtime "indirect").call (number.cons (second.cons gives_nil)) written, _, rfl⟩
  | pull taken =>
    obtain ⟨⟨low, high⟩, rfl, rfl⟩ := Rules.pop_eq_some_iff.mp taken
    have popped_ := gives_popped (t := .ofInt 0) low high sized.stack
    exact ⟨hostPhrase "indirect" [.number v.toNat, popped], _, rfl,
      (gives_runtime "indirect").call (number.cons (popped_.cons gives_nil)) written, _, rfl⟩
  | count up before counted =>
    have ran : (Rules.count up v).run m = some (x, Rules.assign m v x) :=
      Rules.count_eq_some_iff.mpr ⟨_, before, counted, rfl⟩
    have one : Gives (eval (if up then Phrase.number 1 else minusOne).expr) (frame m (.ofInt 0))
        (.ofInt (if up then 1 else -1)) (frame m (.ofInt 0)) := by
      cases up
      · exact gives_integer (-1)
      · exact gives_number 1
    refine ⟨hostPhrase "incdec" [.number v.toNat, if up then .number 1 else minusOne], _, ?_,
      (gives_runtime "incdec").call (number.cons (one.cons gives_nil)) (gives_count ran), ?_⟩
    · cases up <;> rfl
    · cases up <;> exact ⟨_, rfl⟩

theorem readsAs_of_variable {v : UInt8} {y : UInt16} {signed : Bool}
    (inside : p.globals.toNat + Settings.globalsSize ≤ n) (sized : Rules.Sized n m)
    (read : (Rules.operand (Instruction.variableOperand p signed v)).run m = some (y, m)) :
    ReadsAs m (Instruction.variableOperand p signed v) y := by
  intro t
  have reachable : Reachable n (Instruction.variableOperand p signed v) := by
    rw [Instruction.variableOperand_eq]
    exact reachable_written inside signed (.byNumber v)
  exact (gives_operand sized reachable read).1

end

section Ways

variable {p : Profile} {n : Nat} (inside : p.globals.toNat + Settings.globalsSize ≤ n) {m m₁ m' : Machine}
  (sized : Rules.Sized n m) (table : m.globals = p.globals) {v : UInt8} (named : v ≠ 0)

include inside sized table named

theorem exists_word : ∃ old, Rules.contents? m v.toUInt16 = some old := by
  have small : v.toUInt16 < 256 := by
    rw [UInt16.lt_iff_toNat_lt, UInt8.toNat_toUInt16]
    exact v.toNat_lt
  rw [← table] at inside
  exact exists_contents inside sized small fun top => absurd top (Rules.toUInt16_ne_zero named)

theorem loads_of_stored {img : Image} {pos : UInt32} {i : Instruction} {c : Completion}
    (decoded : Instruction.decode img p pos = .ok i) (stores : i.stores = true)
    (result : i.result = some v) (ran : Runs p i m c m') :
    ∃ x m₁ old, Computes p i m x m₁ ∧ Loads p m₁ v.toUInt16 old ∧
      Loads p m' v.toUInt16 (if Rules.Meets p v then x else old) := by
  obtain ⟨k, op, cs, left, shaped, found, given, rfl⟩ := sense_of_runs decoded ran
  obtain ⟨x, m₁, m₂, pc, computes, sized₁, kept, stored, sized₂, behind⟩ := exists_stored shaped found
    stores result named sized (globalAddr_inside inside v) given
  obtain ⟨old, held⟩ := exists_word inside sized₁ (kept.trans table) named
  have after := Rules.contents?_store named (kept.trans table) held stored
  refine ⟨x, m₁, old, computes, loads_of_contents inside sized₁ held, ?_⟩
  -- the program counter has no part in what a variable holds
  rw [behind]
  exact loads_of_contents inside ⟨sized₂.locals, sized₂.stack, sized₂.memory⟩ after

theorem reads_of_sets {x : UInt16} {op : Op} {ops : List Operand}
    (sets : Rules.Sets v.toUInt16 x op ops m m₁) (signed : Bool) :
    ∃ old, ReadsAs m₁ (Instruction.variableOperand p signed v) old ∧
      ReadsAs (Rules.assign m₁ v.toUInt16 x) (Instruction.variableOperand p signed v)
        (if Rules.Meets p v then x else old) := by
  obtain ⟨word, held⟩ := exists_word inside sized table named
  rw [← sets.contents? (Rules.toUInt16_ne_zero named)] at held
  obtain ⟨sp, moved⟩ := sets.machine
  have sized₁ : Rules.Sized n m₁ := by
    rw [moved]
    exact ⟨sized.locals, sized.stack, sized.memory⟩
  have table₁ : m₁.globals = p.globals := by
    rw [moved]
    exact table
  obtain ⟨old, before⟩ := Rules.exists_variable (p := p) (m := m₁) named signed
  have after := Rules.operand_assign_variable (x := x) named table₁ held before
  exact ⟨old, readsAs_of_variable inside sized₁ before,
    readsAs_of_variable inside (sized₁.assign _ _) after⟩

end Ways

/-- What a store byte puts in a variable is what a load by number yields, and what is put there by
number is what an operand reads, as long as the variable's address does not wrap around. Beyond that
the two ways lead to two places, and each finds what it would have found before. -/
theorem ways_to_variable {s : Settings} (valid : s.validate = .ok ()) {m : Machine}
    (sized : Rules.Sized s.imageLength.toNat m) (table : m.globals = s.globals) {v : UInt8}
    (named : v ≠ 0) :
    let p : Profile := ⟨s.version, s.globals⟩
    (∀ img pos i c m', Instruction.decode img p pos = .ok i → i.stores = true →
      i.result = some v → Runs p i m c m' → ∃ x m₁ old, Computes p i m x m₁ ∧
        Loads p m₁ v.toUInt16 old ∧
        Loads p m' v.toUInt16 (if Rules.Meets p v then x else old)) ∧
    ∀ img pos i op x m₁, Instruction.decode img p pos = .ok i → i.op? = some op →
      Rules.Sets v.toUInt16 x op i.operands m m₁ →
      Runs p i m .normal (Rules.assign m₁ v.toUInt16 x) ∧ ∀ signed, ∃ old,
        ReadsAs m₁ (Instruction.variableOperand p signed v) old ∧
        ReadsAs (Rules.assign m₁ v.toUInt16 x) (Instruction.variableOperand p signed v)
          (if Rules.Meets p v then x else old) := by
  intro p
  have inside : p.globals.toNat + Settings.globalsSize ≤ s.imageLength.toNat :=
    Fragment.globals_of_validate valid
  constructor
  · intro img pos i c m' decoded stores result ran
    exact loads_of_stored inside sized table named decoded stores result ran
  · intro img pos i op x m₁ decoded known sets
    have shaped := shaped_of_decode inside decoded known
    obtain ⟨old, held⟩ := exists_word inside sized table named
    rw [← sets.contents? (Rules.toUInt16_ne_zero named)] at held
    exact ⟨runs_of_sets shaped sized sets held, reads_of_sets inside sized table named sets⟩

-- The sum of 2 and 3 goes to the ninth global by a store byte, or 5 goes there by number.
theorem ways_to_variable_sum :
    let p : Profile := ⟨5, 16⟩
    let sum : Instruction :=
      { addr := 0, opcode := 20, operands := [⟨.constant, 2⟩, ⟨.constant, 3⟩], result := some 24,
        stores := true, next := 4 }
    let set : Instruction :=
      { addr := 0, opcode := 13, operands := [⟨.constant, 24⟩, ⟨.constant, 5⟩], next := 3 }
    let m : Machine := { memory := .zeroed 512, globals := 16 }
    Instruction.decode ⟨#[0x14, 2, 3, 24], by decide⟩ p 0 = .ok sum ∧
      Instruction.decode ⟨#[0x0D, 24, 5], by decide⟩ p 0 = .ok set ∧
      (∃ m', Runs p sum m .normal m' ∧ Loads p m' 24 5) ∧
      ∃ m', Runs p set m .normal m' ∧ ReadsAs m' (Instruction.variableOperand p true 24) 5 := by
  intro p sum set m
  let s : Settings := { imageLength := 512, version := 5, globals := 16 }
  have valid : s.validate = .ok () := by decide
  have sized : Rules.Sized 512 m := by
    constructor <;> simp [m, Image.zeroed, Image.length]
  have first : Instruction.decode ⟨#[0x14, 2, 3, 24], by decide⟩ p 0 = .ok sum := by decide +kernel
  have second : Instruction.decode ⟨#[0x0D, 24, 5], by decide⟩ p 0 = .ok set := by decide +kernel
  have meets : Rules.Meets p 24 := by decide
  obtain ⟨stored, put⟩ := ways_to_variable (v := 24) valid sized rfl (by decide)
  refine ⟨first, second, ?_, ?_⟩
  · have goes : (outcome? p sum m).map (fun r => goesOn r.1) = some true := by decide +kernel
    obtain ⟨m', ran⟩ := exists_runs_of_goesOn goes
    obtain ⟨x, m₁, old, ⟨op, e, y, t, known, effected, value, rfl⟩, -, loads⟩ :=
      stored _ _ sum _ m' first rfl rfl ran
    obtain rfl : op = .add := (Option.some.inj known).symm
    cases effected
    obtain ⟨rfl, -⟩ := value.unique ((gives_number 2).binary .add (gives_number 3))
    rw [if_pos meets, applyBinary_add (by decide), Value.word_ofInt] at loads
    exact ⟨m', ran, loads⟩
  · obtain ⟨ran, reads⟩ := put _ _ set _ 5 m second rfl (.store rfl)
    obtain ⟨old, -, after⟩ := reads true
    rw [if_pos meets] at after
    exact ⟨_, ran, after⟩

-- With the table of globals at 65520 the ninth of them wraps around: what is put there by number,
-- an operand does not read.
theorem variable_wraps_around :
    let s : Settings := { imageLength := 66000, version := 5, globals := 65520 }
    let p : Profile := ⟨s.version, s.globals⟩
    let set : Instruction :=
      { addr := 0, opcode := 13, operands := [⟨.constant, 24⟩, ⟨.constant, 5⟩], next := 3 }
    let m : Machine := { memory := .zeroed 66000, globals := 65520 }
    s.validate = .ok () ∧ Rules.Sized s.imageLength.toNat m ∧
      Instruction.decode ⟨#[0x0D, 24, 5], by decide⟩ p 0 = .ok set ∧
      ∃ m', Runs p set m .normal m' ∧ ReadsAs m' (Instruction.variableOperand p false 24) 0 := by
  intro s p set m
  have valid : s.validate = .ok () := by decide
  have inside : p.globals.toNat + Settings.globalsSize ≤ s.imageLength.toNat :=
    Fragment.globals_of_validate valid
  have sized : Rules.Sized s.imageLength.toNat m := by
    constructor <;> simp [m, s, Image.zeroed, Image.length]
  have decoded : Instruction.decode ⟨#[0x0D, 24, 5], by decide⟩ p 0 = .ok set := by decide +kernel
  have shaped : Shaped p s.imageLength.toNat .store set := shaped_of_decode inside decoded rfl
  obtain ⟨old, held⟩ := exists_contents (v := 24) (m := m) inside sized (by decide) (by decide)
  have before : (Rules.operand (Instruction.variableOperand p false 24)).run m = some (0, m) := by
    have place : Instruction.variableOperand p false 24 = ⟨.global, 0⟩ := by decide
    have empty (pos : Nat) : Rules.byteAt m pos = 0 := by
      simp only [Rules.byteAt, m, Image.zeroed, Array.getD_eq_getD_getElem?, Array.getElem?_replicate]
      split <;> rfl
    have word : Rules.wordAt m (0 : UInt16).toNat = 0 := by
      rw [Rules.wordAt, empty, empty]
      rfl
    rw [place]
    exact congrArg (fun w => some (w, m)) word
  have after := Rules.operand_assign_variable (x := 5) (v := 24) (p := p) (by decide) rfl held before
  have apart : ¬ Rules.Meets p 24 := by decide
  rw [if_neg apart] at after
  exact ⟨valid, sized, decoded, _, runs_of_sets shaped sized (.store rfl) held,
    readsAs_of_variable inside (sized.assign _ _) after⟩

end ZCode.Statement
