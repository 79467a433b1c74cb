import ZCode.Proofs.Block.Balance

set_option autoImplicit false

namespace ZCode.Word

theorem and_mask (n : Int) :
    (Int32.ofInt n &&& Int32.ofInt 0xFFFF).toInt = (UInt16.ofInt n).toNat := by
  have mask : (Int32.ofInt 0xFFFF).toBitVec = 0xFFFF#32 := rfl
  have number : (Int32.ofInt n).toBitVec = BitVec.ofInt 32 n := rfl
  have low : (BitVec.ofInt 32 n &&& 0xFFFF#32).toNat = (UInt16.ofInt n).toNat := by
    rw [BitVec.toNat_and, BitVec.toNat_ofInt, BitVec.toNat_ofNat,
      show 0xFFFF % 2 ^ 32 = 2 ^ 16 - 1 from rfl, Nat.and_two_pow_sub_one_eq_mod]
    simp only [UInt16.ofInt, UInt16.toNat_ofNat']
    omega
  have bound := (UInt16.ofInt n).toNat_lt
  rw [← Int32.toInt_toBitVec, Int32.toBitVec_and, number, mask, BitVec.toInt_eq_toNat_cond, low,
    if_pos (by omega)]

end ZCode.Word

namespace ZCode.Rules

open ZCode.Script (Machine)

deriving instance DecidableEq for Flow

-- Where the machine finds a global: unlike the addresses in operands, those by number do not wrap
-- around.
def address (m : Machine) (v : UInt16) : Nat :=
  m.globals.toNat + 2 * (v.toNat - 16)

def contents? (m : Machine) (v : UInt16) : Option UInt16 :=
  if v = 0 then if 0 < m.sp then m.stack[(m.sp - 1).toNat]? else none
  else if v < 16 then m.locals[v.toNat - 1]?
  else if address m v + 2 ≤ m.memory.length then some (wordAt m (address m v))
  else none

def assign (m : Machine) (v w : UInt16) : Machine :=
  if v = 0 then { m with stack := m.stack.setIfInBounds (m.sp - 1).toNat w }
  else if v < 16 then { m with locals := m.locals.setIfInBounds (v.toNat - 1) w }
  else { m with memory := m.memory.write (address m v) (Image.wordBytes w) }

def bump (up : Bool) (w : UInt16) : UInt16 :=
  if up then w + 1 else w - 1

def count (up : Bool) (v : UInt16) : Action UInt16 := fun m =>
  (contents? m v).map fun old => (bump up old, assign m v (bump up old))

def passes (up : Bool) (w limit : UInt16) : Bool :=
  if up then limit.toInt16 < w.toInt16 else w.toInt16 < limit.toInt16

/-- Both operands are read before anything changes. -/
def readThenCount (up : Bool) (i : Instruction) (a b : Operand) : Action Flow := do
  let v ← operand a
  let limit ← operand b
  let w ← count up v
  branch i (passes up w limit)

/-- The second operand is read when the variable has been counted. -/
def countThenRead (up : Bool) (i : Instruction) (a b : Operand) : Action Flow := do
  let v ← operand a
  let w ← count up v
  let limit ← operand b
  branch i (passes up w limit)

def Names (m : Machine) (v : UInt16) (op : Operand) : Prop :=
  match op.kind with
  | .stack | .signedStack => v = 0
  | .slot | .signedSlot => v < 16 ∧ v.toNat = op.value.toNat + 1
  | .global | .signedGlobal => 16 ≤ v ∧ address m v = op.value.toNat
  | _ => False

def Aligned (globals : UInt16) (op : Operand) : Prop :=
  match op.kind with
  | .global | .signedGlobal => op.value.toNat % 2 = globals.toNat % 2
  | .reserved _ => False
  | _ => True

def turn (up : Bool) : UInt16 :=
  if up then 0x7FFF else 0x8000

theorem bump_ne (up : Bool) (w : UInt16) : bump up w ≠ w := by
  have bound := w.toNat_lt
  intro same
  have numbers := congrArg UInt16.toNat same
  cases up <;> simp [bump, UInt16.toNat_add, UInt16.toNat_sub] at numbers <;> omega

theorem not_passes_self (up : Bool) (w : UInt16) : passes up w w = false := by
  cases up <;> simp [passes]

theorem passes_bump (up : Bool) (w : UInt16) : passes up (bump up w) w = decide (w ≠ turn up) := by
  have bound := w.toNat_lt
  have turning : w = turn up ↔ w.toNat = (turn up).toNat := UInt16.toNat_inj.symm
  simp only [passes, Int16.lt_iff_toInt_lt, Word.toInt_toInt16, ne_eq, turning]
  cases up
  · simp only [bump, turn, UInt16.toNat_sub, UInt16.reduceToNat, Bool.false_eq_true, if_false,
      decide_eq_decide]
    split_ifs <;> omega
  · simp only [bump, turn, UInt16.toNat_add, UInt16.reduceToNat, if_true, decide_eq_decide]
    split_ifs <;> omega

theorem getD_of_getElem? {words : Array UInt16} {k : Nat} {w : UInt16} (found : words[k]? = some w) :
    words.getD k 0 = w := by
  rw [Array.getD_eq_getD_getElem?, found, Option.getD_some]

section

variable {m m' : Machine} {v w y : UInt16} {op : Operand}

theorem count_eq_some_iff {up : Bool} : (count up v).run m = some (w, m') ↔
    ∃ old, contents? m v = some old ∧ bump up old = w ∧ assign m v w = m' := by
  simp only [StateT.run, count, Option.map_eq_some_iff, Prod.mk.injEq]
  constructor
  · rintro ⟨old, found, rfl, rfl⟩
    exact ⟨old, found, rfl, rfl⟩
  · rintro ⟨old, found, rfl, rfl⟩
    exact ⟨old, found, rfl, rfl⟩

theorem operand_of_onStack (on : op.onStack = true) : operand op = pop := by
  obtain ⟨kind, value⟩ := op
  cases kind with
  | stack | signedStack => rfl
  | constant | signedConstant | slot | signedSlot | global | signedGlobal | reserved => cases on

theorem operand_top (low : 0 < m.sp) (high : m.sp ≤ m.stack.size) (on : op.onStack = true) :
    (operand op).run m = some (m.stack.getD (m.sp - 1).toNat 0, { m with sp := m.sp - 1 }) := by
  rw [operand_of_onStack on]
  exact pop_eq_some_iff.mpr ⟨⟨low, high⟩, rfl, rfl⟩

theorem contents?_top (low : 0 < m.sp) (high : m.sp ≤ m.stack.size) :
    contents? m 0 = some (m.stack.getD (m.sp - 1).toNat 0) := by
  have inside : (m.sp - 1).toNat < m.stack.size := by omega
  rw [contents?, if_pos rfl, if_pos low, Array.getD_eq_getD_getElem?,
    Array.getElem?_eq_getElem inside, Option.getD_some]

theorem names_of_onStack (on : op.onStack = true) : Names m v op ↔ v = 0 := by
  obtain ⟨kind, value⟩ := op
  cases kind with
  | stack | signedStack => rfl
  | constant | signedConstant | slot | signedSlot | global | signedGlobal | reserved => cases on

theorem Sized.assign {n : Nat} (sized : Sized n m) (v w : UInt16) : Sized n (assign m v w) := by
  simp only [Rules.assign]
  split
  · exact ⟨sized.locals, by simpa using sized.stack, sized.memory⟩
  split
  · exact ⟨by simpa using sized.locals, sized.stack, sized.memory⟩
  · exact ⟨sized.locals, sized.stack, by simpa using sized.memory⟩

theorem Sized.count {n : Nat} (sized : Sized n m) {up : Bool}
    (ran : (count up v).run m = some (w, m')) : Sized n m' := by
  obtain ⟨-, -, -, rfl⟩ := count_eq_some_iff.mp ran
  exact sized.assign v w

theorem globals_assign (m : Machine) (v w : UInt16) : (assign m v w).globals = m.globals := by
  simp only [assign]
  split <;> [rfl; split <;> rfl]

theorem machine_of_operand (ran : (operand op).run m = some (w, m')) :
    m' = { m with sp := m.sp - op.onStack.toNat } := by
  obtain ⟨kind, value⟩ := op
  cases kind with
  | stack | signedStack =>
    obtain ⟨-, -, rfl⟩ := pop_eq_some_iff.mp ran
    rfl
  | constant | signedConstant | slot | signedSlot | global | signedGlobal | reserved =>
    cases ran
    simp [Operand.onStack]

theorem exists_operand (op : Operand) (enough : (op.onStack.toNat : Int) ≤ m.sp) (high : m.sp ≤ m.stack.size) :
    ∃ w, (operand op).run m = some (w, { m with sp := m.sp - op.onStack.toNat }) := by
  obtain ⟨kind, value⟩ := op
  cases kind with
  | stack | signedStack =>
    have low : 0 < m.sp := enough
    exact ⟨_, pop_eq_some_iff.mpr ⟨⟨low, high⟩, rfl, rfl⟩⟩
  | constant | signedConstant | slot | signedSlot | global | signedGlobal | reserved =>
    have still : ({ m with sp := m.sp - (0 : Nat) } : Machine) = m := by simp
    exact ⟨_, by rw [Operand.onStack, Bool.toNat_false, still]; rfl⟩

theorem wordAt_write_same {pos : Nat} (inside : pos + 2 ≤ m.memory.length) :
    wordAt { m with memory := m.memory.write pos (Image.wordBytes w) } pos = w := by
  have room : pos + 1 < m.memory.bytes.size := inside
  apply Image.word_of_wordBytes
  simp only [Image.wordBytes, Image.write, Image.setByte, byteAt, List.cons.injEq, and_true,
    Array.getD_eq_getD_getElem?, Array.getElem?_setIfInBounds, Array.size_setIfInBounds]
  constructor
  · rw [if_neg (by omega), if_pos trivial, if_pos (by omega), Option.getD_some]
  · rw [if_pos trivial, if_pos (by omega), Option.getD_some]

theorem wordAt_write_apart {pos k : Nat} (apart : pos + 2 ≤ k ∨ k + 2 ≤ pos) :
    wordAt { m with memory := m.memory.write pos (Image.wordBytes w) } k = wordAt m k := by
  have byte (j : Nat) (before : j ≠ pos) (behind : j ≠ pos + 1) :
      byteAt { m with memory := m.memory.write pos (Image.wordBytes w) } j = byteAt m j := by
    simp only [Image.wordBytes, Image.write, Image.setByte, byteAt, Array.getD_eq_getD_getElem?,
      Array.getElem?_setIfInBounds]
    rw [if_neg (Ne.symm behind), if_neg (Ne.symm before)]
  rw [wordAt, wordAt, byte k (by omega) (by omega), byte (k + 1) (by omega) (by omega)]

theorem contents?_assign {old : UInt16} (held : contents? m v = some old) :
    contents? (assign m v w) v = some w := by
  rw [contents?] at held
  rw [contents?, assign]
  split at held
  next top =>
    rw [if_pos top, if_pos top]
    obtain ⟨low, found⟩ := Option.ite_none_right_eq_some.mp held
    obtain ⟨inside, -⟩ := Array.getElem?_eq_some_iff.mp found
    rw [if_pos low, Array.getElem?_setIfInBounds, if_pos rfl, if_pos inside]
  next named =>
    rw [if_neg named, if_neg named]
    split at held
    next slot =>
      obtain ⟨inside, -⟩ := Array.getElem?_eq_some_iff.mp held
      rw [if_pos slot, if_pos slot, Array.getElem?_setIfInBounds, if_pos rfl, if_pos inside]
    next global =>
      obtain ⟨inside, -⟩ := Option.ite_none_right_eq_some.mp held
      rw [if_neg global, if_neg global]
      have kept : address { m with memory := m.memory.write (address m v) (Image.wordBytes w) } v =
          address m v := rfl
      rw [kept, Image.length_write, if_pos inside, wordAt_write_same inside]

theorem operand_assign (other : ¬ Names m v op) (aligned : Aligned m.globals op)
    (ran : (operand op).run m = some (y, m')) :
    (operand op).run (assign m v w) = some (y, assign m' v w) := by
  obtain ⟨kind, value⟩ := op
  cases kind with
  | constant | signedConstant =>
    obtain ⟨rfl, rfl⟩ := pure_eq_some_iff.mp ran
    rfl
  | stack | signedStack =>
    obtain ⟨⟨low, high⟩, rfl, rfl⟩ := pop_eq_some_iff.mp ran
    apply pop_eq_some_iff.mpr
    have named : v ≠ 0 := other
    simp only [assign, if_neg named]
    split <;> exact ⟨⟨low, high⟩, rfl, rfl⟩
  | slot | signedSlot =>
    cases ran
    by_cases top : v = 0
    · simp only [assign, if_pos top]
      rfl
    · have positive : v.toNat ≠ 0 := fun zero => top (UInt16.toNat_inj.mp zero)
      by_cases slot : v < 16
      · simp only [assign, if_neg top, if_pos slot]
        have apart : v.toNat ≠ value.toNat + 1 := fun same => other ⟨slot, same⟩
        have same : (m.locals.setIfInBounds (v.toNat - 1) w).getD value.toNat 0 =
            m.locals.getD value.toNat 0 := by
          rw [Array.getD_eq_getD_getElem?, Array.getElem?_setIfInBounds, if_neg (by omega),
            Array.getD_eq_getD_getElem?]
        exact congrArg (fun x => some (x, _)) same
      · simp only [assign, if_neg top, if_neg slot]
        rfl
  | global | signedGlobal =>
    cases ran
    by_cases top : v = 0
    · simp only [assign, if_pos top]
      rfl
    · by_cases slot : v < 16
      · simp only [assign, if_neg top, if_pos slot]
        rfl
      · simp only [assign, if_neg top, if_neg slot]
        have apart : address m v ≠ value.toNat := fun same => other ⟨UInt16.not_lt.mp slot, same⟩
        have even : value.toNat % 2 = m.globals.toNat % 2 := aligned
        have same : wordAt { m with memory := m.memory.write (address m v) (Image.wordBytes w) }
            value.toNat = wordAt m value.toNat := by
          apply wordAt_write_apart
          rw [address] at apart ⊢
          omega
        exact congrArg (fun x => some (x, _)) same
  | reserved => exact aligned.elim

theorem operand_of_names (named : Names m v op) (off : op.onStack = false)
    (held : contents? m v = some y) : (operand op).run m = some (y, m) := by
  obtain ⟨kind, value⟩ := op
  cases kind with
  | stack | signedStack => cases off
  | constant | signedConstant | reserved => exact named.elim
  | slot | signedSlot =>
    obtain ⟨slot, same⟩ := named
    have top : v ≠ 0 := by
      rintro rfl
      cases same
    rw [contents?, if_neg top, if_pos slot, same, Nat.add_sub_cancel] at held
    exact congrArg (fun x => some (x, m)) (getD_of_getElem? held)
  | global | signedGlobal =>
    obtain ⟨above, same⟩ := named
    have global : ¬ v < 16 := UInt16.not_lt.mpr above
    have top : v ≠ 0 := by
      rintro rfl
      cases above
    rw [contents?, if_neg top, if_neg global] at held
    obtain ⟨-, found⟩ := Option.ite_none_right_eq_some.mp held
    rw [same] at found
    exact congrArg (fun x => some (x, m)) (Option.some.inj found)

theorem names_assign : Names (assign m v w) v op ↔ Names m v op := by
  simp only [Names, address, globals_assign]

theorem exists_branch (i : Instruction) (holds : Bool) (m : Machine) :
    ∃ flow m', (branch i holds).run m = some (flow, m') ∧ m'.stack = m.stack := by
  simp only [branch, depart]
  split
  · exact ⟨_, _, rfl, rfl⟩
  · split_ifs <;> exact ⟨_, _, rfl, rfl⟩

theorem next_iff_of_branch {i : Instruction} {b : Branch} {holds : Bool} {flow : Flow}
    (branching : i.branch = some b) (ran : (branch i holds).run m = some (flow, m')) :
    flow = .next ↔ b.ifTrue ≠ holds := by
  simp only [branch, branching, depart] at ran
  split_ifs at ran with other <;> cases ran <;> simpa using other

theorem holds_of_branch {i : Instruction} {b : Branch} {holds other : Bool} {flow : Flow}
    {m₁ : Machine} (branching : i.branch = some b)
    (ran : (branch i holds).run m = some (flow, m₁))
    (again : (branch i other).run m' = some (flow, m₁)) : holds = other := by
  have same := (next_iff_of_branch branching ran).symm.trans (next_iff_of_branch branching again)
  revert same
  cases holds <;> cases other <;> cases b.ifTrue <;> simp

section Orders

variable {i : Instruction} {a b : Operand} {br : Branch} {old limit : UInt16} {m₁ m₂ : Machine}
  (up : Bool)

theorem run_countThenRead (first : (operand a).run m = some (v, m₁))
    (held : contents? m₁ v = some old)
    (second : (operand b).run (assign m₁ v (bump up old)) = some (limit, m₂)) :
    (countThenRead up i a b).run m = (branch i (passes up (bump up old) limit)).run m₂ := by
  have counted : (count up v).run m₁ = some (bump up old, assign m₁ v (bump up old)) :=
    count_eq_some_iff.mpr ⟨old, held, rfl, rfl⟩
  simp only [countThenRead, StateT.run_bind, first, counted, second, Option.bind_eq_bind,
    Option.bind_some]

theorem run_readThenCount (first : (operand a).run m = some (v, m₁))
    (second : (operand b).run m₁ = some (limit, m₂)) (held : contents? m₂ v = some old) :
    (readThenCount up i a b).run m =
      (branch i (passes up (bump up old) limit)).run (assign m₂ v (bump up old)) := by
  have counted : (count up v).run m₂ = some (bump up old, assign m₂ v (bump up old)) :=
    count_eq_some_iff.mpr ⟨old, held, rfl, rfl⟩
  simp only [readThenCount, StateT.run_bind, first, counted, second, Option.bind_eq_bind,
    Option.bind_some]

theorem contents?_of_operand (other : ¬ Names m v op) (ran : (operand op).run m = some (y, m')) :
    contents? m' v = contents? m v := by
  rw [machine_of_operand ran]
  cases off : op.onStack with
  | false => simp
  | true =>
    have named : v ≠ 0 := fun top => other ((names_of_onStack off).mpr top)
    simp only [contents?, if_neg named]
    rfl

theorem orders_of_other (first : (operand a).run m = some (v, m₁))
    (held : contents? m₁ v = some old) (second : (operand b).run m₁ = some (limit, m₂))
    (aligned : Aligned m₁.globals b) (other : ¬ Names m₁ v b) :
    (readThenCount up i a b).run m = (countThenRead up i a b).run m := by
  rw [run_readThenCount up first second ((contents?_of_operand other second).trans held),
    run_countThenRead up first held (operand_assign other aligned second)]

theorem orders_of_names (first : (operand a).run m = some (v, m₁))
    (held : contents? m₁ v = some old) (named : Names m₁ v b) (off : b.onStack = false) :
    (countThenRead up i a b).run m = (branch i false).run (assign m₁ v (bump up old)) ∧
      (readThenCount up i a b).run m =
        (branch i (decide (old ≠ turn up))).run (assign m₁ v (bump up old)) := by
  have before := operand_of_names named off held
  have behind := operand_of_names (names_assign.mpr named) off
    (contents?_assign (w := bump up old) held)
  rw [run_countThenRead up first held behind, run_readThenCount up first before held, not_passes_self,
    passes_bump]
  exact ⟨rfl, rfl⟩

theorem orders_of_top (first : (operand a).run m = some (0, m₁)) (deep : 2 ≤ m₁.sp)
    (high : m₁.sp ≤ m₁.stack.size) (on : b.onStack = true) :
    ∃ holds holds' top under, top ≠ under ∧
      (countThenRead up i a b).run m = (branch i holds).run { m₁ with stack := top, sp := m₁.sp - 1 } ∧
      (readThenCount up i a b).run m =
        (branch i holds').run { m₁ with stack := under, sp := m₁.sp - 1 } := by
  have low : 0 < m₁.sp := by omega
  have before := operand_top low high on
  have under : contents? { m₁ with sp := m₁.sp - 1 } 0 =
      some (m₁.stack.getD (m₁.sp - 1 - 1).toNat 0) :=
    contents?_top (Int.sub_pos.mpr deep) (Int.le_trans (Int.sub_le_self _ (by decide)) high)
  have behind := operand_top (m := assign m₁ 0 (bump up (m₁.stack.getD (m₁.sp - 1).toNat 0))) low
    (by simpa [assign] using high) on
  refine ⟨_, _, _, _, ?_, run_countThenRead up first (contents?_top low high) behind,
    run_readThenCount up first before under⟩
  intro same
  have words := congrArg (·[(m₁.sp - 1 - 1).toNat]?) same
  have inside : (m₁.sp - 1 - 1).toNat < m₁.stack.size := by omega
  simp only [assign, if_pos, Array.getElem?_setIfInBounds] at words
  rw [if_neg (by omega), if_pos inside] at words
  exact bump_ne up _ (getD_of_getElem? words).symm

theorem orders_agree_iff (first : (operand a).run m = some (v, m₁)) (branching : i.branch = some br)
    (aligned : Aligned m₁.globals b) (held : contents? m₁ v = some old)
    (deep : (b.onStack.toNat + if v = 0 then 1 else 0 : Nat) ≤ m₁.sp)
    (high : m₁.sp ≤ m₁.stack.size) :
    ∃ flow m' flow₀ m₀, (countThenRead up i a b).run m = some (flow, m') ∧
      (readThenCount up i a b).run m = some (flow₀, m₀) ∧
      (flow₀ = flow ∧ m₀ = m' ↔ ¬ Names m₁ v b ∨ b.onStack = false ∧ old = turn up) := by
  by_cases named : Names m₁ v b
  · cases on : b.onStack with
    | false =>
      obtain ⟨counted, read⟩ := orders_of_names (i := i) up first held named on
      obtain ⟨flow, m', ran, -⟩ := exists_branch i false (assign m₁ v (bump up old))
      obtain ⟨flow₀, m₀, again, -⟩ :=
        exists_branch i (decide (old ≠ turn up)) (assign m₁ v (bump up old))
      refine ⟨flow, m', flow₀, m₀, counted.trans ran, read.trans again, ?_⟩
      simp only [named, not_true, false_or, true_and]
      constructor
      · rintro ⟨rfl, rfl⟩
        simpa using holds_of_branch branching again ran
      · intro round
        rw [decide_eq_false (not_not.mpr round), ran] at again
        cases again
        exact ⟨rfl, rfl⟩
    | true =>
      obtain rfl : v = 0 := (names_of_onStack on).mp named
      rw [on, if_pos rfl] at deep
      obtain ⟨holds, holds', top, under, apart, counted, read⟩ :=
        orders_of_top (i := i) up first deep high on
      obtain ⟨flow, m', ran, stack⟩ := exists_branch i holds { m₁ with stack := top, sp := m₁.sp - 1 }
      obtain ⟨flow₀, m₀, again, stack₀⟩ :=
        exists_branch i holds' { m₁ with stack := under, sp := m₁.sp - 1 }
      refine ⟨flow, m', flow₀, m₀, counted.trans ran, read.trans again, ?_⟩
      simp only [named, not_true, false_or, reduceCtorEq, false_and, iff_false]
      rintro ⟨-, rfl⟩
      exact apart (stack.symm.trans stack₀)
  · obtain ⟨limit, second⟩ := exists_operand (m := m₁) b (by omega) high
    have counted := run_countThenRead (i := i) up first held
      (operand_assign named aligned second)
    obtain ⟨flow, m', ran, -⟩ := exists_branch i (passes up (bump up old) limit) (assign
      { m₁ with sp := m₁.sp - b.onStack.toNat } v (bump up old))
    have same := orders_of_other (i := i) up first held second aligned named
    exact ⟨flow, m', flow, m', counted.trans ran, (same.trans counted).trans ran, by simp [named]⟩

end Orders

end

end ZCode.Rules

namespace ZCode.Statement

open ZCode.Script

section

variable {m m₁ : Machine} {t : Value} {v w old : UInt16}

theorem home_top (m : Machine) : home m (.ofWord 0) = .element .stack (.ofInt (m.sp - 1)) := by
  have zero : (Value.ofWord 0).same (.ofInt 0) = true := Number.same_ofInt 0 0
  rw [home, if_pos zero]

theorem home_named (named : v ≠ 0) : home m (.ofWord v) =
    if v < 16 then .element .locals (.ofInt (v.toNat - 1 : Nat))
    else .memory (.ofInt (Rules.address m v)) := by
  have bound := v.toNat_lt
  have base := m.globals.toNat_lt
  have positive : v.toNat ≠ 0 := fun zero => named (UInt16.toNat_inj.mp zero)
  have other : (Value.ofWord v).same (.ofInt 0) = false := by
    rw [Value.ofWord]
    exact (Number.same_ofInt v.toNat 0).trans (decide_eq_false (by omega))
  have below : (Value.ofWord v).toNumber.less (.ofInt 16) = decide (v < 16) := by
    refine (Number.less_ofInt v.toNat 16).trans ?_
    rw [decide_eq_decide, UInt16.lt_iff_toNat_lt]
    exact Int.ofNat_lt
  simp only [home, other, below, Bool.false_eq_true, if_false, decide_eq_true_eq]
  split
  next slot =>
    rw [Value.ofWord, applyBinary_sub (by omega), Int.ofNat_sub (by omega)]
    rfl
  next global =>
    have above : 16 ≤ v.toNat := UInt16.le_iff_toNat_le.mp (UInt16.not_lt.mp global)
    rw [Value.ofWord, Value.ofWord, applyBinary_sub (by omega), applyBinary_mul (by omega),
      applyBinary_add (by omega), Rules.address]
    congr 2
    omega

theorem gives_readVariable (held : Rules.contents? m v = some old) :
    Gives (readVariable (.ofWord v)) (frame m t) (.ofWord old) (frame m t) := by
  refine Gives.bind gives_getMachine ?_
  rw [Rules.contents?] at held
  split at held
  next top =>
    obtain ⟨low, found⟩ := Option.ite_none_right_eq_some.mp held
    obtain ⟨inside, -⟩ := Array.getElem?_eq_some_iff.mp found
    have word := gives_stack (m := m) (t := t) (m.sp - 1)
    rw [wordIn_inside (by omega) (by omega), Rules.getD_of_getElem? found] at word
    rw [top, home_top]
    exact word
  next named =>
    rw [home_named named]
    split at held
    next slot =>
      obtain ⟨inside, -⟩ := Array.getElem?_eq_some_iff.mp held
      have word := gives_local (m := m) (t := t) (v.toNat - 1 : Nat)
      rw [wordIn_inside (by omega) (by omega), Int.toNat_natCast, Rules.getD_of_getElem? held] at word
      rw [if_pos slot]
      exact word
    next global =>
      obtain ⟨inside, same⟩ := Option.ite_none_right_eq_some.mp held
      obtain rfl := Option.some.inj same
      rw [if_neg global]
      have word := gives_readWord (m := m) (t := t) (a := Rules.address m v) (by omega) (by omega)
      rw [Int.toNat_natCast] at word
      exact word.bind (gives_pure _)

theorem gives_writeVariable (held : Rules.contents? m v = some old) :
    Gives (writeVariable (.ofWord v) (.ofWord w)) (frame m t) () (frame (Rules.assign m v w) t) := by
  refine Gives.bind gives_getMachine ?_
  rw [Rules.contents?] at held
  rw [Rules.assign]
  split at held
  next top =>
    obtain ⟨low, -⟩ := Option.ite_none_right_eq_some.mp held
    have written := setWordIn_nonneg m.stack (i := m.sp - 1) (by omega) (.ofWord w)
    rw [Value.word_ofWord] at written
    rw [if_pos top, top, home_top, ← written]
    simp only [setIndex, wholeKey?_ofInt]
    rfl
  next named =>
    rw [if_neg named, home_named named]
    split at held
    next slot =>
      have written := setWordIn_nonneg m.locals (Int.natCast_nonneg (v.toNat - 1)) (.ofWord w)
      rw [Value.word_ofWord, Int.toNat_natCast] at written
      rw [if_pos slot, if_pos slot, ← written]
      simp only [setIndex, wholeKey?_ofInt]
      rfl
    next global =>
      obtain ⟨inside, -⟩ := Option.ite_none_right_eq_some.mp held
      rw [if_neg global, if_neg global]
      have word : (Value.ofWord w).toNumber.toUInt16 = w := Value.word_ofWord w
      have written := gives_writeBytes (t := t) (Int.natCast_nonneg (Rules.address m v))
        (Int.ofNat_le.mpr (show Rules.address m v + (Image.wordBytes w).length ≤ _ from inside))
      rw [Int.toNat_natCast] at written
      simp only [writeWord, word, ← wordBytes_eq]
      exact written

theorem counted (up : Bool) (old : UInt16) :
    applyBinary .bitAnd (applyBinary .add (.ofWord old) (.ofInt (if up then 1 else -1)))
      (.ofInt 0xFFFF) = .ofWord (Rules.bump up old) := by
  have bound := old.toNat_lt
  rw [Value.ofWord, applyBinary_add (by split <;> omega)]
  have masked := Word.and_mask (old.toNat + if up then 1 else -1)
  simp only [applyBinary, onInt32, Value.toNumber, Value.ofInt, Number.toInt32_ofInt] at masked ⊢
  rw [masked]
  congr 3
  cases up
  · simp only [Rules.bump, UInt16.ofInt, UInt16.toNat_ofNat', UInt16.toNat_sub, Bool.false_eq_true,
      if_false, UInt16.reduceToNat]
    omega
  · simp only [Rules.bump, UInt16.ofInt, UInt16.toNat_ofNat', UInt16.toNat_add, if_true,
      UInt16.reduceToNat]
    omega

theorem gives_count {up : Bool} (ran : (Rules.count up v).run m = some (w, m₁)) :
    Gives (applyMethod .incdec [.ofWord v, .ofInt (if up then 1 else -1)]) (frame m t) (.ofWord w)
      (frame m₁ t) := by
  obtain ⟨old, held, rfl, rfl⟩ := Rules.count_eq_some_iff.mp ran
  refine (gives_readVariable held).bind ?_
  simp only [argument, List.getD_cons_succ, List.getD_cons_zero, counted]
  exact (gives_writeVariable held).bind (gives_pure _)

def checking (up : Bool) : Op :=
  if up then .incChk else .decChk

def checkPhrase (up : Bool) (a b : Operand) : Phrase :=
  .binary (if up then .greater else .less)
    (signExtended (hostPhrase "incdec" [operandPhrase a, if up then .number 1 else minusOne]))
    (operandPhrase b)

variable {p : Profile} {n : Nat} {up : Bool} {i : Instruction} {a b : Operand}

theorem Shaped.signs (shaped : Shaped p n (checking up) i) (two : i.operands = [a, b]) :
    a.signed = false ∧ b.signed = true := by
  have first := shaped.signed 0 a (by simp [two])
  have second := shaped.signed 1 b (by simp [two])
  cases up <;> exact ⟨first, second⟩

theorem Shaped.clauses_checking (shaped : Shaped p n (checking up) i) (two : i.operands = [a, b]) :
    ∃ br, i.branch = some br ∧ clauses p i = some [branchClause i br (checkPhrase up a b)] := by
  have shape : shapeOf p.version (checking up) = { branches := true, signed := [false, true] } := by
    cases up <;> rfl
  have effected : effect p i [operandPhrase a, operandPhrase b] (checking up) =
      some (.value (checkPhrase up a b)) := by
    cases up <;> rfl
  obtain ⟨br, branching⟩ := Option.isSome_iff_exists.mp (shaped.branch.trans (by rw [shape]))
  have keeps : i.stores = false := by rw [shaped.stores, shape]
  have goes : i.pauses = false := by rw [shaped.pauses, shape]
  have stays : i.endsBlock = false := by rw [shaped.endsBlock, shape]
  refine ⟨br, branching, ?_⟩
  simp [clauses, shaped.known, two, effected, Effect.stored, keeps, Effect.branched, branching,
    stays, Effect.paused, goes, Effect.clauses]

theorem gives_check {m₂ m₃ : Machine} {limit : UInt16} (unsigned : a.signed = false)
    (signed : b.signed = true) (sized : Rules.Sized n m) (reachable : ∀ op ∈ [a, b], Reachable n op)
    (first : (Rules.operand a).run m = some (v, m₁))
    (counts : (Rules.count up v).run m₁ = some (w, m₂))
    (second : (Rules.operand b).run m₂ = some (limit, m₃)) :
    ∃ x, Gives (eval (checkPhrase up a b).expr) (frame m t) x (frame m₃ t) ∧
      x.truthy = Rules.passes up w limit := by
  obtain ⟨named, sized⟩ := gives_operand (t := t) sized (reachable a (by simp)) first
  rw [number_unsigned unsigned] at named
  have one : Gives (eval (if up then Phrase.number 1 else minusOne).expr) (frame m₁ t)
      (.ofInt (if up then 1 else -1)) (frame m₁ t) := by
    cases up
    · exact gives_integer (-1)
    · exact gives_number 1
  have called : Gives (eval (hostPhrase "incdec" [operandPhrase a,
      if up then .number 1 else minusOne]).expr) (frame m t) (.ofWord w) (frame m₂ t) :=
    (gives_runtime "incdec").call (named.cons (one.cons gives_nil)) (gives_count counts)
  obtain ⟨compared, -⟩ := gives_operand (t := t) (sized.count counts) (reachable b (by simp)) second
  rw [number_signed signed] at compared
  refine ⟨_, (gives_signExtended called).binary _ compared, ?_⟩
  cases up
  · simp [applyBinary_less, Value.truthy, Rules.passes, Int16.lt_iff_toInt_lt]
  · simp [applyBinary_greater, Value.truthy, Rules.passes, Int16.lt_iff_toInt_lt]

theorem runs_of_clauses {cs : List Clause} (written : clauses p i = some cs) {c : Completion}
    (unsigned : i.op? = some .sub → ∀ op ∈ i.operands, op.kind ≠ .signedConstant)
    (given : Gives (execAll (Clause.stmts cs)) (frame m (.ofInt 0)) c (frame m₁ t)) :
    Runs p i m c m₁ := by
  obtain ⟨f, made, read⟩ := Fragment.parse?_ofBlock (p := p) (b := ⟨i.addr, [i]⟩)
    (by simp [written]) (by simpa using unsigned)
  refine ⟨f, _, frame m₁ t, made, read, Block.gives_body_iff.mpr ?_, rfl⟩
  simpa [written] using given

theorem runs_countThenRead (shaped : Shaped p n (checking up) i) (two : i.operands = [a, b])
    (sized : Rules.Sized n m) {flow : Rules.Flow}
    (ran : (Rules.countThenRead up i a b).run m = some (flow, m₁)) :
    ∃ c, Runs p i m c m₁ ∧ Completes i c flow := by
  obtain ⟨unsigned, signed⟩ := shaped.signs two
  obtain ⟨br, branching, written⟩ := shaped.clauses_checking two
  simp only [Rules.countThenRead, Rules.bind_eq_some_iff] at ran
  obtain ⟨v, m₂, first, w, m₃, counts, limit, m₄, second, branched⟩ := ran
  obtain ⟨x, value, truth⟩ := gives_check (t := .ofInt 0) unsigned signed sized
    (two ▸ shaped.reachable) first counts second
  rw [← truth] at branched
  obtain ⟨c, given, completes⟩ := gives_branch branching value branched
  exact ⟨c, runs_of_clauses written shaped.unsigned given.andEmpty, completes⟩

theorem aligned_written (p : Profile) (signed : Bool) (w : Written) :
    Rules.Aligned p.globals (w.operand p signed) := by
  cases w with
  | large | small => cases signed <;> trivial
  | byNumber v =>
    simp only [Written.operand]
    split
    · cases signed <;> trivial
    split
    · cases signed <;> trivial
    · have even : (UInt16.ofNat (p.globals.toNat + 2 * (v.toNat - 16))).toNat % 2 =
          p.globals.toNat % 2 := by
        rw [UInt16.toNat_ofNat']
        omega
      cases signed <;> exact even

theorem aligned_of_decode {img : Image} {pos : UInt32}
    (decoded : Instruction.decode img p pos = .ok i) :
    ∀ op ∈ i.operands, Rules.Aligned p.globals op := by
  obtain ⟨l, -, -, rfl⟩ := (Instruction.decode_eq_ok_iff img p pos i).mp decoded
  intro op member
  simp only [Layout.instruction, List.mem_mapIdx] at member
  obtain ⟨k, _, rfl⟩ := member
  exact aligned_written p _ _

theorem exists_contents (inside : m.globals.toNat + Settings.globalsSize ≤ n)
    (sized : Rules.Sized n m) (small : v < 256) (filled : v = 0 → 0 < m.sp ∧ m.sp ≤ m.stack.size) :
    ∃ old, Rules.contents? m v = some old := by
  have room := sized.memory
  have number : v.toNat < 256 := UInt16.lt_iff_toNat_lt.mp small
  by_cases top : v = 0
  · subst top
    obtain ⟨low, high⟩ := filled rfl
    exact ⟨_, Rules.contents?_top low high⟩
  rw [Rules.contents?, if_neg top]
  split
  next slot =>
    have bound : v.toNat < 16 := UInt16.lt_iff_toNat_lt.mp slot
    exact ⟨_, Array.getElem?_eq_getElem (by have := sized.locals; omega)⟩
  next global =>
    have above : 16 ≤ v.toNat := UInt16.le_iff_toNat_le.mp (UInt16.not_lt.mp global)
    rw [Settings.globalsSize] at inside
    exact ⟨_, if_pos (by rw [Rules.address]; omega)⟩

end

/-- The script of an instruction that counts a variable and compares it counts before it reads the
second operand. That comes to what reading both operands first does exactly where the second
operand is not the variable, or is one off the stack that is counted from the last signed word to
the first or back. -/
theorem counts_before_reading {s : Settings} (valid : s.validate = .ok ()) {img : Image}
    {pos : UInt32} {i : Instruction}
    (decoded : Instruction.decode img ⟨s.version, s.globals⟩ pos = .ok i) {up : Bool}
    (known : i.op? = some (checking up)) {a b : Operand} (two : i.operands = [a, b])
    {m m₁ : Machine} (sized : Rules.Sized s.imageLength.toNat m) (table : m.globals = s.globals)
    {v : UInt16} (first : (Rules.operand a).run m = some (v, m₁)) (small : v < 256)
    (deep : (i.operands.countP Operand.onStack + if v = 0 then 1 else 0 : Nat) ≤ m.sp)
    (high : m.sp ≤ m.stack.size) :
    ∃ flow m' c, (Rules.countThenRead up i a b).run m = some (flow, m') ∧
      Runs ⟨s.version, s.globals⟩ i m c m' ∧ Completes i c flow ∧
      ∃ flow₀ m₀, (Rules.readThenCount up i a b).run m = some (flow₀, m₀) ∧
        (flow₀ = flow ∧ m₀ = m' ↔ ¬ Rules.Names m₁ v b ∨
          b.onStack = false ∧ Rules.contents? m₁ v = some (Rules.turn up)) := by
  have inside := Fragment.globals_of_validate valid
  have shaped := shaped_of_decode (p := ⟨s.version, s.globals⟩) inside decoded known
  obtain ⟨br, branching, -⟩ := shaped.clauses_checking two
  have left := Rules.machine_of_operand first
  have sized₁ := (gives_operand (t := .ofInt 0) sized (shaped.reachable a (by simp [two])) first).2
  have aligned : Rules.Aligned m₁.globals b := by
    rw [left, table]
    exact aligned_of_decode decoded b (by simp [two])
  have room : (b.onStack.toNat + if v = 0 then 1 else 0 : Nat) ≤ m₁.sp := by
    have count : [a, b].countP Operand.onStack = a.onStack.toNat + b.onStack.toNat := by
      cases on : a.onStack <;> cases on' : b.onStack <;> simp [on, on']
    rw [two, count] at deep
    simp only [left]
    omega
  have top : m₁.sp ≤ m₁.stack.size := by
    rw [left]
    exact Int.le_trans (Int.sub_le_self _ (Int.natCast_nonneg _)) high
  obtain ⟨old, held⟩ := exists_contents (by rw [left, table]; exact inside) sized₁ small
    (fun zero => ⟨by rw [if_pos zero] at room; omega, top⟩)
  obtain ⟨flow, m', flow₀, m₀, counted, read, agree⟩ :=
    Rules.orders_agree_iff (i := i) up first branching aligned held room top
  obtain ⟨c, runs, completes⟩ := runs_countThenRead shaped two sized counted
  refine ⟨flow, m', c, counted, runs, completes, flow₀, m₀, read, ?_⟩
  rw [held, Option.some.injEq]
  exact agree

-- The first operand is taken from the stack and names the first global, which is counted to one and
-- compared with a local.
theorem counts_before_reading_global :
    let a : Operand := ⟨.stack, 0⟩
    let b : Operand := ⟨.signedSlot, 0⟩
    let i : Instruction :=
      { addr := 0, opcode := 5, operands := [a, b], branch := some ⟨true, 1⟩,
        branches := true, next := 4 }
    let m : Machine :=
      { memory := .zeroed 512
        globals := 16
        stack := (Array.replicate 1024 0).setIfInBounds 0 16
        sp := 1 }
    Instruction.decode ⟨#[0x65, 0, 1, 0xC1], by decide⟩ ⟨5, 16⟩ 0 = .ok i ∧
      ∃ m', (Rules.readThenCount true i a b).run m = some (.leave (some 1), m') ∧
        Runs ⟨5, 16⟩ i m (.returned (.ofWord 1)) m' := by
  intro a b i m
  let s : Settings := { imageLength := 512, version := 5, globals := 16 }
  have valid : s.validate = .ok () := by decide
  have decoded : Instruction.decode ⟨#[0x65, 0, 1, 0xC1], by decide⟩ ⟨5, 16⟩ 0 = .ok i := by
    decide +kernel
  have known : i.op? = some (checking true) := by decide
  have sized : Rules.Sized 512 m := by
    constructor <;> simp [m, Image.zeroed, Image.length]
  have first : (Rules.operand a).run m = some (16, { m with sp := 0 }) := by
    rw [Rules.operand_top (by decide) (by simp [m]) rfl]
    simp [m]
  obtain ⟨flow, m', c, -, runs, completes, flow₀, m₀, read, agree⟩ :=
    counts_before_reading valid decoded known rfl sized rfl first (by decide) (by decide)
      (by simp [m])
  obtain ⟨rfl, rfl⟩ := agree.mpr (.inl (by simp [Rules.Names, b]))
  have answer : ((Rules.readThenCount true i a b).run m).map Prod.fst = some (.leave (some 1)) := by
    decide +kernel
  obtain rfl : flow₀ = .leave (some 1) := by simpa [read] using answer
  obtain rfl : c = .returned (.ofWord 1) := completes
  exact ⟨decoded, m₀, read, runs⟩

-- A local counted from 3 to 4 is compared with itself, so the branch is not taken.
theorem variable_compared_with_itself :
    let a : Operand := ⟨.constant, 1⟩
    let b : Operand := ⟨.signedSlot, 0⟩
    let i : Instruction :=
      { addr := 0, opcode := 5, operands := [a, b], branch := some ⟨true, 1⟩,
        branches := true, next := 4 }
    let m : Machine :=
      { memory := .zeroed 512
        globals := 16
        locals := (Array.replicate 15 0).setIfInBounds 0 3 }
    Instruction.decode ⟨#[0x25, 1, 1, 0xC1], by decide⟩ ⟨5, 16⟩ 0 = .ok i ∧
      (∃ m', (Rules.readThenCount true i a b).run m = some (.leave (some 1), m')) ∧
      ∃ m', Runs ⟨5, 16⟩ i m .normal m' := by
  intro a b i m
  have answer : ((Rules.readThenCount true i a b).run m).map Prod.fst = some (.leave (some 1)) := by
    decide +kernel
  obtain ⟨⟨flow, m'⟩, read, rfl⟩ := Option.map_eq_some_iff.mp answer
  have goes : (outcome? ⟨5, 16⟩ i m).map (fun r => goesOn r.1) = some true := by decide +kernel
  exact ⟨by decide +kernel, ⟨m', read⟩, exists_runs_of_goesOn goes⟩

end ZCode.Statement
