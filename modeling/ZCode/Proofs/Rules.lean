import ZCode.Block
import ZCode.Proofs.Instruction.Layout
import ZCode.Script.Machine

-- What instructions do by the rules of the machine, told without their scripts. Words have sixteen
-- bits and operands are read from left to right, those on the stack by taking them from it. Only
-- instructions that the host has no part in are covered.

set_option autoImplicit false

namespace ZCode.Rules

open ZCode.Script (Machine Value)

/-- Nothing comes of an action that would leave the stack, or memory by way of a table. -/
abbrev Action (α : Type) := StateT Machine Option α

def pop : Action UInt16 := fun m =>
  if 0 < m.sp ∧ m.sp ≤ m.stack.size then
    some (m.stack.getD (m.sp - 1).toNat 0, { m with sp := m.sp - 1 })
  else none

def push (w : UInt16) : Action Unit := fun m =>
  if 0 ≤ m.sp ∧ m.sp < m.stack.size then
    some ((), { m with stack := m.stack.setIfInBounds m.sp.toNat w, sp := m.sp + 1 })
  else none

def byteAt (m : Machine) (pos : Nat) : UInt8 :=
  m.memory.bytes.getD pos 0

def wordAt (m : Machine) (pos : Nat) : UInt16 :=
  Image.word (byteAt m pos) (byteAt m (pos + 1))

def write (pos : Nat) (bytes : List UInt8) : Action Unit :=
  modify fun m => { m with memory := m.memory.write pos bytes }

def item (address : Int) (size : Nat) : Action Nat := fun m =>
  if 0 ≤ address ∧ address + size ≤ m.memory.length then some (address.toNat, m) else none

def operand (op : Operand) : Action UInt16 :=
  match op.kind with
  | .constant | .signedConstant => pure op.value
  | .stack | .signedStack => pop
  | .slot | .signedSlot => do return (← get).locals.getD op.value.toNat 0
  | .global | .signedGlobal | .reserved _ => do return wordAt (← get) op.value.toNat

def store (p : Profile) (v : UInt8) (w : UInt16) : Action Unit :=
  if v = 0 then push w
  else if v < 16 then
    modify fun m => { m with locals := m.locals.setIfInBounds (v - 1).toNat w }
  else write (p.globalAddr v).toNat (Image.wordBytes w)

inductive Result where
  | word (w : UInt16)
  | test (holds : Bool)
  | nothing
  | leave (value : Option UInt16)

def operandCounts (version : UInt8) : Op → List Nat
  | .je => [1, 2, 3, 4]
  | .jl | .jg | .or | .and | .add | .sub | .mul | .div | .mod | .loadw | .loadb => [2]
  | .jz | .not | .push | .jump | .ret => [1]
  | .storew | .storeb => [3]
  | .nop | .rtrue | .rfalse | .retPopped => [0]
  | .notOrCall1n => if version < 5 then [1] else []
  | .popOrCatch => if version < 5 then [0] else []
  | _ => []

def HostFree (version : UInt8) (i : Instruction) : Prop :=
  ∃ op ∈ i.op?, i.operands.length ∈ operandCounts version op

instance (version : UInt8) (i : Instruction) : Decidable (HostFree version i) :=
  inferInstanceAs (Decidable (∃ op ∈ i.op?, i.operands.length ∈ operandCounts version op))

/-- Comparisons, quotients, indices and jumps take their operands as signed. Dividing by zero gives
zero. -/
def perform (i : Instruction) : Op → List UInt16 → Action Result
  | .je, a :: others => return .test (others.contains a)
  | .jl, [a, b] => return .test (a.toInt16 < b.toInt16)
  | .jg, [a, b] => return .test (b.toInt16 < a.toInt16)
  | .jz, [a] => return .test (a == 0)
  | .or, [a, b] => return .word (a ||| b)
  | .and, [a, b] => return .word (a &&& b)
  | .add, [a, b] => return .word (a + b)
  | .sub, [a, b] => return .word (a - b)
  | .mul, [a, b] => return .word (a * b)
  | .div, [a, b] => return .word (.ofInt (a.toInt16.toInt.tdiv b.toInt16.toInt))
  | .mod, [a, b] =>
    return .word (if b = 0 then 0 else .ofInt (a.toInt16.toInt.tmod b.toInt16.toInt))
  | .not, [a] | .notOrCall1n, [a] => return .word (~~~ a)
  | .loadw, [table, index] => do
    let pos ← item (table.toNat + 2 * index.toInt16.toInt) 2
    return .word (wordAt (← get) pos)
  | .loadb, [table, index] => do
    let pos ← item (table.toNat + index.toInt16.toInt) 1
    return .word (byteAt (← get) pos).toUInt16
  | .storew, [table, index, w] => do
    let pos ← item (table.toNat + 2 * index.toInt16.toInt) 2
    write pos (Image.wordBytes w)
    return .nothing
  | .storeb, [table, index, w] => do
    let pos ← item (table.toNat + index.toInt16.toInt) 1
    write pos [w.toUInt8]
    return .nothing
  | .push, [a] => do
    push a
    return .nothing
  | .popOrCatch, [] => do
    let _ ← pop
    return .nothing
  | .nop, [] => return .nothing
  | .jump, [offset] => do
    modify fun m => { m with pc := .ofInt (i.next.toNat + offset.toInt16.toInt - 2) }
    return .leave none
  | .ret, [a] => return .leave (some a)
  | .rtrue, [] => return .leave (some 1)
  | .rfalse, [] => return .leave (some 0)
  | .retPopped, [] => return .leave (some (← pop))
  | _, _ => failure

/-- Where execution goes on: at the next instruction, or outside the block, with the value of the
routine if it returns. -/
inductive Flow where
  | next
  | leave (value : Option UInt16)

-- A taken branch. Offsets 0 and 1 return false and true.
def depart (i : Instruction) (b : Branch) : Action Flow :=
  if b.offset = 0 then return .leave (some 0)
  else if b.offset = 1 then return .leave (some 1)
  else do
    modify fun m => { m with pc := .ofInt (i.jumpTarget b.offset.toInt).toNat }
    return .leave none

def branch (i : Instruction) (holds : Bool) : Action Flow :=
  match i.branch with
  | none => return .next
  | some b => if b.ifTrue != holds then return .next else depart i b

def conclude (p : Profile) (i : Instruction) : Result → Action Flow
  | .word w => do
    if let some v := i.result then store p v w
    return .next
  | .test holds => branch i holds
  | .nothing => return .next
  | .leave value => return .leave value

def step (p : Profile) (i : Instruction) : Action Flow := do
  let some op := i.op? | failure
  let words ← i.operands.mapM operand
  let result ← perform i op words
  conclude p i result

def run (p : Profile) : List Instruction → Action (Option UInt16)
  | [] => return none
  | i :: rest => do
    match ← step p i with
    | .next => run p rest
    | .leave value => return value

structure Sized (length : Nat) (m : Machine) : Prop where
  locals : m.locals.size = 15
  stack : m.stack.size = 1024
  memory : length ≤ m.memory.length

section

variable {α β : Type} {n : Nat} {m m' : Machine}

theorem bind_eq_some_iff {x : Action α} {f : α → Action β} {b : β} :
    (x >>= f).run m = some (b, m') ↔ ∃ a m₁, x.run m = some (a, m₁) ∧ (f a).run m₁ = some (b, m') := by
  simp [StateT.run_bind, Option.bind_eq_some_iff]

theorem pure_eq_some_iff {a b : α} :
    (pure a : Action α).run m = some (b, m') ↔ a = b ∧ m = m' := by
  simp [StateT.run_pure]

theorem pop_eq_some_iff {w : UInt16} : pop.run m = some (w, m') ↔
    (0 < m.sp ∧ m.sp ≤ m.stack.size) ∧ m.stack.getD (m.sp - 1).toNat 0 = w ∧
      { m with sp := m.sp - 1 } = m' := by
  simp only [StateT.run, pop, Option.ite_none_right_eq_some, Option.some.injEq, Prod.mk.injEq]

theorem push_eq_some_iff {w : UInt16} {u : Unit} : (push w).run m = some (u, m') ↔
    (0 ≤ m.sp ∧ m.sp < m.stack.size) ∧
      { m with stack := m.stack.setIfInBounds m.sp.toNat w, sp := m.sp + 1 } = m' := by
  simp only [StateT.run, push, Option.ite_none_right_eq_some, Option.some.injEq, Prod.mk.injEq,
    true_and]

theorem item_eq_some_iff {a : Int} {size pos : Nat} : (item a size).run m = some (pos, m') ↔
    (0 ≤ a ∧ a + size ≤ m.memory.length) ∧ a.toNat = pos ∧ m = m' := by
  simp only [StateT.run, item, Option.ite_none_right_eq_some, Option.some.injEq, Prod.mk.injEq]

theorem modify_eq_some_iff {f : Machine → Machine} {u : Unit} :
    (modify f : Action Unit).run m = some (u, m') ↔ f m = m' := by
  simp [StateT.run_modify]

theorem get_eq_some_iff {m₁ : Machine} :
    (get : Action Machine).run m = some (m₁, m') ↔ m = m₁ ∧ m = m' := by
  simp [StateT.run_get]

theorem Sized.depart (sized : Sized n m) {i : Instruction} {b : Branch} {flow : Flow}
    (ran : (depart i b).run m = some (flow, m')) : Sized n m' := by
  simp only [Rules.depart] at ran
  split at ran
  · obtain ⟨-, rfl⟩ := pure_eq_some_iff.mp ran
    exact sized
  split at ran
  · obtain ⟨-, rfl⟩ := pure_eq_some_iff.mp ran
    exact sized
  · simp only [bind_eq_some_iff, modify_eq_some_iff, pure_eq_some_iff] at ran
    obtain ⟨_, _, rfl, -, rfl⟩ := ran
    exact ⟨sized.locals, sized.stack, sized.memory⟩

theorem Sized.branch (sized : Sized n m) {i : Instruction} {holds : Bool} {flow : Flow}
    (ran : (branch i holds).run m = some (flow, m')) : Sized n m' := by
  simp only [Rules.branch] at ran
  split at ran
  · obtain ⟨-, rfl⟩ := pure_eq_some_iff.mp ran
    exact sized
  split at ran
  · obtain ⟨-, rfl⟩ := pure_eq_some_iff.mp ran
    exact sized
  · exact sized.depart ran

theorem step_eq_some_iff {p : Profile} {i : Instruction} {op : Op} (known : i.op? = some op)
    {flow : Flow} : (step p i).run m = some (flow, m') ↔
      ∃ ws m₁ r m₂, (i.operands.mapM operand).run m = some (ws, m₁) ∧
        (perform i op ws).run m₁ = some (r, m₂) ∧ (conclude p i r).run m₂ = some (flow, m') := by
  simp only [step, known, bind_eq_some_iff]
  constructor
  · rintro ⟨ws, m₁, read, r, m₂, performed, concluded⟩
    exact ⟨ws, m₁, r, m₂, read, performed, concluded⟩
  · rintro ⟨ws, m₁, r, m₂, read, performed, concluded⟩
    exact ⟨ws, m₁, read, r, m₂, performed, concluded⟩

end

end ZCode.Rules
