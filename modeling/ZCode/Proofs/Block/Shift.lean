import ZCode.Proofs.Block.Line

set_option autoImplicit false

namespace ZCode.Script

open ZCode.Statement (Bound)

namespace Expr

def pointer : Expr :=
  member (name "e") "sp"

mutual

-- The stack pointer is changed by steps only, and the runtime object keeps its name.
def Steady : Expr → Prop
  | number _ | null | name _ => True
  | array items => SteadyAll items
  | member object _ => object.Steady
  | index object key => object.Steady ∧ key.Steady
  | call callee arguments => callee.Steady ∧ SteadyAll arguments
  | increment target | decrement target => target = pointer
  | unary _ e => e.Steady
  | binary _ a b | sequence a b => a.Steady ∧ b.Steady
  | assign target value => .name "e" ∉ target.targets ∧ .field "sp" ∉ target.targets ∧
      target.Steady ∧ value.Steady

def SteadyAll : List Expr → Prop
  | [] => True
  | e :: rest => e.Steady ∧ SteadyAll rest

end

mutual

def moves (up : Bool) : Expr → Nat
  | number _ | null | name _ => 0
  | array items => movesAll up items
  | member object _ => object.moves up
  | index object key => object.moves up + key.moves up
  | call callee arguments => callee.moves up + movesAll up arguments
  | increment _ => up.toNat
  | decrement _ => (!up).toNat
  | unary _ e => e.moves up
  | binary _ a b | sequence a b | assign a b => a.moves up + b.moves up

def movesAll (up : Bool) : List Expr → Nat
  | [] => 0
  | e :: rest => e.moves up + movesAll up rest

end

end Expr

-- Where the computation ends, the stack pointer has gone so many steps up and down. Far from zero
-- they would not be exact.
def Shifts {α : Type} (up down : Nat) (x : Run α) : Prop :=
  ∀ s a s', Bound s → s.machine.sp.natAbs + up + down ≤ 2 ^ 53 → Gives x s a s' →
    Bound s' ∧ s'.machine.sp = s.machine.sp + up - down

section Shifts

variable {α β : Type} {u d u' d' : Nat}

theorem shifts_of_keeps {x : Run α} (pointer : Keeps (.field "sp") x) (name : Keeps (.name "e") x) :
    Shifts 0 0 x := by
  intro s a s' bound _ ran
  have kept : Value.ofInt s'.machine.sp = .ofInt s.machine.sp := Option.some.inj (pointer.gives ran)
  have same := congrArg Value.toInt kept
  rw [Value.toInt_ofInt, Value.toInt_ofInt] at same
  exact ⟨(name.gives ran).trans bound, by omega⟩

theorem shifts_pure (a : α) : Shifts 0 0 (pure a : Run α) :=
  shifts_of_keeps (keeps_pure a) (keeps_pure a)

theorem shifts_throw (e : Exception) : Shifts u d (throw e : Run α) := by
  intro s a s' _ _ ran
  exact absurd ran not_gives_throw

theorem Shifts.bindGiven {x : Run α} {f : α → Run β} (first : Shifts u d x)
    (rest : ∀ s a s', Gives x s a s' → Shifts u' d' (f a)) : Shifts (u + u') (d + d') (x >>= f) := by
  intro s b s₂ bound near ran
  obtain ⟨a, s₁, head, tail⟩ := gives_bind_iff.mp ran
  obtain ⟨held, at_⟩ := first s a s₁ bound (by omega) head
  obtain ⟨last, there⟩ := rest s a s₁ head s₁ b s₂ held (by omega) tail
  exact ⟨last, by omega⟩

theorem Shifts.bind {x : Run α} {f : α → Run β} (first : Shifts u d x)
    (rest : ∀ a, Shifts u' d' (f a)) : Shifts (u + u') (d + d') (x >>= f) :=
  first.bindGiven fun _ a _ _ => rest a

theorem Shifts.last {x : Run α} {f : α → Run β} (first : Shifts u d x)
    (rest : ∀ a, Shifts 0 0 (f a)) : Shifts u d (x >>= f) :=
  first.bind rest

theorem gives_pointer {s : State} (bound : Bound s) :
    Gives (evalPlace Expr.pointer) s (.member (.object .runtime) "sp") s :=
  Gives.placeMember (gives_name bound)

theorem shifts_increment : Shifts 1 0 (eval (.increment .pointer)) := by
  intro s v s' bound near ran
  have stepped : Gives (eval (.increment .pointer)) s _ _ :=
    Gives.increment (gives_pointer bound) (v := .ofInt s.machine.sp) rfl rfl
  obtain ⟨-, rfl⟩ := ran.unique stepped
  refine ⟨bound, ?_⟩
  change (applyBinary .add (.ofInt s.machine.sp) (.ofInt 1)).toInt = _
  rw [applyBinary_add (by omega), Value.toInt_ofInt]
  omega

theorem shifts_decrement : Shifts 0 1 (eval (.decrement .pointer)) := by
  intro s v s' bound near ran
  have stepped : Gives (eval (.decrement .pointer)) s _ _ :=
    Gives.decrement (gives_pointer bound) (v := .ofInt s.machine.sp) rfl rfl
  obtain ⟨-, rfl⟩ := ran.unique stepped
  refine ⟨bound, ?_⟩
  change (applyBinary .sub (.ofInt s.machine.sp) (.ofInt 1)).toInt = _
  rw [applyBinary_sub (by omega), Value.toInt_ofInt]
  omega

theorem shifts_evalAll {es : List Expr} (steady : Expr.SteadyAll es)
    (each : ∀ e ∈ es, e.Steady → Shifts (e.moves true) (e.moves false) (eval e)) :
    Shifts (Expr.movesAll true es) (Expr.movesAll false es) (evalAll es) := by
  induction es with
  | nil => exact shifts_pure _
  | cons e rest ih =>
    exact (each e (by simp) steady.1).bind fun _ =>
      (ih steady.2 fun e' member => each e' (by simp [member])).last fun _ => shifts_pure _

-- As for what is kept, a place is evaluated by evaluating its parts.
theorem shifts_eval_place {e : Expr} (steady : e.Steady) :
    Shifts (e.moves true) (e.moves false) (eval e) ∧
      Shifts (e.moves true) (e.moves false) (evalPlace e) := by
  have getMember (v : Value) (f : String) : Shifts 0 0 (getMember v f) :=
    shifts_of_keeps (keeps_getMember v f) (keeps_getMember v f)
  have getIndex (v k : Value) : Shifts 0 0 (getIndex v k) :=
    shifts_of_keeps (keeps_getIndex v k) (keeps_getIndex v k)
  induction e with
  | number n => exact ⟨shifts_pure _, shifts_throw _⟩
  | null => exact ⟨shifts_pure _, shifts_throw _⟩
  | name x =>
    exact ⟨shifts_of_keeps (keeps_lookup x) (keeps_lookup x), shifts_pure _⟩
  | array items ih =>
    exact ⟨(shifts_evalAll steady fun e member steady => (ih e member steady).1).last
      fun _ => shifts_pure _, shifts_throw _⟩
  | member object f ih =>
    have object := (ih steady).1
    exact ⟨object.last fun v => getMember v f, object.last fun _ => shifts_pure _⟩
  | index object key objectIh keyIh =>
    have object := (objectIh steady.1).1
    have key := (keyIh steady.2).1
    exact ⟨object.bind fun v => key.last fun k => getIndex v k,
      object.bind fun _ => key.last fun _ => shifts_pure _⟩
  | call callee arguments calleeIh ih =>
    have inside := shifts_evalAll steady.2 fun e member steady => (ih e member steady).1
    exact ⟨(calleeIh steady.1).1.bind fun f => inside.last fun vs =>
      shifts_of_keeps (keeps_apply f vs) (keeps_apply f vs), shifts_throw _⟩
  | increment target _ =>
    obtain rfl : target = .pointer := steady
    exact ⟨shifts_increment, shifts_throw _⟩
  | decrement target _ =>
    obtain rfl : target = .pointer := steady
    exact ⟨shifts_decrement, shifts_throw _⟩
  | unary op e ih => exact ⟨(ih steady).1.last fun _ => shifts_pure _, shifts_throw _⟩
  | binary op a b left right =>
    exact ⟨(left steady.1).1.bind fun _ => (right steady.2).1.last fun _ => shifts_pure _,
      shifts_throw _⟩
  | assign target value targetIh valueIh =>
    obtain ⟨name, pointer, steadyTarget, steadyValue⟩ := steady
    refine ⟨(targetIh steadyTarget).2.bindGiven fun s p s' given => ?_, shifts_throw _⟩
    exact (valueIh steadyValue).1.last fun x =>
      (shifts_of_keeps (keeps_setPlace (fun written => pointer (target_of_place given written)) x)
        (keeps_setPlace (fun written => name (target_of_place given written)) x)).last
          fun _ => shifts_pure _
  | sequence a b left right =>
    exact ⟨(left steady.1).1.bind fun _ => (right steady.2).1, shifts_throw _⟩

theorem shifts_eval {e : Expr} (steady : e.Steady) :
    Shifts (e.moves true) (e.moves false) (eval e) :=
  (shifts_eval_place steady).1

theorem shifts_expr {e : Expr} (steady : e.Steady) :
    Shifts (e.moves true) (e.moves false) (exec (.expr e)) :=
  (shifts_eval steady).last fun _ => shifts_pure _

theorem shifts_ret {e : Expr} (steady : e.Steady) :
    Shifts (e.moves true) (e.moves false) (exec (.ret (some e))) :=
  (shifts_eval steady).last fun _ => shifts_pure _

theorem shifts_when {e : Expr} {st : Stmt} (steady : e.Steady) (body : Shifts 0 0 (exec st)) :
    Shifts (e.moves true) (e.moves false) (exec (.when e st)) := by
  refine (shifts_eval steady).last fun v => ?_
  split
  · exact body
  · exact shifts_pure _

theorem Shifts.cons {st : Stmt} {rest : List Stmt} (first : Shifts u d (exec st))
    (later : Shifts u' d' (execAll rest))
    (goes : ∀ s c s', Gives (exec st) s c s' → c = .normal) :
    Shifts (u + u') (d + d') (execAll (st :: rest)) := by
  refine first.bindGiven fun s c s' given => ?_
  obtain rfl := goes s c s' given
  exact later

theorem shifts_singleton {st : Stmt} (only : Shifts u d (exec st)) :
    Shifts u d (execAll [st]) := by
  intro s c s' bound near ran
  exact only s c s' bound near (gives_singleton_iff.mp ran)

end Shifts

namespace Phrase

def Steady (e : Phrase) : Prop :=
  e.expr.Steady

def moves (up : Bool) (e : Phrase) : Nat :=
  e.expr.moves up

variable {a b e : Phrase} {up : Bool}

theorem steadyAll_exprs {es : List Phrase} :
    Expr.SteadyAll (exprs es) ↔ ∀ e ∈ es, e.Steady := by
  induction es with
  | nil => simp [exprs, Expr.SteadyAll]
  | cons e rest ih => simp [exprs, Expr.SteadyAll, ih, Steady]

theorem movesAll_exprs (up : Bool) (es : List Phrase) :
    Expr.movesAll up (exprs es) = (es.map (moves up)).sum := by
  induction es with
  | nil => rfl
  | cons e rest ih => simp [exprs, Expr.movesAll, ih, moves]

@[simp] theorem steady_number (n : Nat) : (number n).Steady := trivial

@[simp] theorem steady_null : null.Steady := trivial

@[simp] theorem steady_name (x : String) : (name x).Steady := trivial

@[simp] theorem steady_paren : (paren e).Steady ↔ e.Steady := Iff.rfl

@[simp] theorem steady_array {items : List Phrase} :
    (array items).Steady ↔ ∀ e ∈ items, e.Steady :=
  steadyAll_exprs

@[simp] theorem steady_member {f : String} : (member e f).Steady ↔ e.Steady := Iff.rfl

@[simp] theorem steady_index : (index a b).Steady ↔ a.Steady ∧ b.Steady := Iff.rfl

@[simp] theorem steady_call {arguments : List Phrase} :
    (call e arguments).Steady ↔ e.Steady ∧ ∀ a ∈ arguments, a.Steady := by
  rw [← steadyAll_exprs]
  exact Iff.rfl

@[simp] theorem steady_increment : (increment e).Steady ↔ e.expr = .pointer := Iff.rfl

@[simp] theorem steady_decrement : (decrement e).Steady ↔ e.expr = .pointer := Iff.rfl

@[simp] theorem steady_unary {op : UnaryOp} : (unary op e).Steady ↔ e.Steady := Iff.rfl

@[simp] theorem steady_binary {op : BinaryOp} :
    (binary op a b).Steady ↔ a.Steady ∧ b.Steady := Iff.rfl

@[simp] theorem steady_assign : (assign a b).Steady ↔ .name "e" ∉ a.expr.targets ∧
    .field "sp" ∉ a.expr.targets ∧ a.Steady ∧ b.Steady := Iff.rfl

@[simp] theorem steady_sequence : (sequence a b).Steady ↔ a.Steady ∧ b.Steady := Iff.rfl

@[simp] theorem moves_number (n : Nat) : (number n).moves up = 0 := rfl

@[simp] theorem moves_null : null.moves up = 0 := rfl

@[simp] theorem moves_name (x : String) : (name x).moves up = 0 := rfl

@[simp] theorem moves_paren : (paren e).moves up = e.moves up := rfl

@[simp] theorem moves_array (items : List Phrase) :
    (array items).moves up = (items.map (moves up)).sum :=
  movesAll_exprs up items

@[simp] theorem moves_member (f : String) : (member e f).moves up = e.moves up := rfl

@[simp] theorem moves_index : (index a b).moves up = a.moves up + b.moves up := rfl

@[simp] theorem moves_call (arguments : List Phrase) :
    (call e arguments).moves up = e.moves up + (arguments.map (moves up)).sum := by
  rw [← movesAll_exprs]
  rfl

@[simp] theorem moves_increment : (increment e).moves up = up.toNat := rfl

@[simp] theorem moves_decrement : (decrement e).moves up = (!up).toNat := rfl

@[simp] theorem moves_unary (op : UnaryOp) : (unary op e).moves up = e.moves up := rfl

@[simp] theorem moves_binary (op : BinaryOp) :
    (binary op a b).moves up = a.moves up + b.moves up := rfl

@[simp] theorem moves_assign : (assign a b).moves up = a.moves up + b.moves up := rfl

@[simp] theorem moves_sequence : (sequence a b).moves up = a.moves up + b.moves up := rfl

end Phrase

end ZCode.Script
