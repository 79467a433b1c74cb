import ZCode.Proofs.Script.Arithmetic

set_option autoImplicit false

namespace ZCode.Script

-- The computation ends without an exception, with this value in this state.
def Gives {α : Type} (x : Run α) (s : State) (a : α) (s' : State) : Prop :=
  x.run.run s = (.ok a, s')

section Rules

variable {α β : Type} {s s₁ s₂ s₃ : State}

theorem gives_pure (a : α) : Gives (pure a) s a s := rfl

theorem gives_pure_iff {a b : α} : Gives (pure a) s b s₁ ↔ a = b ∧ s = s₁ := by
  constructor
  · rintro ⟨⟩
    exact ⟨rfl, rfl⟩
  · rintro ⟨rfl, rfl⟩
    rfl

theorem Gives.bind {x : Run α} {f : α → Run β} {a : α} {b : β} (first : Gives x s a s₁)
    (rest : Gives (f a) s₁ b s₂) : Gives (x >>= f) s b s₂ := by
  simp only [Gives] at first rest ⊢
  rw [ExceptT.run_bind, StateT.run_bind, first]
  exact rest

theorem gives_bind_iff {x : Run α} {f : α → Run β} {b : β} :
    Gives (x >>= f) s b s₂ ↔ ∃ a s₁, Gives x s a s₁ ∧ Gives (f a) s₁ b s₂ := by
  constructor
  · intro given
    simp only [Gives] at given ⊢
    rw [ExceptT.run_bind, StateT.run_bind] at given
    cases result : x.run.run s with
    | mk answer s₁ =>
      rw [result] at given
      cases answer with
      | error e => cases given
      | ok a => exact ⟨a, s₁, rfl, given⟩
  · rintro ⟨a, s₁, first, rest⟩
    exact first.bind rest

theorem gives_getMachine : Gives getMachine s s.machine s := rfl

theorem gives_modifyMachine (f : Machine → Machine) :
    Gives (modifyMachine f) s () { s with machine := f s.machine } := rfl

theorem gives_lookup {x : String} {v : Value} (found : s.scope.lookup x = some v) :
    Gives (lookup x) s v s := by
  refine Gives.bind (a := s) rfl ?_
  rw [found]
  rfl

variable {a b e : Expr} {v w x y : Value}

theorem gives_number (n : Nat) : Gives (eval (.number n)) s (.ofInt n) s := rfl

theorem gives_name {x : String} (found : s.scope.lookup x = some v) :
    Gives (eval (.name x)) s v s :=
  gives_lookup found

theorem Gives.member {field : String} (object : Gives (eval e) s v s₁)
    (read : Gives (getMember v field) s₁ w s₂) : Gives (eval (.member e field)) s w s₂ :=
  object.bind read

theorem Gives.index (object : Gives (eval a) s v s₁) (key : Gives (eval b) s₁ w s₂)
    (read : Gives (getIndex v w) s₂ x s₃) : Gives (eval (.index a b)) s x s₃ :=
  object.bind (key.bind read)

theorem Gives.call {arguments : List Expr} {vs : List Value} (callee : Gives (eval e) s v s₁)
    (inside : Gives (evalAll arguments) s₁ vs s₂) (applied : Gives (apply v vs) s₂ w s₃) :
    Gives (eval (.call e arguments)) s w s₃ :=
  callee.bind (inside.bind applied)

theorem Gives.unary (op : UnaryOp) (operand : Gives (eval e) s v s₁) :
    Gives (eval (.unary op e)) s (applyUnary op v) s₁ :=
  operand.bind (gives_pure _)

theorem Gives.binary (op : BinaryOp) (left : Gives (eval a) s v s₁) (right : Gives (eval b) s₁ w s₂) :
    Gives (eval (.binary op a b)) s (applyBinary op v w) s₂ :=
  left.bind (right.bind (gives_pure _))

theorem Gives.increment {p : Place} {s₄ : State} (place : Gives (evalPlace e) s p s₁)
    (read : Gives (getPlace p) s₁ v s₂)
    (written : Gives (setPlace p (applyBinary .add v (.ofInt 1))) s₂ () s₄) :
    Gives (eval (.increment e)) s (.number v.toNumber) s₄ :=
  place.bind (read.bind (written.bind (gives_pure _)))

theorem Gives.decrement {p : Place} {s₄ : State} (place : Gives (evalPlace e) s p s₁)
    (read : Gives (getPlace p) s₁ v s₂)
    (written : Gives (setPlace p (applyBinary .sub v (.ofInt 1))) s₂ () s₄) :
    Gives (eval (.decrement e)) s (applyBinary .sub v (.ofInt 1)) s₄ :=
  place.bind (read.bind (written.bind (gives_pure _)))

theorem Gives.assign {p : Place} (place : Gives (evalPlace a) s p s₁)
    (value : Gives (eval b) s₁ v s₂) (written : Gives (setPlace p v) s₂ () s₃) :
    Gives (eval (.assign a b)) s v s₃ :=
  place.bind (value.bind (written.bind (gives_pure _)))

theorem Gives.sequence (first : Gives (eval a) s v s₁) (second : Gives (eval b) s₁ w s₂) :
    Gives (eval (.sequence a b)) s w s₂ :=
  first.bind second

theorem Gives.placeMember {field : String} (object : Gives (eval e) s v s₁) :
    Gives (evalPlace (.member e field)) s (.member v field) s₁ :=
  object.bind (gives_pure _)

theorem Gives.placeIndex (object : Gives (eval a) s v s₁) (key : Gives (eval b) s₁ w s₂) :
    Gives (evalPlace (.index a b)) s (.element v w) s₂ :=
  object.bind (key.bind (gives_pure _))

theorem gives_nil : Gives (evalAll []) s [] s := rfl

theorem Gives.cons {rest : List Expr} {vs : List Value} (first : Gives (eval e) s v s₁)
    (later : Gives (evalAll rest) s₁ vs s₂) : Gives (evalAll (e :: rest)) s (v :: vs) s₂ :=
  first.bind (later.bind (gives_pure _))

theorem Gives.array {items : List Expr} {vs : List Value} (inside : Gives (evalAll items) s vs s₁) :
    Gives (eval (.array items)) s (.array vs) s₁ :=
  inside.bind (gives_pure _)

variable {st : Stmt} {rest : List Stmt} {c : Completion}

theorem Gives.expr (value : Gives (eval e) s v s₁) : Gives (exec (.expr e)) s .normal s₁ :=
  value.bind (gives_pure _)

theorem Gives.ret (value : Gives (eval e) s v s₁) :
    Gives (exec (.ret (some e))) s (.returned v) s₁ :=
  value.bind (gives_pure _)

theorem gives_ret_none : Gives (exec (.ret none)) s (.returned .undefined) s := rfl

theorem Gives.block {body : List Stmt} (inside : Gives (execAll body) s c s₁) :
    Gives (exec (.block body)) s c s₁ :=
  inside

theorem Gives.whenTaken (test : Gives (eval e) s v s₁) (holds : v.truthy = true)
    (body : Gives (exec st) s₁ c s₂) : Gives (exec (.when e st)) s c s₂ := by
  refine test.bind ?_
  rw [if_pos holds]
  exact body

theorem Gives.whenPassed (test : Gives (eval e) s v s₁) (fails : v.truthy = false) :
    Gives (exec (.when e st)) s .normal s₁ := by
  refine test.bind ?_
  rw [if_neg (by simp [fails])]
  exact gives_pure _

theorem gives_done : Gives (execAll []) s .normal s := rfl

theorem Gives.andThen (first : Gives (exec st) s .normal s₁) (later : Gives (execAll rest) s₁ c s₂) :
    Gives (execAll (st :: rest)) s c s₂ :=
  first.bind later

theorem Gives.andLeave (first : Gives (exec st) s (.returned v) s₁) :
    Gives (execAll (st :: rest)) s (.returned v) s₁ :=
  first.bind (gives_pure _)

theorem Gives.andEmpty (first : Gives (exec st) s c s₁) : Gives (execAll [st, .empty]) s c s₁ := by
  cases c with
  | normal => exact first.andThen (Gives.andThen rfl gives_done)
  | returned v => exact first.andLeave

theorem execAll_append (before rest : List Stmt) : execAll (before ++ rest) = (do
    match ← execAll before with
    | .normal => execAll rest
    | .returned v => return .returned v) := by
  induction before with
  | nil => simp [execAll]
  | cons st more ih =>
    simp only [List.cons_append, execAll, ih, bind_assoc]
    congr 1
    funext c
    cases c <;> simp

theorem Gives.append {before : List Stmt} (first : Gives (execAll before) s .normal s₁)
    (later : Gives (execAll rest) s₁ c s₂) : Gives (execAll (before ++ rest)) s c s₂ := by
  rw [execAll_append]
  exact first.bind later

theorem Gives.appendLeave {before : List Stmt} (first : Gives (execAll before) s (.returned v) s₁) :
    Gives (execAll (before ++ rest)) s (.returned v) s₁ := by
  rw [execAll_append]
  exact first.bind (gives_pure _)

theorem Gives.unique {α : Type} {x : Run α} {a b : α} (first : Gives x s a s₁)
    (second : Gives x s b s₂) : a = b ∧ s₁ = s₂ := by
  have same : (Except.ok a, s₁) = (Except.ok b, s₂) := first.symm.trans second
  cases same
  exact ⟨rfl, rfl⟩

theorem not_gives_throw {α : Type} {e : Exception} {a : α} : ¬ Gives (throw e) s a s₁ := by
  rintro ⟨⟩

theorem gives_assign_iff : Gives (eval (.assign a b)) s v s₃ ↔ ∃ p s₁ s₂,
    Gives (evalPlace a) s p s₁ ∧ Gives (eval b) s₁ v s₂ ∧ Gives (setPlace p v) s₂ () s₃ := by
  constructor
  · intro given
    obtain ⟨p, s₁, place, given⟩ := gives_bind_iff.mp given
    obtain ⟨w, s₂, value, given⟩ := gives_bind_iff.mp given
    obtain ⟨_, s₄, written, given⟩ := gives_bind_iff.mp given
    obtain ⟨rfl, rfl⟩ := gives_pure_iff.mp given
    exact ⟨p, s₁, s₂, place, value, written⟩
  · rintro ⟨p, s₁, s₂, place, value, written⟩
    exact place.assign value written

theorem gives_sequence_iff : Gives (eval (.sequence a b)) s w s₂ ↔ ∃ v s₁,
    Gives (eval a) s v s₁ ∧ Gives (eval b) s₁ w s₂ :=
  gives_bind_iff

theorem gives_unary_iff {op : UnaryOp} : Gives (eval (.unary op a)) s x s₁ ↔ ∃ v,
    Gives (eval a) s v s₁ ∧ x = applyUnary op v := by
  constructor
  · intro given
    obtain ⟨v, s₂, value, given⟩ := gives_bind_iff.mp given
    obtain ⟨rfl, rfl⟩ := gives_pure_iff.mp given
    exact ⟨v, value, rfl⟩
  · rintro ⟨v, value, rfl⟩
    exact value.unary op

theorem gives_binary_iff {op : BinaryOp} : Gives (eval (.binary op a b)) s x s₂ ↔ ∃ v w s₁,
    Gives (eval a) s v s₁ ∧ Gives (eval b) s₁ w s₂ ∧ x = applyBinary op v w := by
  constructor
  · intro given
    obtain ⟨v, s₁, left, given⟩ := gives_bind_iff.mp given
    obtain ⟨w, s₄, right, given⟩ := gives_bind_iff.mp given
    obtain ⟨rfl, rfl⟩ := gives_pure_iff.mp given
    exact ⟨v, w, s₁, left, right, rfl⟩
  · rintro ⟨v, w, s₁, left, right, rfl⟩
    exact left.binary op right

theorem gives_call_iff {arguments : List Expr} : Gives (eval (.call e arguments)) s w s₃ ↔
    ∃ v vs s₁ s₂, Gives (eval e) s v s₁ ∧ Gives (evalAll arguments) s₁ vs s₂ ∧
      Gives (apply v vs) s₂ w s₃ := by
  constructor
  · intro given
    obtain ⟨v, s₁, callee, given⟩ := gives_bind_iff.mp given
    obtain ⟨vs, s₂, inside, applied⟩ := gives_bind_iff.mp given
    exact ⟨v, vs, s₁, s₂, callee, inside, applied⟩
  · rintro ⟨v, vs, s₁, s₂, callee, inside, applied⟩
    exact callee.call inside applied

theorem gives_evalAll_cons_iff {rest : List Expr} {vs : List Value} :
    Gives (evalAll (e :: rest)) s vs s₂ ↔ ∃ v ws s₁,
      Gives (eval e) s v s₁ ∧ Gives (evalAll rest) s₁ ws s₂ ∧ vs = v :: ws := by
  constructor
  · intro given
    obtain ⟨v, s₁, first, given⟩ := gives_bind_iff.mp given
    obtain ⟨ws, s₄, later, given⟩ := gives_bind_iff.mp given
    obtain ⟨rfl, rfl⟩ := gives_pure_iff.mp given
    exact ⟨v, ws, s₁, first, later, rfl⟩
  · rintro ⟨v, ws, s₁, first, later, rfl⟩
    exact first.cons later

theorem gives_expr_iff : Gives (exec (.expr e)) s c s₁ ↔
    c = .normal ∧ ∃ v, Gives (eval e) s v s₁ := by
  constructor
  · intro given
    obtain ⟨v, s₂, value, given⟩ := gives_bind_iff.mp given
    obtain ⟨rfl, rfl⟩ := gives_pure_iff.mp given
    exact ⟨rfl, v, value⟩
  · rintro ⟨rfl, v, value⟩
    exact value.expr

theorem gives_ret_iff : Gives (exec (.ret (some e))) s c s₁ ↔
    ∃ v, c = .returned v ∧ Gives (eval e) s v s₁ := by
  constructor
  · intro given
    obtain ⟨v, s₂, value, given⟩ := gives_bind_iff.mp given
    obtain ⟨rfl, rfl⟩ := gives_pure_iff.mp given
    exact ⟨v, rfl, value⟩
  · rintro ⟨v, rfl, value⟩
    exact value.ret

theorem gives_when_iff : Gives (exec (.when e st)) s c s₂ ↔ ∃ v s₁, Gives (eval e) s v s₁ ∧
    if v.truthy then Gives (exec st) s₁ c s₂ else c = .normal ∧ s₁ = s₂ := by
  constructor
  · intro given
    obtain ⟨v, s₁, value, given⟩ := gives_bind_iff.mp given
    refine ⟨v, s₁, value, ?_⟩
    split at given
    next holds => rwa [if_pos holds]
    next fails =>
      rw [if_neg fails]
      obtain ⟨rfl, rfl⟩ := gives_pure_iff.mp given
      exact ⟨rfl, rfl⟩
  · rintro ⟨v, s₁, value, given⟩
    split at given
    next holds => exact value.whenTaken holds given
    next fails =>
      obtain ⟨rfl, rfl⟩ := given
      exact value.whenPassed (Bool.eq_false_of_not_eq_true fails)

theorem gives_append_iff {before : List Stmt} : Gives (execAll (before ++ rest)) s c s₂ ↔
    (∃ s₁, Gives (execAll before) s .normal s₁ ∧ Gives (execAll rest) s₁ c s₂) ∨
      ∃ v, c = .returned v ∧ Gives (execAll before) s (.returned v) s₂ := by
  rw [execAll_append, gives_bind_iff]
  constructor
  · rintro ⟨c₁, s₁, first, later⟩
    cases c₁ with
    | normal => exact .inl ⟨s₁, first, later⟩
    | returned v =>
      obtain ⟨rfl, rfl⟩ := gives_pure_iff.mp later
      exact .inr ⟨v, rfl, first⟩
  · rintro (⟨s₁, first, later⟩ | ⟨v, rfl, first⟩)
    · exact ⟨_, s₁, first, later⟩
    · exact ⟨_, s₂, first, gives_pure _⟩

theorem gives_singleton_iff : Gives (execAll [st]) s c s₁ ↔ Gives (exec st) s c s₁ := by
  simp only [execAll, gives_bind_iff]
  constructor
  · rintro ⟨c₁, s₂, first, later⟩
    cases c₁ <;> obtain ⟨rfl, rfl⟩ := gives_pure_iff.mp later <;> exact first
  · intro first
    refine ⟨c, s₁, first, ?_⟩
    cases c <;> exact gives_pure _

theorem gives_cons_iff : Gives (execAll (st :: rest)) s c s₂ ↔
    (∃ s₁, Gives (exec st) s .normal s₁ ∧ Gives (execAll rest) s₁ c s₂) ∨
      ∃ v, c = .returned v ∧ Gives (exec st) s (.returned v) s₂ := by
  rw [← List.singleton_append, gives_append_iff]
  simp only [gives_singleton_iff]

end Rules

end ZCode.Script
