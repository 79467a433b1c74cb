import ZCode.Proofs.Script.Frame

set_option autoImplicit false

namespace ZCode.Script

def Throws {α : Type} (x : Run α) (s : State) (ex : Exception) : Prop :=
  (x.run.run s).1 = .error ex

section Rules

variable {α β : Type} {s : State} {ex : Exception}

theorem not_throws_pure {a : α} : ¬ Throws (pure a) s ex := by
  rintro ⟨⟩

theorem not_throws_throw {ex' : Exception} (other : ex' ≠ ex) : ¬ Throws (throw ex' : Run α) s ex := by
  rintro ⟨⟩
  exact other rfl

theorem throws_bind_iff {x : Run α} {f : α → Run β} : Throws (x >>= f) s ex ↔
    Throws x s ex ∨ ∃ a s₁, Gives x s a s₁ ∧ Throws (f a) s₁ ex := by
  simp only [Throws, Gives]
  rw [ExceptT.run_bind, StateT.run_bind]
  cases result : x.run.run s with
  | mk answer s₁ =>
    cases answer with
    | error ex' =>
      constructor
      · rintro ⟨⟩
        exact .inl rfl
      · rintro (⟨⟨⟩⟩ | ⟨a, s₂, ⟨⟩, -⟩)
        rfl
    | ok a =>
      constructor
      · exact fun thrown => .inr ⟨a, s₁, rfl, thrown⟩
      · rintro (⟨⟨⟩⟩ | ⟨_, _, ⟨⟩, thrown⟩)
        exact thrown

theorem throws_of_first {x : Run α} (f : α → Run β) (thrown : Throws x s ex) :
    Throws (x >>= f) s ex :=
  throws_bind_iff.mpr (.inl thrown)

theorem Gives.thenThrows {x : Run α} {f : α → Run β} {a : α} {s₁ : State} (given : Gives x s a s₁)
    (thrown : Throws (f a) s₁ ex) : Throws (x >>= f) s ex :=
  throws_bind_iff.mpr (.inr ⟨a, s₁, given, thrown⟩)

theorem throws_first_of_pure {x : Run α} {f : α → β}
    (thrown : Throws (x >>= fun a => pure (f a)) s ex) : Throws x s ex := by
  rcases throws_bind_iff.mp thrown with first | ⟨a, s₁, -, never⟩
  · exact first
  · exact absurd never not_throws_pure

theorem not_throws_lookup {x : String} : ¬ Throws (lookup x) s .rangeError := by
  intro thrown
  rcases throws_bind_iff.mp thrown with never | ⟨s₁, s₂, -, thrown⟩
  · cases never
  · split at thrown
    · exact not_throws_pure thrown
    · exact not_throws_throw (by decide) thrown

theorem not_throws_getMember {v : Value} {f : String} : ¬ Throws (getMember v f) s .rangeError := by
  simp only [getMember]
  split
  · exact fun thrown => by cases thrown
  · exact not_throws_pure
  · exact not_throws_pure
  · exact not_throws_throw (by decide)
  · exact not_throws_throw (by decide)
  · exact not_throws_pure

theorem not_throws_getIndex {v key : Value} : ¬ Throws (getIndex v key) s .rangeError := by
  simp only [getIndex]
  split
  · exact fun thrown => by cases thrown
  · exact fun thrown => by cases thrown
  · exact not_throws_throw (by decide)
  · exact not_throws_throw (by decide)
  · exact not_throws_pure

theorem not_throws_getPlace {p : Place} : ¬ Throws (getPlace p) s .rangeError := by
  cases p with
  | named x => exact not_throws_lookup
  | member v f => exact not_throws_getMember
  | element v key => exact not_throws_getIndex

theorem not_throws_setPlace {p : Place} {x : Value} : ¬ Throws (setPlace p x) s .rangeError := by
  cases p with
  | named name =>
    intro thrown
    rcases throws_bind_iff.mp thrown with never | ⟨_, _, -, never⟩
    · exact not_throws_lookup never
    · cases never
  | member v f =>
    simp only [setPlace, setMember]
    split
    case h_6 | h_7 => exact not_throws_throw (by decide)
    all_goals rintro ⟨⟩
  | element v key =>
    simp only [setPlace, setIndex]
    split
    case h_3 | h_4 => exact not_throws_throw (by decide)
    all_goals rintro ⟨⟩

theorem throws_place_of_update {x : Run Place} {new result : Value → Value}
    (thrown : Throws (do
      let p ← x
      let old ← getPlace p
      setPlace p (new old)
      return result old) s .rangeError) : Throws x s .rangeError := by
  rcases throws_bind_iff.mp thrown with located | ⟨p, s₁, -, thrown⟩
  · exact located
  rcases throws_bind_iff.mp thrown with never | ⟨_, _, -, thrown⟩
  · exact absurd never not_throws_getPlace
  · exact absurd (throws_first_of_pure thrown) not_throws_setPlace

end Rules

inductive PlacePart : Expr → State → Expr → State → Prop where
  | object {s : State} {object : Expr} {field : String} :
    PlacePart (.member object field) s object s
  | indexed {s : State} {object key : Expr} : PlacePart (.index object key) s object s
  | key {s s₁ : State} {object key : Expr} {v : Value} (before : Gives (eval object) s v s₁) :
    PlacePart (.index object key) s key s₁

inductive Part : Expr → State → Expr → State → Prop where
  | place {s s₁ : State} {e f : Expr} (part : PlacePart e s f s₁) : Part e s f s₁
  | item {s s₁ : State} {before rest : List Expr} {e : Expr} {vs : List Value}
    (passed : Gives (evalAll before) s vs s₁) : Part (.array (before ++ e :: rest)) s e s₁
  | callee {s : State} {callee : Expr} {arguments : List Expr} :
    Part (.call callee arguments) s callee s
  | argument {s s₁ s₂ : State} {callee e : Expr} {before rest : List Expr} {v : Value}
    {vs : List Value} (called : Gives (eval callee) s v s₁)
    (passed : Gives (evalAll before) s₁ vs s₂) : Part (.call callee (before ++ e :: rest)) s e s₂
  | increment {s s₁ : State} {target f : Expr} (part : PlacePart target s f s₁) :
    Part (.increment target) s f s₁
  | decrement {s s₁ : State} {target f : Expr} (part : PlacePart target s f s₁) :
    Part (.decrement target) s f s₁
  | unary {s : State} {op : UnaryOp} {e : Expr} : Part (.unary op e) s e s
  | left {s : State} {op : BinaryOp} {a b : Expr} : Part (.binary op a b) s a s
  | right {s s₁ : State} {op : BinaryOp} {a b : Expr} {v : Value} (before : Gives (eval a) s v s₁) :
    Part (.binary op a b) s b s₁
  | target {s s₁ : State} {target value f : Expr} (part : PlacePart target s f s₁) :
    Part (.assign target value) s f s₁
  | value {s s₁ : State} {target value : Expr} {p : Place}
    (before : Gives (evalPlace target) s p s₁) : Part (.assign target value) s value s₁
  | first {s : State} {a b : Expr} : Part (.sequence a b) s a s
  | second {s s₁ : State} {a b : Expr} {v : Value} (before : Gives (eval a) s v s₁) :
    Part (.sequence a b) s b s₁

inductive Expr.Reaches : Expr → State → Expr → State → Prop where
  | refl {s : State} {e : Expr} : Expr.Reaches e s e s
  | part {s s₁ s₂ : State} {e f g : Expr} (part : Part e s f s₁) (onward : Expr.Reaches f s₁ g s₂) :
    Expr.Reaches e s g s₂

inductive Rounds (test : Expr) (body : Stmt) : Nat → State → State → Prop where
  | zero {s : State} : Rounds test body 0 s s
  | succ {s s₁ s₂ s₃ : State} {n : Nat} {v : Value} (tested : Gives (eval test) s v s₁)
    (holds : v.truthy = true) (ran : Gives (exec body) s₁ .normal s₂)
    (onward : Rounds test body n s₂ s₃) : Rounds test body (n + 1) s s₃

inductive Stmt.Reaches : Stmt → State → Expr → State → Prop where
  | binding {s s₁ s₂ : State} {before rest : List (String × Expr)} {x : String} {e f : Expr}
    (passed : Gives (declareAll before) s () s₁) (inside : e.Reaches s₁ f s₂) :
    Stmt.Reaches (.declare (before ++ (x, e) :: rest)) s f s₂
  | expr {s s₁ : State} {e f : Expr} (inside : e.Reaches s f s₁) : Stmt.Reaches (.expr e) s f s₁
  | ret {s s₁ : State} {e f : Expr} (inside : e.Reaches s f s₁) :
    Stmt.Reaches (.ret (some e)) s f s₁
  | test {s s₁ : State} {test f : Expr} {body : Stmt} (inside : test.Reaches s f s₁) :
    Stmt.Reaches (.when test body) s f s₁
  | body {s s₁ s₂ : State} {test f : Expr} {body : Stmt} {v : Value}
    (tested : Gives (eval test) s v s₁) (holds : v.truthy = true)
    (inside : Stmt.Reaches body s₁ f s₂) : Stmt.Reaches (.when test body) s f s₂
  -- one more round is a test and the body behind it
  | round {s s₁ s₂ : State} {test f : Expr} {body : Stmt} {n : Nat}
    (rounds : Rounds test body n s s₁) (within : n < maxRounds)
    (inside : Stmt.Reaches (.when test body) s₁ f s₂) : Stmt.Reaches (.loop test body) s f s₂
  | block {s s₁ s₂ : State} {before rest : List Stmt} {st : Stmt} {f : Expr}
    (passed : Gives (execAll before) s .normal s₁) (inside : Stmt.Reaches st s₁ f s₂) :
    Stmt.Reaches (.block (before ++ st :: rest)) s f s₂

def Raises (ex : Exception) (c : Expr) (s : State) : Prop :=
  ∃ callee arguments v vs s₁ s₂, c = .call callee arguments ∧ Gives (eval callee) s v s₁ ∧
    Gives (evalAll arguments) s₁ vs s₂ ∧ Throws (apply v vs) s₂ ex

namespace Lasts

variable {I : State → Prop} {free : Target → Prop} (lasts : Lasts I free) {s s₁ : State}
  {e f : Expr}

include lasts

theorem placePart (part : PlacePart e s f s₁) (open_ : ∀ t ∈ e.writes, free t) (holds : I s) :
    I s₁ ∧ ∀ t ∈ f.writes, free t := by
  cases part with
  | object => exact ⟨holds, open_⟩
  | indexed =>
    rw [Expr.writes, List.forall_mem_append] at open_
    exact ⟨holds, open_.1⟩
  | key before =>
    rw [Expr.writes, List.forall_mem_append] at open_
    exact ⟨(lasts.eval open_.1).gives before holds, open_.2⟩

theorem item {before rest : List Expr} {vs : List Value} (passed : Gives (evalAll before) s vs s₁)
    (open_ : ∀ t ∈ Expr.writesAll (before ++ e :: rest), free t) (holds : I s) :
    I s₁ ∧ ∀ t ∈ e.writes, free t := by
  rw [Expr.writesAll_eq, List.flatMap_append, List.flatMap_cons, List.forall_mem_append,
    List.forall_mem_append] at open_
  have earlier := preserves_evalAll fun e member =>
    lasts.eval fun t at_ => open_.1 t (List.mem_flatMap.mpr ⟨e, member, at_⟩)
  exact ⟨earlier.gives passed holds, open_.2.1⟩

theorem part (part : Part e s f s₁) (open_ : ∀ t ∈ e.writes, free t) (holds : I s) :
    I s₁ ∧ ∀ t ∈ f.writes, free t := by
  cases part with
  | place part => exact lasts.placePart part open_ holds
  | item passed => exact lasts.item passed open_ holds
  | unary => exact ⟨holds, open_⟩
  | callee | left | first =>
    rw [Expr.writes, List.forall_mem_append] at open_
    exact ⟨holds, open_.1⟩
  | argument called passed =>
    rw [Expr.writes, List.forall_mem_append] at open_
    exact lasts.item passed open_.2 ((lasts.eval open_.1).gives called holds)
  | increment part | decrement part =>
    rw [Expr.writes, List.forall_mem_append] at open_
    exact lasts.placePart part open_.2 holds
  | right before | second before =>
    rw [Expr.writes, List.forall_mem_append] at open_
    exact ⟨(lasts.eval open_.1).gives before holds, open_.2⟩
  | target part =>
    rw [Expr.writes, List.forall_mem_append, List.forall_mem_append] at open_
    exact lasts.placePart part open_.1.2 holds
  | value before =>
    rw [Expr.writes, List.forall_mem_append, List.forall_mem_append] at open_
    exact ⟨(lasts.eval_place open_.1.2).2.gives before holds, open_.2⟩

theorem reached (reached : e.Reaches s f s₁) (open_ : ∀ t ∈ e.writes, free t) (holds : I s) :
    I s₁ := by
  induction reached with
  | refl => exact holds
  | part part _ ih =>
    obtain ⟨holds, open_⟩ := lasts.part part open_ holds
    exact ih open_ holds

theorem rounds {test : Expr} {body : Stmt} {n : Nat} (rounds : Rounds test body n s s₁)
    (tested : ∀ t ∈ test.writes, free t) (inside : ∀ t ∈ body.writes, free t) (holds : I s) :
    I s₁ := by
  induction rounds with
  | zero => exact holds
  | succ test _ ran _ ih =>
    exact ih ((lasts.exec _ inside).gives ran ((lasts.eval tested).gives test holds))

theorem reachedBy {st : Stmt} (reached : st.Reaches s f s₁) (open_ : ∀ t ∈ st.writes, free t)
    (holds : I s) : I s₁ := by
  induction reached with
  | binding passed inside =>
    rw [Stmt.writes, List.flatMap_append, List.flatMap_cons, List.forall_mem_append,
      List.forall_mem_append, List.forall_mem_cons] at open_
    exact lasts.reached inside open_.2.1.2 ((lasts.declareAll open_.1).gives passed holds)
  | expr inside | ret inside => exact lasts.reached inside open_ holds
  | test inside =>
    rw [Stmt.writes, List.forall_mem_append] at open_
    exact lasts.reached inside open_.1 holds
  | body tested _ _ ih =>
    rw [Stmt.writes, List.forall_mem_append] at open_
    exact ih open_.2 ((lasts.eval open_.1).gives tested holds)
  | round rounds _ _ ih =>
    have both := open_
    rw [Stmt.writes, List.forall_mem_append] at both
    exact ih open_ (lasts.rounds rounds both.1 both.2 holds)
  | block passed _ ih =>
    rw [Stmt.writes, Stmt.writesAll_eq, List.flatMap_append, List.flatMap_cons, ← Stmt.writesAll_eq,
      List.forall_mem_append, List.forall_mem_append] at open_
    exact ih open_.2.1 ((lasts.execAll _ open_.1).gives passed holds)

end Lasts

section Culprits

variable {s s₁ : State} {e f : Expr}

theorem exists_item_of_throws {es : List Expr} {ex : Exception} (thrown : Throws (evalAll es) s ex) :
    ∃ before e rest vs s₁, es = before ++ e :: rest ∧ Gives (evalAll before) s vs s₁ ∧
      Throws (eval e) s₁ ex := by
  induction es generalizing s with
  | nil => exact absurd thrown not_throws_pure
  | cons e rest ih =>
    rcases throws_bind_iff.mp thrown with first | ⟨v, s₁, given, later⟩
    · exact ⟨[], e, rest, [], s, rfl, gives_nil, first⟩
    · obtain ⟨before, f, after, vs, s₂, rfl, passed, thrown⟩ := ih (throws_first_of_pure later)
      exact ⟨e :: before, f, after, v :: vs, s₂, rfl, given.cons passed, thrown⟩

-- The evaluation comes to a call that leaves memory.
def Expr.HasCulprit (e : Expr) (s : State) : Prop :=
  ∃ c s₁, e.Reaches s c s₁ ∧ Raises .rangeError c s₁

theorem Part.hasCulprit (part : Part e s f s₁) (inside : f.HasCulprit s₁) : e.HasCulprit s := by
  obtain ⟨c, s₂, reached, raises⟩ := inside
  exact ⟨c, s₂, .part part reached, raises⟩

theorem culprit_of_throws : (Throws (eval e) s .rangeError → e.HasCulprit s) ∧
    (Throws (evalPlace e) s .rangeError → ∃ f s₁, PlacePart e s f s₁ ∧ f.HasCulprit s₁) := by
  -- both at once: a place is found by evaluating, and what replaces a value first finds its place
  induction e generalizing s with
  | number n => exact ⟨fun thrown => absurd thrown not_throws_pure,
      fun thrown => absurd thrown (not_throws_throw (by decide))⟩
  | null => exact ⟨fun thrown => absurd thrown not_throws_pure,
      fun thrown => absurd thrown (not_throws_throw (by decide))⟩
  | name x => exact ⟨fun thrown => absurd thrown not_throws_lookup,
      fun thrown => absurd thrown not_throws_pure⟩
  | array items ih =>
    refine ⟨fun thrown => ?_, fun thrown => absurd thrown (not_throws_throw (by decide))⟩
    obtain ⟨before, e, rest, vs, s₁, rfl, passed, thrown⟩ :=
      exists_item_of_throws (throws_first_of_pure thrown)
    exact (Part.item passed).hasCulprit ((ih e (by simp)).1 thrown)
  | member object f ih =>
    refine ⟨fun thrown => ?_, fun thrown => ⟨object, s, .object, ih.1 (throws_first_of_pure thrown)⟩⟩
    rcases throws_bind_iff.mp thrown with first | ⟨_, _, -, never⟩
    · exact (Part.place .object).hasCulprit (ih.1 first)
    · exact absurd never not_throws_getMember
  | index object key objectIh keyIh =>
    constructor
    · intro thrown
      rcases throws_bind_iff.mp thrown with first | ⟨v, s₁, before, thrown⟩
      · exact (Part.place .indexed).hasCulprit (objectIh.1 first)
      rcases throws_bind_iff.mp thrown with second | ⟨_, _, -, never⟩
      · exact (Part.place (.key before)).hasCulprit (keyIh.1 second)
      · exact absurd never not_throws_getIndex
    · intro thrown
      rcases throws_bind_iff.mp thrown with first | ⟨v, s₁, before, thrown⟩
      · exact ⟨object, s, .indexed, objectIh.1 first⟩
      · exact ⟨key, s₁, .key before, keyIh.1 (throws_first_of_pure thrown)⟩
  | call callee arguments calleeIh ih =>
    refine ⟨fun thrown => ?_, fun thrown => absurd thrown (not_throws_throw (by decide))⟩
    rcases throws_bind_iff.mp thrown with first | ⟨v, s₁, called, thrown⟩
    · exact Part.callee.hasCulprit (calleeIh.1 first)
    rcases throws_bind_iff.mp thrown with inside | ⟨vs, s₂, passed, applied⟩
    · obtain ⟨before, e, rest, vs, s₂, rfl, passed, thrown⟩ := exists_item_of_throws inside
      exact (Part.argument called passed).hasCulprit ((ih e (by simp)).1 thrown)
    -- callee and arguments have their values, so it is this call itself
    · exact ⟨_, s, .refl, callee, arguments, v, vs, s₁, s₂, rfl, called, passed, applied⟩
  | increment target ih =>
    refine ⟨fun thrown => ?_, fun thrown => absurd thrown (not_throws_throw (by decide))⟩
    obtain ⟨f, s₁, part, inside⟩ := ih.2 (throws_place_of_update thrown)
    exact (Part.increment part).hasCulprit inside
  | decrement target ih =>
    refine ⟨fun thrown => ?_, fun thrown => absurd thrown (not_throws_throw (by decide))⟩
    obtain ⟨f, s₁, part, inside⟩ := ih.2 (throws_place_of_update thrown)
    exact (Part.decrement part).hasCulprit inside
  | unary op e ih =>
    refine ⟨fun thrown => ?_, fun thrown => absurd thrown (not_throws_throw (by decide))⟩
    exact Part.unary.hasCulprit (ih.1 (throws_first_of_pure thrown))
  | binary op a b left right =>
    refine ⟨fun thrown => ?_, fun thrown => absurd thrown (not_throws_throw (by decide))⟩
    rcases throws_bind_iff.mp thrown with first | ⟨v, s₁, before, thrown⟩
    · exact Part.left.hasCulprit (left.1 first)
    · exact (Part.right before).hasCulprit (right.1 (throws_first_of_pure thrown))
  | assign target value targetIh valueIh =>
    refine ⟨fun thrown => ?_, fun thrown => absurd thrown (not_throws_throw (by decide))⟩
    rcases throws_bind_iff.mp thrown with located | ⟨p, s₁, before, thrown⟩
    · obtain ⟨f, s₁, part, inside⟩ := targetIh.2 located
      exact (Part.target part).hasCulprit inside
    rcases throws_bind_iff.mp thrown with second | ⟨_, _, -, thrown⟩
    · exact (Part.value before).hasCulprit (valueIh.1 second)
    · exact absurd (throws_first_of_pure thrown) not_throws_setPlace
  | sequence a b left right =>
    refine ⟨fun thrown => ?_, fun thrown => absurd thrown (not_throws_throw (by decide))⟩
    rcases throws_bind_iff.mp thrown with first | ⟨v, s₁, before, second⟩
    · exact Part.first.hasCulprit (left.1 first)
    · exact (Part.second before).hasCulprit (right.1 second)

theorem Expr.hasCulprit (thrown : Throws (eval e) s .rangeError) : e.HasCulprit s :=
  culprit_of_throws.1 thrown

theorem exists_binding_of_throws {bindings : List (String × Expr)} {ex : Exception}
    (thrown : Throws (declareAll bindings) s ex) : ∃ before x e rest s₁,
      bindings = before ++ (x, e) :: rest ∧ Gives (declareAll before) s () s₁ ∧
      Throws (eval e) s₁ ex := by
  induction bindings generalizing s with
  | nil => exact absurd thrown not_throws_pure
  | cons b rest ih =>
    rcases throws_bind_iff.mp thrown with first | ⟨v, s₁, given, later⟩
    · exact ⟨[], b.1, b.2, rest, s, rfl, rfl, first⟩
    rcases throws_bind_iff.mp later with ⟨⟨⟩⟩ | ⟨_, s₂, declared, later⟩
    obtain ⟨before, x, e, after, s₃, rfl, passed, thrown⟩ := ih later
    exact ⟨b :: before, x, e, after, s₃, rfl, given.bind (declared.bind passed), thrown⟩

theorem exists_round_of_throws {test : Expr} {body : Stmt} {ex : Exception} (other : ex ≠ .endless)
    {k : Nat} (thrown : Throws (loopWhile (eval test) (exec body) k) s ex) :
    ∃ n s₁, n < k ∧ Rounds test body n s s₁ ∧ Throws (exec (.when test body)) s₁ ex := by
  induction k generalizing s with
  -- out of rounds the loop is called endless, which is another exception
  | zero => exact absurd thrown (not_throws_throw other.symm)
  | succ k ih =>
    rcases throws_bind_iff.mp thrown with tested | ⟨v, s₁, tested, thrown⟩
    · exact ⟨0, s, by omega, .zero, throws_of_first _ tested⟩
    split at thrown
    next holds =>
      rcases throws_bind_iff.mp thrown with inside | ⟨c, s₂, ran, thrown⟩
      · refine ⟨0, s, by omega, .zero, tested.thenThrows ?_⟩
        rwa [if_pos holds]
      cases c with
      | normal =>
        obtain ⟨n, s₃, few, rounds, thrown⟩ := ih thrown
        exact ⟨n + 1, s₃, by omega, .succ tested holds ran rounds, thrown⟩
      | returned v => exact absurd thrown not_throws_pure
    next => exact absurd thrown not_throws_pure

theorem exists_statement_of_throws {ss : List Stmt} {ex : Exception}
    (thrown : Throws (execAll ss) s ex) : ∃ before st rest s₁, ss = before ++ st :: rest ∧
      Gives (execAll before) s .normal s₁ ∧ Throws (exec st) s₁ ex := by
  induction ss generalizing s with
  | nil => exact absurd thrown not_throws_pure
  | cons st rest ih =>
    rcases throws_bind_iff.mp thrown with first | ⟨c, s₁, given, later⟩
    · exact ⟨[], st, rest, s, rfl, gives_done, first⟩
    cases c with
    | normal =>
      obtain ⟨before, st', after, s₂, rfl, passed, thrown⟩ := ih later
      exact ⟨st :: before, st', after, s₂, rfl, given.andThen passed, thrown⟩
    | returned v => exact absurd later not_throws_pure

@[elab_as_elim, induction_eliminator]
theorem Stmt.induction {motive : Stmt → Prop} (empty : motive empty)
    (declare : ∀ bindings, motive (declare bindings)) (expr : ∀ e, motive (expr e))
    (when : ∀ test body, motive body → motive (when test body))
    (loop : ∀ test body, motive body → motive (loop test body))
    (block : ∀ body, (∀ st ∈ body, motive st) → motive (block body)) (ret : ∀ e, motive (ret e))
    (st : Stmt) : motive st := by
  refine @Stmt.rec motive (fun ss => ∀ st ∈ ss, motive st) empty declare expr when loop block ret
    ?_ ?_ st
  · simp
  · exact fun head tail first rest => List.forall_mem_cons.mpr ⟨first, rest⟩

-- Running the statement comes to a call that leaves memory.
def Stmt.HasCulprit (st : Stmt) (s : State) : Prop :=
  ∃ c s₁, st.Reaches s c s₁ ∧ Raises .rangeError c s₁

theorem culprit_of_when {test : Expr} {body : Stmt}
    (inside : ∀ {s : State}, Throws (exec body) s .rangeError → body.HasCulprit s)
    (thrown : Throws (exec (.when test body)) s .rangeError) :
    (Stmt.when test body).HasCulprit s := by
  rcases throws_bind_iff.mp thrown with tested | ⟨v, s₁, tested, thrown⟩
  · obtain ⟨c, s₁, reached, raises⟩ := Expr.hasCulprit tested
    exact ⟨c, s₁, .test reached, raises⟩
  split at thrown
  next holds =>
    obtain ⟨c, s₂, reached, raises⟩ := inside thrown
    exact ⟨c, s₂, .body tested holds reached, raises⟩
  next => exact absurd thrown not_throws_pure

theorem Stmt.hasCulprit {st : Stmt} (thrown : Throws (exec st) s .rangeError) :
    st.HasCulprit s := by
  induction st generalizing s with
  | empty => exact absurd thrown not_throws_pure
  | declare bindings =>
    obtain ⟨before, x, e, rest, s₁, rfl, passed, thrown⟩ :=
      exists_binding_of_throws (throws_first_of_pure thrown)
    obtain ⟨c, s₂, reached, raises⟩ := Expr.hasCulprit thrown
    exact ⟨c, s₂, .binding passed reached, raises⟩
  | expr e =>
    obtain ⟨c, s₁, reached, raises⟩ := Expr.hasCulprit (throws_first_of_pure thrown)
    exact ⟨c, s₁, .expr reached, raises⟩
  | «when» test body ih => exact culprit_of_when ih thrown
  | loop test body ih =>
    obtain ⟨n, s₁, within, rounds, thrown⟩ := exists_round_of_throws (by decide) thrown
    obtain ⟨c, s₂, reached, raises⟩ := culprit_of_when ih thrown
    exact ⟨c, s₂, .round rounds within reached, raises⟩
  | block body ih =>
    obtain ⟨before, st, rest, s₁, rfl, passed, thrown⟩ := exists_statement_of_throws thrown
    obtain ⟨c, s₂, reached, raises⟩ := ih st (by simp) thrown
    exact ⟨c, s₂, .block passed reached, raises⟩
  | ret e =>
    cases e with
    | none => exact absurd thrown not_throws_pure
    | some e =>
      obtain ⟨c, s₁, reached, raises⟩ := Expr.hasCulprit (throws_first_of_pure thrown)
      exact ⟨c, s₁, .ret reached, raises⟩

end Culprits

section Ends

variable {s s₁ : State} {e f : Expr} {ex : Exception}

theorem Raises.throws (raises : Raises ex e s) : Throws (eval e) s ex := by
  obtain ⟨callee, arguments, v, vs, s₁, s₂, rfl, called, passed, thrown⟩ := raises
  exact called.thenThrows (passed.thenThrows thrown)

theorem throws_item {before rest : List Expr} {vs : List Value}
    (passed : Gives (evalAll before) s vs s₁) (thrown : Throws (eval e) s₁ ex) :
    Throws (evalAll (before ++ e :: rest)) s ex := by
  induction before generalizing s vs with
  | nil =>
    obtain ⟨-, rfl⟩ := gives_pure_iff.mp passed
    exact throws_of_first _ thrown
  | cons first before ih =>
    obtain ⟨v, ws, s₂, given, later, -⟩ := gives_evalAll_cons_iff.mp passed
    exact given.thenThrows (throws_of_first _ (ih later))

theorem PlacePart.throws (part : PlacePart e s f s₁) (thrown : Throws (eval f) s₁ ex) :
    Throws (eval e) s ex ∧ Throws (evalPlace e) s ex := by
  cases part with
  | object => exact ⟨throws_of_first _ thrown, throws_of_first _ thrown⟩
  | indexed => exact ⟨throws_of_first _ thrown, throws_of_first _ thrown⟩
  | key before =>
    exact ⟨before.thenThrows (throws_of_first _ thrown), before.thenThrows (throws_of_first _ thrown)⟩

theorem Part.throws (part : Part e s f s₁) (thrown : Throws (eval f) s₁ ex) :
    Throws (eval e) s ex := by
  cases part with
  | place part => exact (part.throws thrown).1
  | item passed => exact throws_of_first _ (throws_item passed thrown)
  | callee | unary | left | first => exact throws_of_first _ thrown
  | argument called passed =>
    exact called.thenThrows (throws_of_first _ (throws_item passed thrown))
  | increment part | decrement part | target part => exact throws_of_first _ (part.throws thrown).2
  | right before | value before => exact before.thenThrows (throws_of_first _ thrown)
  | second before => exact before.thenThrows thrown

theorem Expr.Reaches.throws (reached : e.Reaches s f s₁) (thrown : Throws (eval f) s₁ ex) :
    Throws (eval e) s ex := by
  induction reached with
  | refl => exact thrown
  | part part _ ih => exact part.throws (ih thrown)

theorem throws_binding {before rest : List (String × Expr)} {x : String}
    (passed : Gives (declareAll before) s () s₁) (thrown : Throws (eval e) s₁ ex) :
    Throws (declareAll (before ++ (x, e) :: rest)) s ex := by
  induction before generalizing s with
  | nil =>
    obtain ⟨-, rfl⟩ := gives_pure_iff.mp passed
    exact throws_of_first _ thrown
  | cons b before ih =>
    obtain ⟨v, s₂, given, later⟩ := gives_bind_iff.mp passed
    obtain ⟨_, s₃, declared, later⟩ := gives_bind_iff.mp later
    exact given.thenThrows (declared.thenThrows (ih later))

theorem Rounds.throws {test : Expr} {body : Stmt} {n : Nat} (rounds : Rounds test body n s s₁)
    (thrown : Throws (exec (.when test body)) s₁ ex) {k : Nat} (within : n < k) :
    Throws (loopWhile (eval test) (exec body) k) s ex := by
  induction rounds generalizing k with
  | zero =>
    obtain ⟨k, rfl⟩ : ∃ j, k = j + 1 := Nat.exists_eq_add_one.mpr within
    rcases throws_bind_iff.mp thrown with tested | ⟨v, s₁, tested, thrown⟩
    · exact throws_of_first _ tested
    refine tested.thenThrows ?_
    split at thrown
    next holds =>
      rw [if_pos holds]
      exact throws_of_first _ thrown
    next => exact absurd thrown not_throws_pure
  | succ tested holds ran _ ih =>
    obtain ⟨k, rfl⟩ : ∃ j, k = j + 1 := Nat.exists_eq_add_one.mpr (by omega)
    refine tested.thenThrows ?_
    rw [if_pos holds]
    exact ran.thenThrows (ih thrown (by omega))

theorem Stmt.Reaches.throws {st : Stmt} (reached : st.Reaches s f s₁)
    (thrown : Throws (eval f) s₁ ex) : Throws (exec st) s ex := by
  induction reached with
  | binding passed inside => exact throws_of_first _ (throws_binding passed (inside.throws thrown))
  | expr inside | ret inside | test inside => exact throws_of_first _ (inside.throws thrown)
  | body tested holds _ ih =>
    refine tested.thenThrows ?_
    rw [if_pos holds]
    exact ih thrown
  | round rounds within _ ih => exact rounds.throws (ih thrown) within
  | @block s₀ s₁ s₂ before rest st f passed _ ih =>
    change Throws (execAll (before ++ st :: rest)) s₀ ex
    rw [execAll_append]
    exact passed.thenThrows (throws_of_first _ (ih thrown))

end Ends

-- The state in which the body of a script starts.
def start (m : Machine) : State :=
  { machine := m, scope := [("e", .object .runtime)] }

/-- Running the text comes to the call `c`, and that call throws the exception. -/
def ThrownBy (m : Machine) (code : String) (ex : Exception) (c : Expr) : Prop :=
  ∃ body s, parse? code = some body ∧ (Stmt.block body).Reaches (start m) c s ∧ Raises ex c s

theorem runBody_eq_thrown_iff {m : Machine} {body : List Stmt} {ex : Exception} :
    (runBody m body).1 = .thrown ex ↔ Throws (execAll body) (start m) ex := by
  rw [runBody, Throws, start]
  split
  all_goals next ran => simp [show (execAll body).run.run _ = _ from ran]

theorem thrown_iff_thrownBy {m : Machine} {code : String} :
    (run m code).1 = .thrown .rangeError ↔ ∃ c, ThrownBy m code .rangeError c := by
  rw [run]
  cases read : parse? code with
  | none => simp [ThrownBy, read]
  | some body =>
    simp only [runBody_eq_thrown_iff]
    constructor
    · intro thrown
      have thrown : Throws (exec (.block body)) (start m) .rangeError := thrown
      obtain ⟨c, s, reached, raises⟩ := Stmt.hasCulprit thrown
      exact ⟨c, body, s, read, reached, raises⟩
    · rintro ⟨c, body', s, read', reached, raises⟩
      obtain rfl : body = body' := Option.some.inj (read.symm.trans read')
      exact reached.throws raises.throws

end ZCode.Script
