import ZCode.Proofs.Script.Execution

set_option autoImplicit false

namespace ZCode.Script

-- Elements are left out: they are words of the machine, which members do not show.
inductive Target where
  | name (x : String)
  | field (f : String)
  deriving DecidableEq

def State.value? (s : State) : Target → Option Value
  | .name x => s.scope.lookup x
  | .field f => some (runtimeMember s.machine f)

namespace Expr

def targets : Expr → List Target
  | name x => [.name x]
  | member _ f => [.field f]
  | _ => []

mutual

def writes : Expr → List Target
  | number _ | null | name _ => []
  | array items => writesAll items
  | member object _ => object.writes
  | index object key => object.writes ++ key.writes
  | call callee arguments => callee.writes ++ writesAll arguments
  | increment target | decrement target => target.targets ++ target.writes
  | unary _ e => e.writes
  | binary _ a b | sequence a b => a.writes ++ b.writes
  | assign target value => target.targets ++ target.writes ++ value.writes

def writesAll : List Expr → List Target
  | [] => []
  | e :: rest => e.writes ++ writesAll rest

end

theorem writesAll_eq (es : List Expr) : writesAll es = es.flatMap writes := by
  induction es with
  | nil => rfl
  | cons e rest ih => rw [writesAll, ih, List.flatMap_cons]

@[elab_as_elim, induction_eliminator]
theorem induction {motive : Expr → Prop} (number : ∀ n, motive (number n)) (null : motive null)
    (name : ∀ x, motive (name x)) (array : ∀ items, (∀ e ∈ items, motive e) → motive (array items))
    (member : ∀ object f, motive object → motive (member object f))
    (index : ∀ object key, motive object → motive key → motive (index object key))
    (call : ∀ callee arguments, motive callee → (∀ e ∈ arguments, motive e) →
      motive (call callee arguments))
    (increment : ∀ target, motive target → motive (increment target))
    (decrement : ∀ target, motive target → motive (decrement target))
    (unary : ∀ op e, motive e → motive (unary op e))
    (binary : ∀ op a b, motive a → motive b → motive (binary op a b))
    (assign : ∀ target value, motive target → motive value → motive (assign target value))
    (sequence : ∀ a b, motive a → motive b → motive (sequence a b)) (e : Expr) : motive e := by
  refine @Expr.rec motive (fun es => ∀ e ∈ es, motive e) number null name array member index call
    increment decrement unary binary assign sequence ?_ ?_ e
  · simp
  · intro head tail first rest e member
    rcases List.mem_cons.mp member with rfl | member
    · exact first
    · exact rest e member

end Expr

namespace Stmt

mutual

def writes : Stmt → List Target
  | empty | ret none => []
  | declare bindings => bindings.flatMap fun b => .name b.1 :: b.2.writes
  | expr e | ret (some e) => e.writes
  | when test body | loop test body => test.writes ++ body.writes
  | block body => writesAll body

def writesAll : List Stmt → List Target
  | [] => []
  | s :: rest => s.writes ++ writesAll rest

end

theorem writesAll_eq (ss : List Stmt) : writesAll ss = ss.flatMap writes := by
  induction ss with
  | nil => rfl
  | cons s rest ih => rw [writesAll, ih, List.flatMap_cons]

end Stmt

def Preserves {α : Type} (I : State → Prop) (x : Run α) : Prop :=
  ∀ s, I s → I (x.run.run s).2

structure Machine.Resembles (m m' : Machine) : Prop where
  memory : m'.memory.length = m.memory.length
  globals : m'.globals = m.globals
  locals : m'.locals.size = m.locals.size
  stack : m'.stack.size = m.stack.size
  members : ∀ x, runtimeMember m' x = runtimeMember m x

-- What holds of a state whatever words are written, as long as only free targets are assigned to.
structure Lasts (I : State → Prop) (free : Target → Prop) : Prop where
  words : ∀ s m, s.machine.Resembles m → I s → I { s with machine := m }
  member : ∀ f, free (.field f) → ∀ v x, Preserves I (setMember v f x)
  name : ∀ x, free (.name x) → ∀ v, Preserves I (declare x v)

section Primitives

variable {α β : Type} {I : State → Prop} {free : Target → Prop}

theorem preserves_pure (a : α) : Preserves I (pure a : Run α) := fun _ holds => holds

theorem preserves_throw (e : Exception) : Preserves I (throw e : Run α) := fun _ holds => holds

theorem Preserves.bindGiven {x : Run α} {f : α → Run β} (first : Preserves I x)
    (rest : ∀ s a s', Gives x s a s' → Preserves I (f a)) : Preserves I (x >>= f) := by
  intro s holds
  have before := first s holds
  rw [ExceptT.run_bind, StateT.run_bind]
  cases result : x.run.run s with
  | mk answer s₁ =>
    rw [result] at before
    cases answer with
    | error e => exact before
    | ok a => exact rest s a s₁ result s₁ before

theorem Preserves.bind {x : Run α} {f : α → Run β} (first : Preserves I x)
    (rest : ∀ a, Preserves I (f a)) : Preserves I (x >>= f) :=
  first.bindGiven fun _ a _ _ => rest a

theorem Preserves.gives {x : Run α} (preserves : Preserves I x) {s s' : State} {a : α}
    (ran : Gives x s a s') (holds : I s) : I s' := by
  have kept := preserves s holds
  rwa [show x.run.run s = (.ok a, s') from ran] at kept

theorem preserves_getMachine : Preserves I getMachine := fun _ holds => holds

theorem preserves_lookup (x : String) : Preserves I (lookup x) := by
  refine Preserves.bind (fun _ holds => holds) fun s => ?_
  cases s.scope.lookup x with
  | none => exact preserves_throw _
  | some v => exact preserves_pure v

theorem preserves_getMember (v : Value) (f : String) : Preserves I (getMember v f) := by
  simp only [getMember]
  split
  · exact preserves_getMachine.bind fun _ => preserves_pure _
  · exact preserves_pure _
  · exact preserves_pure _
  · exact preserves_throw _
  · exact preserves_throw _
  · exact preserves_pure _

theorem preserves_getIndex (v key : Value) : Preserves I (getIndex v key) := by
  simp only [getIndex]
  split
  · exact preserves_getMachine.bind fun _ => preserves_pure _
  · exact preserves_getMachine.bind fun _ => preserves_pure _
  · exact preserves_throw _
  · exact preserves_throw _
  · exact preserves_pure _

theorem preserves_getPlace (p : Place) : Preserves I (getPlace p) := by
  cases p with
  | named x => exact preserves_lookup x
  | member v f => exact preserves_getMember v f
  | element v key => exact preserves_getIndex v key

theorem preserves_offset (v : Value) : Preserves I (offset v) := by
  simp only [offset]
  split
  · exact preserves_pure _
  · exact preserves_throw _
  · split
    · exact preserves_throw _
    · exact preserves_pure _

theorem preserves_readByte (v : Value) : Preserves I (readByte v) := by
  refine (preserves_offset v).bind fun pos => preserves_getMachine.bind fun m => ?_
  split
  · exact preserves_pure _
  · exact preserves_throw _

theorem preserves_readWord (v : Value) : Preserves I (readWord v) := by
  refine (preserves_offset v).bind fun pos => preserves_getMachine.bind fun m => ?_
  split
  · exact preserves_pure _
  · exact preserves_throw _

theorem preserves_readVariable (v : Value) : Preserves I (readVariable v) := by
  refine preserves_getMachine.bind fun m => ?_
  split
  · exact preserves_getIndex _ _
  · exact (preserves_readWord _).bind fun _ => preserves_pure _

theorem size_setWordIn (words : Array UInt16) (i : Int) (v : Value) :
    (Machine.setWordIn words i v).size = words.size := by
  rw [Machine.setWordIn]
  split
  · exact Array.size_setIfInBounds
  · rfl

namespace Machine

variable (m : Machine)

theorem resembles_locals (i : Int) (v : Value) :
    m.Resembles { m with locals := setWordIn m.locals i v } :=
  ⟨rfl, rfl, size_setWordIn _ i v, rfl, fun _ => rfl⟩

theorem resembles_stack (i : Int) (v : Value) :
    m.Resembles { m with stack := setWordIn m.stack i v } :=
  ⟨rfl, rfl, rfl, size_setWordIn _ i v, fun _ => rfl⟩

theorem resembles_memory (pos : Nat) (bytes : List UInt8) :
    m.Resembles { m with memory := m.memory.write pos bytes } :=
  ⟨Image.length_write _ _ _, rfl, rfl, rfl, fun _ => rfl⟩

theorem resembles_calls (call : HostCall) :
    m.Resembles { m with calls := call :: m.calls } :=
  ⟨rfl, rfl, rfl, rfl, fun _ => rfl⟩

end Machine

namespace Lasts

variable (lasts : Lasts I free)

include lasts

theorem modifyMachine {f : Machine → Machine} (resembles : ∀ m : Machine, m.Resembles (f m)) :
    Preserves I (modifyMachine f) :=
  fun s holds => lasts.words s _ (resembles s.machine) holds

theorem setIndex (v key x : Value) : Preserves I (setIndex v key x) := by
  simp only [Script.setIndex]
  split
  · exact lasts.modifyMachine fun m => m.resembles_locals _ _
  · exact lasts.modifyMachine fun m => m.resembles_stack _ _
  · exact preserves_throw _
  · exact preserves_throw _
  · exact preserves_pure _

theorem writeBytes (v : Value) (bytes : List UInt8) : Preserves I (writeBytes v bytes) := by
  refine (preserves_offset v).bind fun pos => preserves_getMachine.bind fun m => ?_
  split
  · exact preserves_throw _
  · exact lasts.modifyMachine fun m => m.resembles_memory _ _

theorem writeVariable (v x : Value) : Preserves I (writeVariable v x) := by
  refine preserves_getMachine.bind fun m => ?_
  split
  · exact lasts.setIndex _ _ _
  · exact lasts.writeBytes _ _

theorem applyMethod (m : Method) (vs : List Value) : Preserves I (applyMethod m vs) := by
  cases m with
  | jeq | popFrame => exact preserves_pure _
  | value => exact preserves_readVariable _
  | indirect =>
    simp only [Script.applyMethod]
    split
    · exact preserves_readVariable _
    · exact (lasts.writeVariable _ _).bind fun _ => preserves_pure _
  | incdec =>
    exact (preserves_readVariable _).bind fun _ =>
      (lasts.writeVariable _ _).bind fun _ => preserves_pure _
  | getUint8 => exact (preserves_readByte _).bind fun _ => preserves_pure _
  | getUint16 | getInt16 => exact (preserves_readWord _).bind fun _ => preserves_pure _
  | setUint8 | setUint16 => exact (lasts.writeBytes _ _).bind fun _ => preserves_pure _
  | host name =>
    refine Preserves.bind ?_ fun _ => preserves_pure _
    exact lasts.modifyMachine fun m => m.resembles_calls _

theorem apply (callee : Value) (vs : List Value) : Preserves I (apply callee vs) := by
  simp only [Script.apply]
  split
  · exact lasts.applyMethod _ vs
  · exact preserves_throw _

end Lasts

def Place.target? : Place → Option Target
  | named x => some (.name x)
  | member _ f => some (.field f)
  | element .. => none

theorem Lasts.setPlace (lasts : Lasts I free) {p : Place} (open_ : ∀ t, p.target? = some t → free t)
    (x : Value) : Preserves I (setPlace p x) := by
  cases p with
  | named name => exact (preserves_lookup name).bind fun _ => lasts.name name (open_ _ rfl) x
  | member v f => exact lasts.member f (open_ _ rfl) v x
  | element v key => exact lasts.setIndex v key x

end Primitives

theorem target_of_place {e : Expr} {p : Place} {t : Target} {s s' : State}
    (given : Gives (evalPlace e) s p s') (written : p.target? = some t) : t ∈ e.targets := by
  cases e with
  | name x =>
    obtain ⟨rfl, -⟩ := gives_pure_iff.mp given
    cases written
    exact List.mem_singleton_self _
  | member object f =>
    obtain ⟨v, s₁, -, last⟩ := gives_bind_iff.mp given
    obtain ⟨rfl, -⟩ := gives_pure_iff.mp last
    cases written
    exact List.mem_singleton_self _
  | index object key =>
    obtain ⟨v, s₁, -, later⟩ := gives_bind_iff.mp given
    obtain ⟨k, s₂, -, last⟩ := gives_bind_iff.mp later
    obtain ⟨rfl, -⟩ := gives_pure_iff.mp last
    cases written
  | _ => exact absurd given not_gives_throw

theorem preserves_evalAll {I : State → Prop} {es : List Expr}
    (each : ∀ e ∈ es, Preserves I (eval e)) : Preserves I (evalAll es) := by
  induction es with
  | nil => exact preserves_pure _
  | cons e rest ih =>
    exact (each e (by simp)).bind fun _ =>
      (ih fun e' member => each e' (by simp [member])).bind fun _ => preserves_pure _

theorem preserves_loopWhile {I : State → Prop} {test : Run Value} {body : Run Completion}
    (tested : Preserves I test) (inside : Preserves I body) (rounds : Nat) :
    Preserves I (loopWhile test body rounds) := by
  induction rounds with
  | zero => exact preserves_throw _
  | succ rounds ih =>
    refine tested.bind fun v => ?_
    split
    · refine inside.bind fun c => ?_
      cases c with
      | normal => exact ih
      | returned v => exact preserves_pure _
    · exact preserves_pure _

namespace Lasts

variable {I : State → Prop} {free : Target → Prop} (lasts : Lasts I free)

include lasts

-- A place is evaluated by evaluating its parts, so both evaluations go through the same induction.
theorem eval_place {e : Expr} (open_ : ∀ t ∈ e.writes, free t) :
    Preserves I (Script.eval e) ∧ Preserves I (evalPlace e) := by
  induction e with
  | number n => exact ⟨preserves_pure _, preserves_throw _⟩
  | null => exact ⟨preserves_pure _, preserves_throw _⟩
  | name x => exact ⟨preserves_lookup x, preserves_pure _⟩
  | array items ih =>
    rw [Expr.writes, Expr.writesAll_eq] at open_
    have inside := preserves_evalAll fun e member =>
      (ih e member fun t at_ => open_ t (List.mem_flatMap.mpr ⟨e, member, at_⟩)).1
    exact ⟨inside.bind fun _ => preserves_pure _, preserves_throw _⟩
  | member object f ih =>
    have object := (ih open_).1
    exact ⟨object.bind fun v => preserves_getMember v f, object.bind fun _ => preserves_pure _⟩
  | index object key objectIh keyIh =>
    rw [Expr.writes, List.forall_mem_append] at open_
    have object := (objectIh open_.1).1
    have key := (keyIh open_.2).1
    exact ⟨object.bind fun v => key.bind fun k => preserves_getIndex v k,
      object.bind fun _ => key.bind fun _ => preserves_pure _⟩
  | call callee arguments calleeIh ih =>
    rw [Expr.writes, Expr.writesAll_eq, List.forall_mem_append] at open_
    have inside := preserves_evalAll fun e member =>
      (ih e member fun t at_ => open_.2 t (List.mem_flatMap.mpr ⟨e, member, at_⟩)).1
    exact ⟨(calleeIh open_.1).1.bind fun f => inside.bind fun vs => lasts.apply f vs,
      preserves_throw _⟩
  | increment target ih | decrement target ih =>
    -- which place is written is known only from the run that gave it
    rw [Expr.writes, List.forall_mem_append] at open_
    refine ⟨(ih open_.2).2.bindGiven fun s p s' given => ?_, preserves_throw _⟩
    exact (preserves_getPlace p).bind fun old =>
      (lasts.setPlace (fun t written => open_.1 t (target_of_place given written)) _).bind
        fun _ => preserves_pure _
  | unary op e ih => exact ⟨(ih open_).1.bind fun _ => preserves_pure _, preserves_throw _⟩
  | binary op a b left right =>
    rw [Expr.writes, List.forall_mem_append] at open_
    exact ⟨(left open_.1).1.bind fun _ => (right open_.2).1.bind fun _ => preserves_pure _,
      preserves_throw _⟩
  | assign target value targetIh valueIh =>
    rw [Expr.writes, List.forall_mem_append, List.forall_mem_append] at open_
    refine ⟨(targetIh open_.1.2).2.bindGiven fun s p s' given => ?_, preserves_throw _⟩
    exact (valueIh open_.2).1.bind fun x =>
      (lasts.setPlace (fun t written => open_.1.1 t (target_of_place given written)) x).bind
        fun _ => preserves_pure _
  | sequence a b left right =>
    rw [Expr.writes, List.forall_mem_append] at open_
    exact ⟨(left open_.1).1.bind fun _ => (right open_.2).1, preserves_throw _⟩

theorem eval {e : Expr} (open_ : ∀ t ∈ e.writes, free t) : Preserves I (eval e) :=
  (lasts.eval_place open_).1

theorem declareAll {bindings : List (String × Expr)}
    (open_ : ∀ t ∈ bindings.flatMap fun b => .name b.1 :: b.2.writes, free t) :
    Preserves I (declareAll bindings) := by
  induction bindings with
  | nil => exact preserves_pure _
  | cons b rest ih =>
    rw [List.flatMap_cons, List.forall_mem_append, List.forall_mem_cons] at open_
    exact (lasts.eval open_.1.2).bind fun v =>
      (lasts.name b.1 open_.1.1 v).bind fun _ => ih open_.2

omit lasts

mutual

theorem exec (lasts : Lasts I free) :
    (st : Stmt) → (∀ t ∈ st.writes, free t) → Preserves I (exec st)
  | .empty, _ => preserves_pure _
  | .declare _, open_ => (lasts.declareAll open_).bind fun _ => preserves_pure _
  | .expr _, open_ => (lasts.eval open_).bind fun _ => preserves_pure _
  | .when test body, open_ => by
    rw [Stmt.writes, List.forall_mem_append] at open_
    refine (lasts.eval open_.1).bind fun v => ?_
    split
    · exact lasts.exec body open_.2
    · exact preserves_pure _
  | .loop test body, open_ => by
    rw [Stmt.writes, List.forall_mem_append] at open_
    exact preserves_loopWhile (lasts.eval open_.1) (lasts.exec body open_.2) maxRounds
  | .block body, open_ => lasts.execAll body open_
  | .ret none, _ => preserves_pure _
  | .ret (some _), open_ => (lasts.eval open_).bind fun _ => preserves_pure _

theorem execAll (lasts : Lasts I free) :
    (ss : List Stmt) → (∀ t ∈ Stmt.writesAll ss, free t) → Preserves I (execAll ss)
  | [], _ => preserves_pure _
  | st :: rest, open_ => by
    rw [Stmt.writesAll, List.forall_mem_append] at open_
    refine (lasts.exec st open_.1).bind fun c => ?_
    cases c with
    | normal => exact lasts.execAll rest open_.2
    | returned v => exact preserves_pure _

end

end Lasts

def Keeps {α : Type} (t : Target) (x : Run α) : Prop :=
  ∀ s, (x.run.run s).2.value? t = s.value? t

section Targets

variable {α : Type} {t : Target}

theorem Keeps.gives {x : Run α} (keeps : Keeps t x) {s s' : State} {a : α} (ran : Gives x s a s') :
    s'.value? t = s.value? t := by
  have kept := keeps s
  rwa [show x.run.run s = (.ok a, s') from ran] at kept

theorem keeps_of_preserves {x : Run α} (each : ∀ v, Preserves (fun s => s.value? t = v) x) :
    Keeps t x :=
  fun s => each (s.value? t) s rfl

theorem keeps_field {g : String} {f : Machine → Machine}
    (others : ∀ m x, x ≠ g → runtimeMember (f m) x = runtimeMember m x) (other : t ≠ .field g) :
    Keeps t (modifyMachine f) := by
  intro s
  cases t with
  | name x => rfl
  | field x => exact congrArg some (others s.machine x fun same => other (congrArg _ same))

theorem keeps_setMember {f : String} (other : t ≠ .field f) (v x : Value) :
    Keeps t (setMember v f x) := by
  simp only [setMember]
  split
  · exact keeps_field (fun m y different => by unfold runtimeMember; split <;> trivial) other
  · exact keeps_field (fun m y different => by unfold runtimeMember; split <;> trivial) other
  · exact keeps_field (fun m y different => by unfold runtimeMember; split <;> trivial) other
  · exact keeps_field (fun m y different => by unfold runtimeMember; split <;> trivial) other
  · exact keeps_field (fun m y different => by unfold runtimeMember; split <;> trivial) other
  · exact fun _ => rfl
  · exact fun _ => rfl
  · exact fun _ => rfl

theorem lookup_filter (scope : List (String × Value)) {x y : String} (other : y ≠ x) :
    (scope.filter (·.1 != x)).lookup y = scope.lookup y := by
  induction scope with
  | nil => rfl
  | cons entry rest ih =>
    obtain ⟨z, v⟩ := entry
    by_cases same : z = x
    · subst same
      rw [List.filter_cons_of_neg (by simp), ih, List.lookup_cons, beq_false_of_ne other]
    · rw [List.filter_cons_of_pos (by simpa using same), List.lookup_cons, List.lookup_cons, ih]

theorem keeps_declare {x : String} (other : t ≠ .name x) (v : Value) : Keeps t (declare x v) := by
  intro s
  cases t with
  | field f => rfl
  | name y =>
    have different : y ≠ x := fun same => other (congrArg Target.name same)
    change ((x, v) :: s.scope.filter (·.1 != x)).lookup y = s.scope.lookup y
    rw [List.lookup_cons, beq_false_of_ne different, lookup_filter s.scope different]

theorem lasts_value (t : Target) (v : Option Value) :
    Lasts (fun s => s.value? t = v) fun other => t ≠ other where
  words s m resembles held := by
    cases t with
    | name x => exact held
    | field f => exact (congrArg some (resembles.members f)).trans held
  member f other v x s held := (keeps_setMember other v x s).trans held
  name x other v s held := (keeps_declare other v s).trans held

theorem keeps_pure (a : α) : Keeps t (pure a : Run α) := fun _ => rfl

theorem keeps_lookup (x : String) : Keeps t (lookup x) :=
  keeps_of_preserves fun _ => preserves_lookup x

theorem keeps_getMember (v : Value) (f : String) : Keeps t (getMember v f) :=
  keeps_of_preserves fun _ => preserves_getMember v f

theorem keeps_getIndex (v key : Value) : Keeps t (getIndex v key) :=
  keeps_of_preserves fun _ => preserves_getIndex v key

theorem keeps_apply (callee : Value) (vs : List Value) : Keeps t (apply callee vs) :=
  keeps_of_preserves fun v => (lasts_value t v).apply callee vs

theorem keeps_setPlace {p : Place} (other : p.target? ≠ some t) (x : Value) :
    Keeps t (setPlace p x) :=
  keeps_of_preserves fun v => (lasts_value t v).setPlace (fun _ written same =>
    other (same ▸ written)) x

theorem keeps_eval {e : Expr} (free : t ∉ e.writes) : Keeps t (eval e) :=
  keeps_of_preserves fun v => (lasts_value t v).eval fun _ member same => free (same ▸ member)

theorem keeps_exec (st : Stmt) (free : t ∉ st.writes) : Keeps t (exec st) :=
  keeps_of_preserves fun v => (lasts_value t v).exec st fun _ member same => free (same ▸ member)

theorem keeps_execAll (ss : List Stmt) (free : t ∉ Stmt.writesAll ss) : Keeps t (execAll ss) :=
  keeps_of_preserves fun v => (lasts_value t v).execAll ss fun _ member same => free (same ▸ member)

end Targets

end ZCode.Script
