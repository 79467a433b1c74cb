import ZCode.Proofs.Block.Compile
import ZCode.Proofs.Script.Frame

set_option autoImplicit false

namespace ZCode.Script

-- What statements write for their own use; the program counter is not among it.
def quiet : List Target :=
  [.name "t", .field "sp", .field "quit", .field "frameptr"]

-- What the line of an instruction writes behind the row that records where to resume.
def mild : List Target :=
  .field "pc" :: quiet

def Phrase.Quiet (e : Phrase) : Prop :=
  ∀ t ∈ e.expr.writes, t ∈ quiet

def Phrase.Mild (e : Phrase) : Prop :=
  ∀ t ∈ e.expr.writes, t ∈ mild

theorem Phrase.Quiet.mild {e : Phrase} (quiet : e.Quiet) : e.Mild :=
  fun t member => List.mem_cons_of_mem _ (quiet t member)

namespace Phrase

variable {a b e : Phrase}

@[simp] theorem quiet_number (n : Nat) : (number n).Quiet :=
  List.forall_mem_nil _

@[simp] theorem quiet_null : null.Quiet :=
  List.forall_mem_nil _

@[simp] theorem quiet_name (x : String) : (name x).Quiet :=
  List.forall_mem_nil _

@[simp] theorem quiet_paren : (paren e).Quiet ↔ e.Quiet :=
  Iff.rfl

theorem quiet_all {es : List Phrase} :
    (∀ t ∈ Expr.writesAll (exprs es), t ∈ quiet) ↔ ∀ e ∈ es, e.Quiet := by
  rw [Expr.writesAll_eq, exprs_eq, List.flatMap_map]
  simp only [List.mem_flatMap, forall_exists_index, and_imp]
  constructor
  · exact fun all e member t at_ => all t e member at_
  · exact fun each t e member at_ => each e member t at_

@[simp] theorem quiet_array {items : List Phrase} : (array items).Quiet ↔ ∀ e ∈ items, e.Quiet :=
  quiet_all

@[simp] theorem quiet_member {f : String} : (member e f).Quiet ↔ e.Quiet :=
  Iff.rfl

@[simp] theorem quiet_index : (index a b).Quiet ↔ a.Quiet ∧ b.Quiet :=
  List.forall_mem_append

@[simp] theorem quiet_call {arguments : List Phrase} :
    (call e arguments).Quiet ↔ e.Quiet ∧ ∀ a ∈ arguments, a.Quiet := by
  rw [← quiet_all]
  exact List.forall_mem_append

@[simp] theorem quiet_increment :
    (increment e).Quiet ↔ (∀ t ∈ e.expr.targets, t ∈ quiet) ∧ e.Quiet :=
  List.forall_mem_append

@[simp] theorem quiet_decrement :
    (decrement e).Quiet ↔ (∀ t ∈ e.expr.targets, t ∈ quiet) ∧ e.Quiet :=
  List.forall_mem_append

@[simp] theorem quiet_unary {op : UnaryOp} : (unary op e).Quiet ↔ e.Quiet :=
  Iff.rfl

@[simp] theorem quiet_binary {op : BinaryOp} : (binary op a b).Quiet ↔ a.Quiet ∧ b.Quiet :=
  List.forall_mem_append

@[simp] theorem quiet_assign :
    (assign a b).Quiet ↔ (∀ t ∈ a.expr.targets, t ∈ quiet) ∧ a.Quiet ∧ b.Quiet := by
  rw [← and_assoc, Quiet, Quiet, ← List.forall_mem_append]
  exact List.forall_mem_append

@[simp] theorem quiet_sequence : (sequence a b).Quiet ↔ a.Quiet ∧ b.Quiet :=
  List.forall_mem_append

end Phrase

def Clause.Quiet (c : Clause) : Prop :=
  ∀ t ∈ c.stmt.writes, t ∈ quiet

def Clause.Mild (c : Clause) : Prop :=
  ∀ t ∈ c.stmt.writes, t ∈ mild

theorem Clause.Quiet.mild {c : Clause} (quiet : c.Quiet) : c.Mild :=
  fun t member => List.mem_cons_of_mem _ (quiet t member)

namespace Clause

variable {test e : Phrase} {s : Simple} {body : List Simple}

@[simp] theorem quiet_expr : (simple (.expr e)).Quiet ↔ e.Quiet :=
  Iff.rfl

@[simp] theorem quiet_leave : (simple (.ret none)).Quiet :=
  List.forall_mem_nil _

@[simp] theorem quiet_ret : (simple (.ret (some e))).Quiet ↔ e.Quiet :=
  Iff.rfl

@[simp] theorem quiet_when : (when test s).Quiet ↔ test.Quiet ∧ (simple s).Quiet :=
  List.forall_mem_append

@[simp] theorem quiet_loopBlock :
    (loopBlock test body).Quiet ↔ test.Quiet ∧ ∀ s ∈ body, (simple s).Quiet := by
  simp only [Quiet, Phrase.Quiet, stmt, Stmt.writes, Stmt.writesAll_eq, List.flatMap_map,
    List.mem_append, List.mem_flatMap]
  grind

end Clause

end ZCode.Script

namespace ZCode

def Op.isCall (version : UInt8) : Op → Bool
  | .call2s | .call2n | .call1s | .callVs | .callVs2 | .callVn | .callVn2 => true
  | .notOrCall1n => 5 ≤ version
  | _ => false

namespace Instruction

def givesValue (i : Instruction) : Bool :=
  i.op?.any Op.returnsValue || i.branch.any Branch.returns

def isCall (version : UInt8) (i : Instruction) : Bool :=
  i.op?.any (Op.isCall version)

end Instruction

end ZCode

namespace ZCode.Statement

open ZCode.Script

def Effect.Quiet (e : Effect) : Prop :=
  ∀ c ∈ e.clauses, c.Quiet

theorem quiet_integer (n : Int) : (integer n).Quiet := by
  cases n <;> simp [integer]

theorem quiet_popped : popped.Quiet := by
  simp [popped, runtime, Phrase.expr, Expr.targets, quiet]

theorem quiet_operand (op : Operand) : (operandPhrase op).Quiet := by
  obtain ⟨kind, value⟩ := op
  cases kind with
  | signedConstant => exact quiet_integer _
  | _ => simp [operandPhrase, quiet_popped, slot, signExtended, memory, runtime]

theorem quiet_nth {ops : List Phrase} (all : ∀ e ∈ ops, e.Quiet) (k : Nat) :
    (nthPhrase ops k).Quiet := by
  rw [nthPhrase, List.getD_eq_getElem?_getD]
  cases found : ops[k]? with
  | none => exact Phrase.quiet_null
  | some e => exact all e (List.mem_of_getElem? found)

theorem quiet_host {ops : List Phrase} (all : ∀ e ∈ ops, e.Quiet) (method : String) :
    (hostPhrase method ops).Quiet := by
  simpa [hostPhrase, runtime] using all

theorem quiet_chained {op : BinaryOp} {a : Phrase} {rest : List Phrase} (first : a.Quiet)
    (others : ∀ e ∈ rest, e.Quiet) : (rest.foldl (.binary op) a).Quiet := by
  induction rest generalizing a with
  | nil => exact first
  | cons b rest ih =>
    exact ih (Phrase.quiet_binary.mpr ⟨first, others b (by simp)⟩) fun e member =>
      others e (by simp [member])

theorem quiet_call {ops : List Phrase} (all : ∀ e ∈ ops, e.Quiet) (i : Instruction) :
    (callPhrase i ops).Quiet := by
  have rest : ∀ e ∈ ops.tail, e.Quiet := fun e member => all e (List.mem_of_mem_tail member)
  cases result : i.result <;>
    simpa [callPhrase, result, hostPhrase, runtime, minusOne, quiet_nth all 0] using rest

theorem quiet_effect {p : Profile} {i : Instruction} {ops : List Phrase} (all : ∀ e ∈ ops, e.Quiet)
    {op : Op} (noJump : op ≠ .jump) (noStream : op ≠ .outputStream) {e : Effect}
    (found : effect p i ops op = some e) : e.Quiet := by
  have nth := quiet_nth all
  cases op with
  | jin | test | testAttr | setAttr | clearAttr | insertObj | getProp | getPropAddr | setColour
  | getSibling | getChild | getParent | getPropLen | removeObj | putProp | random | splitWindow
  | setWindow | eraseWindow | eraseLine | getCursor | setTextStyle | inputStream | scanTable
  | tokenise | encodeText | copyTable | printTable | logShift | artShift | setFont | setTrueColour
  | gestalt =>
    cases found
    simpa [Effect.Quiet, Effect.clauses] using quiet_host all _
  | call2s | call2n | call1s | callVs | callVs2 | callVn | callVn2 =>
    cases found
    simpa [Effect.Quiet, Effect.clauses] using quiet_call all i
  | jl | jg | or | and | add | sub | mul | mod =>
    cases ops with
    | nil => cases found
    | cons a rest =>
      cases found
      simpa [Effect.Quiet, Effect.clauses] using
        quiet_chained (all a (by simp)) fun e member => all e (by simp [member])
  | decChk | incChk | store | loadw | loadb | getNextProp | div | jz | inc | dec | printAddr
  | printObj | printPaddr | load | restart | newLine | verify | piracy | storew | storeb | printChar
  | printNum | pull | setCursor | not | checkArgCount | printUnicode | checkUnicode | save
  | saveTable | restore | restoreTable | ret | rtrue | rfalse | retPopped | nop | bufferMode
  | soundEffect | quit | push | throw | restoreUndo =>
    cases found
    simp [Effect.Quiet, Effect.clauses, hostPhrase, memory, popped, signExtended, runtime, minusOne,
      setPhrase, pushPhrase, depthPhrase, nth, Phrase.expr, Expr.targets, quiet]
  | je =>
    cases found
    rcases ops with _ | ⟨a, _ | ⟨b, _ | ⟨c, rest⟩⟩⟩
    case cons.cons.nil => simpa [Effect.Quiet, Effect.clauses] using all
    all_goals simpa [Effect.Quiet, Effect.clauses] using quiet_host all _
  | notOrCall1n =>
    cases found
    by_cases old : p.version < 5
    · simpa [Effect.Quiet, Effect.clauses, old] using nth 0
    · simpa [Effect.Quiet, Effect.clauses, old] using quiet_call all i
  | popOrCatch =>
    cases found
    by_cases old : p.version < 5
    · simpa [Effect.Quiet, Effect.clauses, old] using quiet_popped
    · simp [Effect.Quiet, Effect.clauses, old, depthPhrase, runtime]
  | showStatus =>
    cases found
    by_cases old : p.version < 4 <;>
      simp [Effect.Quiet, Effect.clauses, old, hostPhrase, runtime]
  | print | printRet | saveUndo =>
    obtain ⟨_, _, rfl⟩ := Option.map_eq_some_iff.mp found
    simp [Effect.Quiet, Effect.clauses, hostPhrase, runtime]
  | readChar =>
    obtain ⟨_, _, rfl⟩ := Option.map_eq_some_iff.mp found
    have arguments : ∀ e ∈ (if ops.isEmpty then [Phrase.number 1] else ops), e.Quiet := by
      split
      · simp
      · exact all
    simpa [Effect.Quiet, Effect.clauses, hostPhrase, runtime] using arguments
  | read =>
    simp only [effect] at found
    split at found
    · cases found
    obtain ⟨_, _, rfl⟩ := Option.map_eq_some_iff.mp found
    simpa [Effect.Quiet, Effect.clauses, hostPhrase, runtime] using all
  | jump => exact absurd rfl noJump
  | outputStream => exact absurd rfl noStream

theorem quiet_meant {p : Profile} {i : Instruction} {ops : List Phrase} (all : ∀ e ∈ ops, e.Quiet)
    {op : Op} (noJump : op ≠ .jump) (noStream : op ≠ .outputStream) {e : Effect}
    (found : meant p i ops op = some e) : e.Quiet := by
  rw [meant] at found
  split at found
  · obtain ⟨_, _, rfl⟩ := Option.map_eq_some_iff.mp found
    simp [Effect.Quiet, Effect.clauses, hostPhrase, runtime]
  · exact quiet_effect all noJump noStream found

theorem quiet_assign {e : Phrase} (value : e.Quiet) (p : Profile) (v : UInt8) :
    (assignPhrase p v e).Quiet := by
  simp only [assignPhrase]
  split_ifs <;>
    simp [pushPhrase, slot, memory, runtime, Phrase.expr, Expr.targets, quiet, value]

theorem quiet_operands (i : Instruction) : ∀ e ∈ i.operands.map operandPhrase, e.Quiet := by
  intro e member
  obtain ⟨operand, -, rfl⟩ := List.mem_map.mp member
  exact quiet_operand operand

theorem mild_expr {e : Phrase} : (Clause.simple (.expr e)).Mild ↔ e.Mild :=
  Iff.rfl

theorem mild_set {e : Phrase} (value : e.Mild) : (setPhrase "pc" e).Mild := by
  simp only [Phrase.Mild, setPhrase, runtime, Phrase.expr, Expr.writes, Expr.targets,
    List.append_nil, List.singleton_append, List.forall_mem_cons]
  exact ⟨by decide, value⟩

theorem mild_assign {e : Phrase} (value : e.Mild) (p : Profile) (v : UInt8) :
    (assignPhrase p v e).Mild := by
  simp only [assignPhrase]
  split_ifs <;>
    simpa [Phrase.Mild, pushPhrase, slot, memory, runtime, Phrase.expr, Phrase.exprs, Expr.writes,
      Expr.writesAll, Expr.targets, or_imp, forall_and, mild, quiet] using value

theorem mild_test {e : Phrase} (value : e.Mild) (b : Branch) :
    (if b.ifTrue then Phrase.paren e else .unary .not (.paren e)).Mild := by
  split
  · exact value
  · exact value

theorem mild_branch {e : Phrase} (value : e.Mild) (i : Instruction) (b : Branch) :
    (branchClause i b e).Mild := by
  have leaves : ∀ t ∈ Stmt.writesAll ((leave i b).map Simple.stmt), t ∈ mild := by
    rw [leave]
    split
    · have number := (quiet_integer b.offset.toInt).mild
      simpa [Simple.stmt, Stmt.writesAll, Stmt.writes] using fun t member => number t member
    · simp [Simple.stmt, Stmt.writesAll, Stmt.writes, setPhrase, runtime, Phrase.expr, Expr.writes,
        Expr.targets, mild]
  exact List.forall_mem_append.mpr ⟨mild_test value b, leaves⟩

theorem mild_meant {p : Profile} {i : Instruction} {op : Op} {e : Effect}
    (found : meant p i (i.operands.map operandPhrase) op = some e) : ∀ c ∈ e.clauses, c.Mild := by
  have all := quiet_operands i
  by_cases jumps : op = .jump
  · subst jumps
    cases found
    have value : (Phrase.binary .add (nthPhrase (i.operands.map operandPhrase) 0)
        (integer ((i.next.toNat : Int) - 2))).Quiet :=
      Phrase.quiet_binary.mpr ⟨quiet_nth all 0, quiet_integer _⟩
    exact List.forall_mem_singleton.mpr (mild_set value.mild)
  · by_cases streams : op = .outputStream
    · subst streams
      cases found
      have host := Clause.quiet_expr.mpr (quiet_host all "output_stream")
      exact List.forall_mem_cons.mpr ⟨mild_set (Phrase.quiet_number _).mild,
        List.forall_mem_singleton.mpr host.mild⟩
    · exact fun c member => (quiet_meant all jumps streams found c member).mild

-- Statements reach the runtime object by its name, so none of them may assign to it.
def Bound (s : State) : Prop :=
  s.value? (.name "e") = some (.object .runtime)

theorem bound_frame (m : Machine) (t : Value) : Bound (frame m t) := rfl

def Tame (c : Clause) : Prop :=
  .name "e" ∉ c.stmt.writes

def Framed (length : Nat) (globals : UInt16) (s : State) : Prop :=
  ∃ m t, s = frame m t ∧ Rules.Sized length m ∧ m.globals = globals

theorem lasts_framed (length : Nat) (globals : UInt16) :
    Lasts (Framed length globals) fun target => ∀ x, target = .name x → x = "t" where
  words := by
    rintro _ m' resembles ⟨m, t, rfl, sized, table⟩
    refine ⟨m', t, rfl, ⟨?_, ?_, ?_⟩, resembles.globals.trans table⟩
    · exact resembles.locals.trans sized.locals
    · exact resembles.stack.trans sized.stack
    · exact sized.memory.trans_eq resembles.memory.symm
  member := by
    rintro f - v x _ ⟨m, t, rfl, sized, table⟩
    have sizes := And.intro sized.locals (And.intro sized.stack sized.memory)
    simp only [setMember]
    split
    all_goals exact ⟨_, t, rfl, ⟨sizes.1, sizes.2.1, sizes.2.2⟩, table⟩
  name := by
    rintro x free v _ ⟨m, t, rfl, sized, table⟩
    obtain rfl := free x rfl
    exact ⟨m, v, rfl, sized, table⟩

theorem temporary_of_mild {t : Target} (member : t ∈ mild) : ∀ x, t = .name x → x = "t" := by
  rintro x rfl
  simpa [mild, quiet] using member

theorem tame_of_mild {c : Clause} (mild : c.Mild) : Tame c :=
  fun member => absurd (mild _ member) (by decide)

theorem tame_setNumber (f : String) (n : Nat) :
    Tame (.simple (.expr (setPhrase f (.number n)))) := by
  simp [Tame, Clause.stmt, Simple.stmt, Stmt.writes, setPhrase, runtime, Phrase.expr, Expr.writes,
    Expr.targets]

def pausing (i : Instruction) : List Clause :=
  if i.pauses then (pauseRow i).clauses else []

theorem tame_pausing (i : Instruction) : ∀ c ∈ pausing i, Tame c := by
  rw [pausing]
  split
  · simp [pauseRow, tame_setNumber]
  · simp

theorem paused_eq {i : Instruction} {e : Effect} {cs : List Clause} (found : e.paused i = some cs) :
    cs = pausing i ++ e.clauses := by
  rw [Effect.paused] at found
  rw [pausing]
  split at found
  next pauses =>
    rw [if_pos pauses]
    split at found
    · cases found
    · cases found
      rfl
  next goes =>
    cases found
    rw [if_neg goes]
    rfl

-- What a value is stored by or branched on: the same phrase, or the assignment of it.
def Carried (p : Profile) (i : Instruction) (e e' : Phrase) : Prop :=
  i.stores = false ∧ e' = e ∨ i.stores = true ∧ ∃ v, i.result = some v ∧ e' = assignPhrase p v e

theorem Carried.quiet {p : Profile} {i : Instruction} {e e' : Phrase} (carried : Carried p i e e')
    (value : e.Quiet) : e'.Quiet := by
  rcases carried with ⟨-, rfl⟩ | ⟨-, v, -, rfl⟩
  · exact value
  · exact quiet_assign value p v

theorem Carried.mild {p : Profile} {i : Instruction} {e e' : Phrase} (carried : Carried p i e e')
    (value : e.Mild) : e'.Mild := by
  rcases carried with ⟨-, rfl⟩ | ⟨-, v, -, rfl⟩
  · exact value
  · exact mild_assign value p v

theorem whole_of_value {p : Profile} {i : Instruction} {e : Phrase} {cs : List Clause}
    (found : (Effect.value e).whole p i = some cs) :
    ∃ e', Carried p i e e' ∧ (cs = pausing i ++ [Clause.simple (.expr e')] ∨
      ∃ b, i.branch = some b ∧ i.endsBlock = false ∧ cs = pausing i ++ [branchClause i b e']) := by
  simp only [Effect.whole, Option.bind_eq_bind, Option.bind_eq_some_iff] at found
  obtain ⟨stored, storing, branched, branching, pausing⟩ := found
  obtain ⟨e', carried, rfl⟩ : ∃ e', Carried p i e e' ∧ stored = .value e' := by
    rw [Effect.stored] at storing
    split at storing
    next stores =>
      obtain ⟨v, result, rfl⟩ := Option.map_eq_some_iff.mp storing
      exact ⟨_, .inr ⟨stores, v, result, rfl⟩, rfl⟩
    next keeps =>
      cases storing
      exact ⟨e, .inl ⟨Bool.eq_false_of_not_eq_true keeps, rfl⟩, rfl⟩
  refine ⟨e', carried, ?_⟩
  have parts := paused_eq pausing
  rw [Effect.branched] at branching
  split at branching
  · cases branching
    exact .inl parts
  next b branch =>
    split at branching
    · cases branching
      exact .inl parts
    next goes =>
      cases branching
      exact .inr ⟨b, branch, Bool.eq_false_of_not_eq_true goes, parts⟩

theorem whole_of_action {p : Profile} {i : Instruction} {as cs : List Clause}
    (keeps : i.stores = false) (straight : i.branch = none)
    (found : (Effect.action as).whole p i = some cs) : cs = pausing i ++ as := by
  simp only [Effect.whole, Effect.stored, keeps, Effect.branched, straight, Bool.false_eq_true,
    if_false, Option.bind_eq_bind, Option.bind_some] at found
  exact paused_eq found

theorem sense_cases {p : Profile} {n : Nat} {op : Op} {i : Instruction} (shaped : Shaped p n op i)
    {cs : List Clause} (found : sense p i = some cs) :
    (∃ e e', meant p i (i.operands.map operandPhrase) op = some (.value e) ∧ Carried p i e e' ∧
      (cs = pausing i ++ [Clause.simple (.expr e')] ∨
        ∃ b, i.branch = some b ∧ i.endsBlock = false ∧ cs = pausing i ++ [branchClause i b e'])) ∨
    ∃ as, meant p i (i.operands.map operandPhrase) op = some (.action as) ∧
      IsAction p.version op as ∧ cs = pausing i ++ as := by
  simp only [sense, shaped.known, Option.bind_eq_bind, Option.bind_some,
    Option.bind_eq_some_iff] at found
  obtain ⟨e, effected, whole⟩ := found
  cases e with
  | value e =>
    obtain ⟨e', carried, parts⟩ := whole_of_value whole
    exact .inl ⟨e, e', effected, carried, parts⟩
  | action as =>
    have action := isAction_of_meant effected
    have straight : i.branch = none := by simpa using shaped.branch.trans action.straight
    exact .inr ⟨as, effected, action,
      whole_of_action (shaped.stores.trans action.keeps) straight whole⟩

theorem mild_sense {p : Profile} {n : Nat} {op : Op} {i : Instruction} (shaped : Shaped p n op i)
    {cs : List Clause} (found : sense p i = some cs) :
    ∃ rest, cs = pausing i ++ rest ∧ ∀ c ∈ rest, c.Mild := by
  rcases sense_cases shaped found with ⟨e, e', effected, carried, parts⟩ | ⟨as, effected, -, rfl⟩
  · have value := carried.mild (mild_expr.mp (mild_meant effected _ (List.mem_singleton_self _)))
    rcases parts with rfl | ⟨b, -, -, rfl⟩
    · exact ⟨_, rfl, List.forall_mem_singleton.mpr (mild_expr.mpr value)⟩
    · exact ⟨_, rfl, List.forall_mem_singleton.mpr (mild_branch value i b)⟩
  · exact ⟨as, rfl, mild_meant effected⟩

theorem tame_sense {p : Profile} {n : Nat} {op : Op} {i : Instruction} (shaped : Shaped p n op i)
    {cs : List Clause} (found : sense p i = some cs) : ∀ c ∈ cs, Tame c := by
  obtain ⟨rest, rfl, mild⟩ := mild_sense shaped found
  exact List.forall_mem_append.mpr ⟨tame_pausing i, fun c member => tame_of_mild (mild c member)⟩

theorem writesAll_stmts (cs : List Clause) :
    Stmt.writesAll (Clause.stmts cs) = cs.flatMap fun c => c.stmt.writes := by
  induction cs with
  | nil => rfl
  | cons c rest ih =>
    cases rest with
    | nil => cases end_ : c.needsEnd <;> simp [Clause.stmts, end_, Stmt.writesAll, Stmt.writes]
    | cons next rest =>
      rw [Clause.stmts, Stmt.writesAll, ih]
      rfl

theorem bound_of_line {p : Profile} {n : Nat} {op : Op} {i : Instruction} (shaped : Shaped p n op i)
    {cs : List Clause} (found : sense p i = some cs) {s s' : State} {c : Completion}
    (bound : Bound s) (ran : Gives (execAll (Clause.stmts cs)) s c s') : Bound s' := by
  have free : .name "e" ∉ Stmt.writesAll (Clause.stmts cs) := by
    rw [writesAll_stmts, List.mem_flatMap]
    rintro ⟨c, member, at_⟩
    exact tame_sense shaped found c member at_
  exact ((keeps_execAll _ free).gives ran).trans bound

theorem gives_stmts_iff {cs : List Clause} {s s' : State} {c : Completion} :
    Gives (execAll (Clause.stmts cs)) s c s' ↔ Gives (execAll (cs.map Clause.stmt)) s c s' := by
  have empty {s s' : State} {c : Completion} :
      Gives (execAll [.empty]) s c s' ↔ Gives (execAll []) s c s' := by
    rw [gives_singleton_iff]
    exact Iff.rfl
  induction cs generalizing s with
  | nil => exact empty
  | cons first rest ih =>
    cases rest with
    | nil =>
      cases end_ : first.needsEnd
      · have line : Clause.stmts [first] = [first.stmt, .empty] := by simp [Clause.stmts, end_]
        rw [line, List.map_cons, List.map_nil, gives_cons_iff, gives_cons_iff]
        simp only [empty]
      · simp [Clause.stmts, end_]
    | cons next rest =>
      rw [Clause.stmts, List.map_cons, gives_cons_iff, gives_cons_iff]
      simp only [ih]

theorem gives_set {s s' : State} (bound : Bound s) {e : Phrase} {x : Value}
    (ran : Gives (eval (setPhrase "pc" e).expr) s x s') :
    s'.machine.pc = x ∧ ∃ s₁, Gives (eval e.expr) s x s₁ := by
  obtain ⟨q, s₁, s₂, located, value, written⟩ := gives_assign_iff.mp ran
  have place : Gives (evalPlace (runtime "pc").expr) s (.member (.object .runtime) "pc") s :=
    Gives.placeMember (gives_name bound)
  obtain ⟨rfl, rfl⟩ := located.unique place
  cases written
  exact ⟨rfl, s₂, value⟩

theorem pc_of_set {s s' : State} (bound : Bound s) {a : Nat} {c : Completion}
    (ran : Gives (exec (.expr (setPhrase "pc" (.number a)).expr)) s c s') :
    c = .normal ∧ s'.machine.pc = .ofInt a := by
  obtain ⟨rfl, x, value⟩ := gives_expr_iff.mp ran
  obtain ⟨written, s₁, number⟩ := gives_set bound value
  obtain ⟨rfl, -⟩ := gives_pure_iff.mp number
  exact ⟨rfl, written⟩

-- The arguments of a host call are what its record holds, and it has the value 0.
theorem gives_host {s s' : State} (bound : Bound s) {method : String} {ops : List Phrase}
    {x : Value} (lacking : ∀ m, runtimeMember m method = .object (.method (.host method)))
    (ran : Gives (eval (hostPhrase method ops).expr) s x s') :
    x = .ofInt 0 ∧ ∃ vs s₁, Gives (evalAll (Phrase.exprs ops)) s vs s₁ ∧
      s'.machine.calls = ⟨method, Value.recordedAll vs⟩ :: s₁.machine.calls := by
  obtain ⟨v, vs, s₁, s₂, callee, inside, applied⟩ := gives_call_iff.mp ran
  have found : Gives (eval (runtime method).expr) s (runtimeMember s.machine method) s :=
    (gives_name bound).member rfl
  obtain ⟨rfl, rfl⟩ := callee.unique found
  rw [lacking] at applied
  cases applied
  exact ⟨rfl, vs, s₂, inside, rfl⟩

section Lines

variable {p : Profile} {n : Nat} {op : Op} {i : Instruction} {s s' : State} {c : Completion}

theorem normal_of_exprs {cs : List Clause} (exprs : ∀ c ∈ cs, ∃ e, c = .simple (.expr e))
    (ran : Gives (execAll (cs.map Clause.stmt)) s c s') : c = .normal := by
  induction cs generalizing s with
  | nil => exact (gives_pure_iff.mp ran).1.symm
  | cons first rest ih =>
    obtain ⟨e, rfl⟩ := exprs first (by simp)
    rcases gives_cons_iff.mp ran with ⟨s₁, -, later⟩ | ⟨v, rfl, first⟩
    · exact ih (fun c member => exprs c (by simp [member])) later
    · exact (gives_expr_iff.mp first).1

theorem gives_pausing {cs : List Clause} (bound : Bound s)
    (ran : Gives (execAll ((pausing i ++ cs).map Clause.stmt)) s c s') :
    ∃ s₁, Bound s₁ ∧ (i.pauses = true → s₁.machine.pc = .ofInt i.next.toNat) ∧
      Gives (execAll (cs.map Clause.stmt)) s₁ c s' := by
  rw [pausing] at ran
  split at ran
  next pauses =>
    rw [List.map_append, gives_append_iff] at ran
    have exprs : ∀ c ∈ (pauseRow i).clauses, ∃ e, c = .simple (.expr e) := by
      simp [pauseRow]
    rcases ran with ⟨s₁, before, later⟩ | ⟨v, rfl, before⟩
    · rcases gives_cons_iff.mp before with ⟨s₂, stopped, resumed⟩ | ⟨_, impossible, _⟩
      · have resumed := gives_singleton_iff.mp resumed
        have held : Bound s₂ :=
          ((keeps_exec _ (tame_setNumber "stop" 1)).gives stopped).trans bound
        have after : Bound s₁ :=
          ((keeps_exec _ (tame_setNumber "pc" i.next.toNat)).gives resumed).trans held
        exact ⟨s₁, after, fun _ => (pc_of_set held resumed).2, later⟩
      · cases impossible
    · cases normal_of_exprs exprs before
  next goes => exact ⟨s, bound, fun pauses => absurd pauses goes, ran⟩

theorem leaves_of_branch {b : Branch} {e : Phrase} (bound : Bound s) (mild : e.Mild)
    (ran : Gives (exec (branchClause i b e).stmt) s c s') :
    c = .normal ∨ b.returns = true ∨
      s'.machine.pc = .ofInt (i.jumpTarget b.offset.toInt).toNat := by
  obtain ⟨v, s₁, tested, ran⟩ := gives_when_iff.mp ran
  split at ran
  · right
    by_cases returns : b.returns = true
    · exact .inl returns
    · right
      have tame := tame_of_mild (mild_expr.mpr (mild_test mild b))
      have held := ((keeps_eval tame).gives tested).trans bound
      have body : (leave i b).map Simple.stmt = [.expr (setPhrase "pc"
          (.number (i.jumpTarget b.offset.toInt).toNat)).expr, .ret none] := by
        rw [leave, if_neg returns]
        rfl
      have ran : Gives (execAll ((leave i b).map Simple.stmt)) s₁ c s' := ran
      rw [body] at ran
      rcases gives_cons_iff.mp ran with ⟨s₂, first, last⟩ | ⟨_, _, first⟩
      · cases last
        exact (pc_of_set held first).2
      · cases (pc_of_set held first).1
  · exact .inl ran.1

theorem leaves_of_line (shaped : Shaped p n op i) {cs : List Clause} (found : sense p i = some cs)
    (bound : Bound s) {v : Value} (ran : Gives (execAll (Clause.stmts cs)) s (.returned v) s') :
    i.givesValue = true ∨ ∃ a, i.destination? = some a ∧ s'.machine.pc = .ofInt a.toNat := by
  rw [gives_stmts_iff] at ran
  rcases sense_cases shaped found with ⟨e, e', effected, carried, parts⟩ | ⟨as, -, action, rfl⟩
  · have value := carried.mild (mild_expr.mp (mild_meant effected _ (List.mem_singleton_self _)))
    rcases parts with rfl | ⟨b, branch, -, rfl⟩
    · obtain ⟨s₁, -, -, later⟩ := gives_pausing bound ran
      cases normal_of_exprs (by simp) later
    · obtain ⟨s₁, held, -, later⟩ := gives_pausing bound ran
      by_cases returns : b.returns = true
      · left
        simp [Instruction.givesValue, branch, returns]
      · right
        rcases leaves_of_branch held value (gives_singleton_iff.mp later) with
          impossible | returned | at_
        · cases impossible
        · exact absurd returned returns
        · exact ⟨_, by simp [Instruction.destination?, branch, returns], at_⟩
  · obtain ⟨s₁, held, -, later⟩ := gives_pausing bound ran
    by_cases returns : op.returnsValue = true
    · left
      simp [Instruction.givesValue, shaped.known, returns]
    · rcases action.goes (Bool.eq_false_of_not_eq_true returns) with exprs | rfl
      · cases normal_of_exprs exprs later
      · -- the host has nothing to restore, so the test fails
        obtain ⟨x, s₂, tested, body⟩ := gives_when_iff.mp (gives_singleton_iff.mp later)
        obtain ⟨rfl, -⟩ := gives_host held (fun _ => rfl) tested
        cases body.1

theorem not_normal_of_ret {before : List Clause} {e : Phrase}
    (ran : Gives (execAll ((before ++ [Clause.simple (.ret (some e))]).map Clause.stmt)) s c s') :
    c ≠ .normal := by
  rintro rfl
  rw [List.map_append, gives_append_iff] at ran
  rcases ran with ⟨s₁, -, last⟩ | ⟨v, impossible, -⟩
  · obtain ⟨v, impossible, -⟩ := gives_ret_iff.mp (gives_singleton_iff.mp last)
    cases impossible
  · cases impossible

theorem pc_of_quiet {cs : List Clause} (quiet : ∀ c ∈ cs, c.Quiet)
    (ran : Gives (execAll (cs.map Clause.stmt)) s c s') : s'.machine.pc = s.machine.pc := by
  have free : .field "pc" ∉ Stmt.writesAll (cs.map Clause.stmt) := by
    rw [Stmt.writesAll_eq, List.flatMap_map, List.mem_flatMap]
    rintro ⟨c, member, at_⟩
    exact absurd (quiet c member _ at_) (by decide)
  exact Option.some.inj ((keeps_execAll _ free).gives ran)

theorem ends_cases {version : UInt8} (ends : (shapeOf version op).endsBlock = true) :
    (shapeOf version op).pauses = true ∨ op.isCall version = true ∨ op.returnsValue = true ∨
      op = .restart ∨ op = .jump ∨ op = .outputStream := by
  cases op with
  | notOrCall1n =>
    by_cases old : version < 5
    · simp [shapeOf_notOrCall1n, old, Shape.storing] at ends
    · exact .inr (.inl (decide_eq_true (UInt8.not_lt.mp old)))
  | popOrCatch =>
    by_cases old : version < 5 <;> simp [shapeOf_popOrCatch, old, Shape.storing] at ends
  | save | restore =>
    left
    by_cases old : version < 4 <;>
      simp [shapeOf_save, shapeOf_restore, old, Shape.branchingAndPausing, Shape.storingAndPausing]
  | read =>
    left
    by_cases old : version < 5 <;>
      simp [shapeOf_read, old, Shape.pausing, Shape.storingAndPausing]
  | showStatus =>
    left
    by_cases old : version < 4
    · simp [shapeOf_showStatus, old, Shape.pausing]
    · simp [shapeOf_showStatus, old] at ends
  | quit | inputStream | readChar | saveTable | restoreTable => exact .inl rfl
  | call2s | call2n | call1s | callVs | callVs2 | callVn | callVn2 => exact .inr (.inl rfl)
  | throw | ret | rtrue | rfalse | printRet | retPopped => exact .inr (.inr (.inl rfl))
  | restart | jump | outputStream => simp
  | _ => cases ends

theorem meant_of_isCall (i : Instruction) (ops : List Phrase)
    (isCall : op.isCall p.version = true) :
    meant p i ops op = some (.value (callPhrase i ops)) ∧ shapeOf p.version op = .ends := by
  cases op with
  | call2s | call2n | call1s | callVs | callVs2 | callVn | callVn2 => exact ⟨rfl, rfl⟩
  | notOrCall1n =>
    have new : ¬ p.version < 5 := UInt8.not_lt.mpr (of_decide_eq_true isCall)
    simp [meant, effect, shapeOf_notOrCall1n, new]
  | _ => cases isCall

-- The number that a call hands to the host for its store variable.
def storer (i : Instruction) : Int :=
  i.result.elim (-1) fun v => v.toNat

theorem gives_storer (i : Instruction) : Gives (eval (match i.result with
    | some v => Phrase.number v.toNat
    | none => minusOne).expr) s (.ofInt (storer i)) s := by
  rw [storer]
  cases i.result with
  | none => exact gives_integer (.negSucc 0)
  | some v => exact gives_number v.toNat

theorem sense_of_isCall (shaped : Shaped p n op i) (isCall : op.isCall p.version = true) :
    sense p i = some [.simple (.expr (callPhrase i (i.operands.map operandPhrase)))] := by
  obtain ⟨effected, shape⟩ := meant_of_isCall i (i.operands.map operandPhrase) isCall
  have keeps : i.stores = false := shaped.stores.trans (by rw [shape]; rfl)
  have straight : i.branch = none := by simpa [shape, Shape.ends] using shaped.branch
  have goes : i.pauses = false := shaped.pauses.trans (by rw [shape]; rfl)
  simp only [sense, shaped.known, effected, Effect.whole, Effect.stored, keeps, Effect.branched,
    straight, Effect.paused, goes, Effect.clauses, Option.bind_eq_bind, Option.bind_some,
    Bool.false_eq_true, if_false]

theorem calls_of_line (shaped : Shaped p n op i) (isCall : op.isCall p.version = true)
    {cs : List Clause} (found : sense p i = some cs) (bound : Bound s)
    (ran : Gives (execAll (Clause.stmts cs)) s c s') :
    c = .normal ∧ ∃ routine arguments earlier, s'.machine.calls =
      ⟨"call", Value.recordedAll [routine, .ofInt (storer i), .ofInt i.next.toNat,
        .array arguments]⟩ :: earlier := by
  rw [sense_of_isCall shaped isCall] at found
  cases found
  rw [gives_stmts_iff] at ran
  obtain ⟨rfl, x, value⟩ := gives_expr_iff.mp (gives_singleton_iff.mp ran)
  refine ⟨rfl, ?_⟩
  obtain ⟨-, vs, s₁, inside, calls⟩ := gives_host bound (fun _ => rfl) value
  simp only [Phrase.exprs] at inside
  obtain ⟨routine, _, s₂, -, others, rfl⟩ := gives_evalAll_cons_iff.mp inside
  obtain ⟨variable_, _, s₃, stored, behind, rfl⟩ := gives_evalAll_cons_iff.mp others
  obtain ⟨address, _, s₄, next, last, rfl⟩ := gives_evalAll_cons_iff.mp behind
  obtain ⟨list, _, s₅, array, done, rfl⟩ := gives_evalAll_cons_iff.mp last
  obtain ⟨rfl, -⟩ := gives_pure_iff.mp done
  obtain ⟨rfl, -⟩ := gives_pure_iff.mp next
  obtain ⟨arguments, _, -, made⟩ := gives_bind_iff.mp array
  obtain ⟨rfl, -⟩ := gives_pure_iff.mp made
  have number : variable_ = .ofInt (storer i) := (stored.unique (gives_storer i)).1
  exact ⟨routine, arguments, _, number ▸ calls⟩

theorem quiet_sense (shaped : Shaped p n op i) (ends : i.endsBlock = true) (noJump : op ≠ .jump)
    (noStream : op ≠ .outputStream) {cs : List Clause} (found : sense p i = some cs) :
    ∃ rest, cs = pausing i ++ rest ∧ ∀ c ∈ rest, c.Quiet := by
  rcases sense_cases shaped found with ⟨e, e', effected, carried, parts⟩ | ⟨as, effected, -, rfl⟩
  · have quiet := quiet_meant (quiet_operands i) noJump noStream effected
    have value := carried.quiet (Clause.quiet_expr.mp (quiet _ (List.mem_singleton_self _)))
    rcases parts with rfl | ⟨b, -, goes, -⟩
    · exact ⟨_, rfl, List.forall_mem_singleton.mpr (Clause.quiet_expr.mpr value)⟩
    · rw [ends] at goes
      cases goes
  · exact ⟨as, rfl, quiet_meant (quiet_operands i) noJump noStream effected⟩

theorem pc_of_pausing (shaped : Shaped p n op i) (pauses : i.pauses = true)
    (ends : i.endsBlock = true) (noJump : op ≠ .jump) (noStream : op ≠ .outputStream)
    {cs : List Clause} (found : sense p i = some cs) (bound : Bound s)
    (ran : Gives (execAll (Clause.stmts cs)) s c s') : s'.machine.pc = .ofInt i.next.toNat := by
  rw [gives_stmts_iff] at ran
  obtain ⟨rest, rfl, quiet⟩ := quiet_sense shaped ends noJump noStream found
  obtain ⟨s₁, -, resumed, later⟩ := gives_pausing bound ran
  exact (pc_of_quiet quiet later).trans (resumed pauses)

-- The object whose method would end the game is not there, so quitting throws.
theorem not_gives_quit (shaped : Shaped p n .quit i) {cs : List Clause}
    (found : sense p i = some cs) (bound : Bound s) :
    ¬ Gives (execAll (Clause.stmts cs)) s c s' := by
  intro ran
  rw [gives_stmts_iff] at ran
  rcases sense_cases shaped found with ⟨e, e', effected, -, -⟩ | ⟨as, effected, -, rfl⟩
  · cases effected
  · cases effected
    obtain ⟨s₁, held, -, later⟩ := gives_pausing bound ran
    rcases gives_cons_iff.mp later with ⟨s₂, first, last⟩ | ⟨v, -, first⟩
    · have again : Bound s₂ := ((keeps_exec _ (tame_setNumber "quit" 1)).gives first).trans held
      obtain ⟨-, x, value⟩ := gives_expr_iff.mp (gives_singleton_iff.mp last)
      obtain ⟨v, vs, s₃, s₄, callee, -, applied⟩ := gives_call_iff.mp value
      have missing :
          Gives (eval (Phrase.member (runtime "Glk") "glk_exit").expr) s₂ .undefined s₂ :=
        ((gives_name again).member rfl).member rfl
      obtain ⟨rfl, -⟩ := callee.unique missing
      exact not_gives_throw applied
    · cases (gives_expr_iff.mp first).1

theorem not_normal_of_returnsValue (shaped : Shaped p n op i) (returns : op.returnsValue = true)
    {cs : List Clause} (found : sense p i = some cs) (bound : Bound s)
    (ran : Gives (execAll (Clause.stmts cs)) s c s') : c ≠ .normal := by
  rw [gives_stmts_iff] at ran
  rcases sense_cases shaped found with ⟨e, e', effected, -, -⟩ | ⟨as, -, action, rfl⟩
  · cases op with
    | ret | rtrue | rfalse | retPopped | throw => cases effected
    | printRet =>
      obtain ⟨_, _, same⟩ := Option.map_eq_some_iff.mp effected
      cases same
    | _ => cases returns
  · obtain ⟨before, e, rfl⟩ := action.returns returns
    obtain ⟨s₁, -, -, later⟩ := gives_pausing bound ran
    exact not_normal_of_ret later

theorem pc_of_stream (shaped : Shaped p n .outputStream i) {cs : List Clause}
    (found : sense p i = some cs) (bound : Bound s)
    (ran : Gives (execAll (Clause.stmts cs)) s c s') : s'.machine.pc = .ofInt i.next.toNat := by
  rw [gives_stmts_iff] at ran
  rcases sense_cases shaped found with ⟨e, e', effected, -, -⟩ | ⟨as, effected, -, rfl⟩
  · cases effected
  · cases effected
    obtain ⟨s₁, held, -, later⟩ := gives_pausing bound ran
    rcases gives_cons_iff.mp later with ⟨s₂, first, last⟩ | ⟨v, -, first⟩
    · have quiet : ∀ c ∈ [Clause.simple (.expr (hostPhrase "output_stream"
          (i.operands.map operandPhrase)))], c.Quiet :=
        List.forall_mem_singleton.mpr (Clause.quiet_expr.mpr (quiet_host (quiet_operands i) _))
      exact (pc_of_quiet quiet last).trans (pc_of_set held first).2
    · cases (pc_of_set held first).1

theorem pc_of_jump (shaped : Shaped p n .jump i) {offset : UInt16}
    (constant : i.operands = [⟨.signedConstant, offset⟩]) {cs : List Clause}
    (found : sense p i = some cs) (bound : Bound s)
    (ran : Gives (execAll (Clause.stmts cs)) s c s') :
    UInt32.ofInt s'.machine.pc.toInt = i.jumpTarget offset.toInt16.toInt := by
  rw [gives_stmts_iff] at ran
  rcases sense_cases shaped found with ⟨e, e', effected, carried, parts⟩ | ⟨as, effected, -, rfl⟩
  · cases effected
    have keeps : i.stores = false := shaped.stores
    have straight : i.branch.isSome = false := shaped.branch
    rcases carried with ⟨-, rfl⟩ | ⟨stores, -⟩
    · rcases parts with rfl | ⟨b, branch, -, -⟩
      · obtain ⟨s₁, held, -, later⟩ := gives_pausing bound ran
        obtain ⟨-, x, value⟩ := gives_expr_iff.mp (gives_singleton_iff.mp later)
        obtain ⟨written, s₂, sum⟩ := gives_set held value
        obtain ⟨v, w, s₃, left, right, rfl⟩ := gives_binary_iff.mp sum
        rw [constant] at left
        obtain ⟨rfl, -⟩ := left.unique (gives_integer offset.toInt16.toInt)
        obtain ⟨rfl, -⟩ := right.unique (gives_integer ((i.next.toNat : Int) - 2))
        have bounds := Word.toInt16_bounds offset
        have address := i.next.toNat_lt
        rw [written, applyBinary_add (by omega), Value.toInt_ofInt, Instruction.jumpTarget]
        congr 1
        omega
      · simp [branch] at straight
    · rw [keeps] at stores
      cases stores
  · cases effected

end Lines

end ZCode.Statement
