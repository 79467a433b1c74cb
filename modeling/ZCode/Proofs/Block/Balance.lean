import ZCode.Proofs.Block.Flow
import ZCode.Proofs.Block.Shift

set_option autoImplicit false

namespace ZCode

def Operand.onStack (op : Operand) : Bool :=
  match op.kind with
  | .stack | .signedStack => true
  | _ => false

namespace Op

def places (version : UInt8) (given : Nat) : Op → Nat
  | .storew | .storeb => 3
  | .decChk | .incChk | .store | .loadw | .loadb | .getNextProp | .div | .throw | .setCursor => 2
  | .jz | .inc | .dec | .printAddr | .printObj | .ret | .jump | .printPaddr | .load | .printChar
  | .printNum | .push | .pull | .not | .checkArgCount | .printUnicode => 1
  | .notOrCall1n => if version < 5 then 1 else given
  | .rtrue | .rfalse | .print | .printRet | .nop | .save | .restore | .restart | .retPopped
  | .popOrCatch | .quit | .newLine | .showStatus | .verify | .piracy | .bufferMode | .soundEffect
  | .saveTable | .restoreTable | .saveUndo | .restoreUndo | .checkUnicode => 0
  | _ => given

def pushes : Op → Nat
  | .push => 1
  | _ => 0

def pops (version : UInt8) : Op → Nat
  | .pull | .retPopped => 1
  | .popOrCatch => if version < 5 then 1 else 0
  | _ => 0

end Op

end ZCode

namespace ZCode.Statement

open ZCode.Script

theorem steady_integer (n : Int) : (integer n).Steady := by
  cases n <;> simp [integer]

theorem moves_integer (up : Bool) (n : Int) : (integer n).moves up = 0 := by
  cases n <;> simp [integer]

theorem steady_popped : popped.Steady := by
  simp only [popped, Phrase.steady_index, Phrase.steady_name, Phrase.steady_decrement, true_and]
  rfl

theorem moves_popped (up : Bool) : popped.moves up = (!up).toNat := by
  simp [popped]

theorem steady_push : pushPhrase.Steady := by
  simp only [pushPhrase, Phrase.steady_assign, Phrase.steady_index, Phrase.steady_increment,
    Phrase.steady_name, Phrase.expr, Expr.targets, List.not_mem_nil, not_false_eq_true, true_and,
    and_true]
  rfl

theorem moves_push (up : Bool) : pushPhrase.moves up = up.toNat := by
  simp [pushPhrase]

theorem steady_operand (op : Operand) : (operandPhrase op).Steady := by
  obtain ⟨kind, value⟩ := op
  cases kind with
  | signedConstant => exact steady_integer _
  | _ => simp [operandPhrase, steady_popped, slot, signExtended, memory, runtime]

theorem moves_operand (up : Bool) (op : Operand) :
    (operandPhrase op).moves up = (!up && op.onStack).toNat := by
  obtain ⟨kind, value⟩ := op
  cases kind with
  | signedConstant => simp [operandPhrase, moves_integer, Operand.onStack]
  | _ =>
    simp [operandPhrase, moves_popped, slot, signExtended, memory, runtime, Operand.onStack]

section Operands

variable (ops : List Operand) (up : Bool)

theorem steady_operands : ∀ e ∈ ops.map operandPhrase, e.Steady := by
  intro e member
  obtain ⟨op, -, rfl⟩ := List.mem_map.mp member
  exact steady_operand op

theorem moves_operands :
    ((ops.map operandPhrase).map (Phrase.moves up)).sum =
      if up then 0 else ops.countP Operand.onStack := by
  induction ops with
  | nil => cases up <;> rfl
  | cons op rest ih =>
    rw [List.map_cons, List.map_cons, List.sum_cons, ih, moves_operand, List.countP_cons]
    cases up <;> cases op.onStack <;> simp [Nat.add_comm]

theorem nthPhrase_operands (k : Nat) : nthPhrase (ops.map operandPhrase) k =
    (ops[k]?.map operandPhrase).getD .null := by
  rw [nthPhrase, List.getD_eq_getElem?_getD, List.getElem?_map]

theorem steady_nth (k : Nat) : (nthPhrase (ops.map operandPhrase) k).Steady := by
  rw [nthPhrase_operands]
  cases ops[k]? with
  | none => exact Phrase.steady_null
  | some op => exact steady_operand op

theorem moves_nth (k : Nat) : (nthPhrase (ops.map operandPhrase) k).moves up =
    (!up && ops[k]?.any Operand.onStack).toNat := by
  rw [nthPhrase_operands]
  cases ops[k]? with
  | none => cases up <;> rfl
  | some op => exact moves_operand up op

theorem countP_take_succ (k : Nat) : (ops.take (k + 1)).countP Operand.onStack =
    (ops.take k).countP Operand.onStack + (nthPhrase (ops.map operandPhrase) k).moves false := by
  rw [List.take_add_one, List.countP_append, moves_nth]
  cases ops[k]? with
  | none => rfl
  | some op => cases found : op.onStack <;> simp [found]

theorem moves_nth_up (k : Nat) : (nthPhrase (ops.map operandPhrase) k).moves true = 0 :=
  moves_nth ops true k

end Operands

structure Counted (up down : Nat) (e : Phrase) : Prop where
  steady : e.Steady
  up : e.moves true = up
  down : e.moves false = down

section Counted

variable {u d u' d' : Nat} {e : Phrase}

theorem Counted.expr (counted : Counted u d e) : Shifts u d (exec (.expr e.expr)) := by
  obtain ⟨steady, rfl, rfl⟩ := counted
  exact shifts_expr steady

theorem Counted.ret (counted : Counted u d e) : Shifts u d (execAll [.ret (some e.expr)]) := by
  obtain ⟨steady, rfl, rfl⟩ := counted
  exact shifts_singleton (shifts_ret steady)

theorem Counted.when (counted : Counted u d e) {st : Stmt} (body : Shifts 0 0 (exec st)) :
    Shifts u d (execAll [.when e.expr st]) := by
  obtain ⟨steady, rfl, rfl⟩ := counted
  exact shifts_singleton (shifts_when steady body)

theorem Counted.andThen (counted : Counted u d e) {rest : List Stmt}
    (later : Shifts u' d' (execAll rest)) :
    Shifts (u + u') (d + d') (execAll (.expr e.expr :: rest)) :=
  counted.expr.cons later fun _ _ _ given => (gives_expr_iff.mp given).1

theorem counted_number (n : Nat) : Counted 0 0 (.number n) :=
  ⟨Phrase.steady_number n, rfl, rfl⟩

theorem counted_host (method : String) (es : List Phrase) (steady : ∀ e ∈ es, e.Steady) :
    Counted ((es.map (Phrase.moves true)).sum) ((es.map (Phrase.moves false)).sum)
      (hostPhrase method es) := by
  constructor
  · simpa [hostPhrase, runtime] using steady
  · simp [hostPhrase, runtime]
  · simp [hostPhrase, runtime]

theorem counted_set (field : String) (other : field ≠ "sp") (counted : Counted u d e) :
    Counted u d (setPhrase field e) := by
  constructor
  · simpa [setPhrase, runtime, Phrase.expr, Expr.targets, other.symm] using counted.steady
  · simpa [setPhrase, runtime] using counted.up
  · simpa [setPhrase, runtime] using counted.down

end Counted

section Chained

variable {o : BinaryOp} {a : Phrase} {rest : List Phrase}

theorem steady_chained (first : a.Steady) (others : ∀ e ∈ rest, e.Steady) :
    (rest.foldl (.binary o) a).Steady := by
  induction rest generalizing a with
  | nil => exact first
  | cons b rest ih =>
    exact ih (Phrase.steady_binary.mpr ⟨first, others b (by simp)⟩) fun e member =>
      others e (by simp [member])

theorem moves_chained (up : Bool) : (rest.foldl (.binary o) a).moves up =
    a.moves up + (rest.map (Phrase.moves up)).sum := by
  induction rest generalizing a with
  | nil => rfl
  | cons b rest ih => simp [ih, Nat.add_assoc]

end Chained

section Effects

variable {p : Profile} {i : Instruction} {ops : List Operand} {op : Op}

theorem counted_all (ops : List Operand) (method : String) :
    Counted 0 (ops.countP Operand.onStack) (hostPhrase method (ops.map operandPhrase)) := by
  have counted := counted_host method _ (steady_operands ops)
  simpa only [moves_operands, if_true, Bool.false_eq_true, if_false] using counted

theorem counted_call (ops : List Operand) (i : Instruction) :
    Counted 0 (ops.countP Operand.onStack) (callPhrase i (ops.map operandPhrase)) := by
  have steady : ∀ e ∈ (ops.map operandPhrase).tail, e.Steady :=
    fun e member => steady_operands ops e (List.mem_of_mem_tail member)
  -- the routine stands in front of its arguments, `null` if it is missing
  have all (up : Bool) : (nthPhrase (ops.map operandPhrase) 0).moves up +
      ((ops.map operandPhrase).tail.map (Phrase.moves up)).sum =
        if up then 0 else ops.countP Operand.onStack := by
    rw [← moves_operands]
    cases ops <;> rfl
  constructor
  · cases result : i.result <;>
      simpa [callPhrase, result, hostPhrase, runtime, minusOne, steady_nth ops 0] using steady
  · have up := all true
    cases result : i.result <;> simpa [callPhrase, result, hostPhrase, runtime, minusOne] using up
  · have down := all false
    cases result : i.result <;> simpa [callPhrase, result, hostPhrase, runtime, minusOne] using down

theorem counted_chained {o : BinaryOp} {e : Phrase}
    (found : chained o (ops.map operandPhrase) = some (.value e)) :
    Counted 0 (ops.countP Operand.onStack) e := by
  cases ops with
  | nil => cases found
  | cons first rest =>
    cases found
    have all (up : Bool) := moves_operands (first :: rest) up
    rw [List.map_cons] at all
    refine ⟨steady_chained (steady_operand first) (steady_operands rest), ?_, ?_⟩
    · rw [moves_chained]
      exact all true
    · rw [moves_chained]
      exact all false

theorem counted_effect {e : Phrase} (found : effect p i (ops.map operandPhrase) op = some (.value e)) :
    Counted 0 (op.pops p.version +
      (ops.take (op.places p.version ops.length)).countP Operand.onStack) e := by
  have nth := steady_nth ops
  have noPush := moves_nth_up ops
  have one := countP_take_succ ops 0
  have two := countP_take_succ ops 1
  have three := countP_take_succ ops 2
  -- the table of places is unfolded as a whole: the equation of its last line is slow to come by
  cases op with
  | jin | test | testAttr | setAttr | clearAttr | insertObj | getProp | getPropAddr | setColour
  | getSibling | getChild | getParent | getPropLen | removeObj | putProp | random | splitWindow
  | setWindow | eraseWindow | eraseLine | getCursor | setTextStyle | inputStream | scanTable
  | tokenise | encodeText | copyTable | printTable | logShift | artShift | setFont | setTrueColour
  | gestalt =>
    cases found
    simpa [Op.pops, Op.places.eq_def] using counted_all ops _
  | call2s | call2n | call1s | callVs | callVs2 | callVn | callVn2 =>
    cases found
    simpa [Op.pops, Op.places.eq_def] using counted_call ops i
  | jl | jg | or | and | add | sub | mul | mod =>
    simpa [Op.pops, Op.places.eq_def] using counted_chained found
  | decChk | incChk | store | loadw | loadb | getNextProp | div | jz | inc | dec | printAddr
  | printObj | printPaddr | load | restart | newLine | verify | piracy | storew | storeb | printChar
  | printNum | pull | setCursor | not | checkArgCount | printUnicode | checkUnicode | save
  | saveTable | restore | restoreTable =>
    cases found
    constructor <;>
      simp [hostPhrase, memory, signExtended, runtime, minusOne, steady_popped, moves_popped, nth,
        noPush, Op.pops, Op.places.eq_def, one, two, three, Nat.add_comm, Nat.add_assoc]
  | jump =>
    cases found
    constructor <;>
      simp [setPhrase, runtime, nth, noPush, steady_integer, moves_integer, Phrase.expr,
        Expr.targets, Op.pops, Op.places.eq_def, one]
  | je =>
    cases found
    have whole := counted_all ops "jeq"
    rcases ops with _ | ⟨a, _ | ⟨b, _ | ⟨c, rest⟩⟩⟩
    case cons.cons.nil =>
      have all (up : Bool) := moves_operands [a, b] up
      refine ⟨⟨steady_operand a, steady_operand b⟩, ?_, ?_⟩
      · simpa using all true
      · simpa [Op.pops, Op.places.eq_def] using all false
    all_goals simpa [Op.pops, Op.places.eq_def] using whole
  | notOrCall1n =>
    cases found
    by_cases old : p.version < 5
    · constructor <;> simp [old, nth, noPush, Op.pops, Op.places.eq_def, one]
    · simpa [old, Op.pops, Op.places.eq_def] using counted_call ops i
  | popOrCatch =>
    cases found
    by_cases old : p.version < 5
    · constructor <;> simp [old, steady_popped, moves_popped, Op.pops, Op.places.eq_def]
    · constructor <;> simp [old, depthPhrase, runtime, Op.pops, Op.places.eq_def]
  | showStatus =>
    by_cases old : p.version < 4
    · simp only [effect, if_pos old, Option.some.injEq, Effect.value.injEq] at found
      subst found
      simpa [Op.pops, Op.places.eq_def] using counted_host "v3_status" [] (by simp)
    · simp [effect, old] at found
  | print | printRet | saveUndo =>
    obtain ⟨_, _, same⟩ := Option.map_eq_some_iff.mp found
    cases same <;> constructor <;> simp [hostPhrase, runtime, Op.pops, Op.places.eq_def]
  | readChar =>
    obtain ⟨v, _, same⟩ := Option.map_eq_some_iff.mp found
    cases same
    cases ops with
    | nil => constructor <;> simp [hostPhrase, runtime, Op.pops, Op.places.eq_def]
    | cons first rest =>
      have all (up : Bool) := moves_operands (first :: rest) up
      have steady := steady_operands (first :: rest)
      constructor
      · simpa [hostPhrase, runtime] using steady
      · simpa [hostPhrase, runtime] using all true
      · simpa [hostPhrase, runtime, Op.pops, Op.places.eq_def] using all false
  | read =>
    simp only [effect] at found
    split at found
    · cases found
    obtain ⟨v, _, same⟩ := Option.map_eq_some_iff.mp found
    cases same
    have all (up : Bool) := moves_operands ops up
    have steady := steady_operands ops
    constructor
    · simpa [hostPhrase, runtime] using steady
    · simpa [hostPhrase, runtime] using all true
    · simpa [hostPhrase, runtime, Op.pops, Op.places.eq_def] using all false
  | _ => cases found

theorem counted_meant {e : Phrase} (found : meant p i (ops.map operandPhrase) op = some (.value e)) :
    Counted 0 (op.pops p.version +
      (ops.take (op.places p.version ops.length)).countP Operand.onStack) e := by
  rw [meant] at found
  split at found
  next comma =>
    obtain ⟨rfl, absent⟩ := comma
    obtain rfl := List.map_eq_nil_iff.mp absent
    obtain ⟨v, _, same⟩ := Option.map_eq_some_iff.mp found
    cases same
    constructor <;> simp [hostPhrase, runtime, Op.pops]
  · exact counted_effect found

theorem shifts_leave (i : Instruction) (b : Branch) :
    Shifts 0 0 (exec (.block ((leave i b).map Simple.stmt))) := by
  have free (t : Target) (other : t ≠ .field "pc") :
      t ∉ Stmt.writes (.block ((leave i b).map Simple.stmt)) := by
    rw [leave]
    split
    · cases b.offset.toInt <;>
        simp [integer, Simple.stmt, Stmt.writes, Stmt.writesAll, Phrase.expr, Expr.writes]
    · simpa [Simple.stmt, Stmt.writes, Stmt.writesAll, setPhrase, runtime, Phrase.expr, Expr.writes,
        Expr.targets] using other
  exact shifts_of_keeps (keeps_exec _ (free _ (by decide))) (keeps_exec _ (free _ (by decide)))

theorem shifts_action {as : List Clause}
    (found : meant p i (ops.map operandPhrase) op = some (.action as)) (other : op ≠ .throw) :
    Shifts op.pushes (op.pops p.version +
      (ops.take (op.places p.version ops.length)).countP Operand.onStack)
      (execAll (as.map Clause.stmt)) := by
  have done : Shifts 0 0 (execAll []) := shifts_pure _
  have one := countP_take_succ ops 0
  have first : Counted 0 ((nthPhrase (ops.map operandPhrase) 0).moves false)
      (nthPhrase (ops.map operandPhrase) 0) := ⟨steady_nth ops 0, moves_nth_up ops 0, rfl⟩
  cases op with
  | ret =>
    cases found
    simpa [Op.pushes, Op.pops, Op.places.eq_def, one, Clause.stmt, Simple.stmt] using first.ret
  | rtrue | rfalse =>
    cases found
    simpa [Op.pushes, Op.pops, Op.places.eq_def, Clause.stmt, Simple.stmt] using
      (counted_number _).ret
  | retPopped =>
    cases found
    have counted : Counted 0 1 popped := ⟨steady_popped, moves_popped true, moves_popped false⟩
    simpa [Op.pushes, Op.pops, Op.places.eq_def, Clause.stmt, Simple.stmt] using counted.ret
  | printRet =>
    obtain ⟨text, _, same⟩ := Option.map_eq_some_iff.mp found
    cases same
    have line (k n : Nat) := counted_host "print" [.number k, .number n] (by simp)
    simpa [Op.pushes, Op.pops, Op.places.eq_def, Clause.stmt, Simple.stmt] using
      (line 2 text.toNat).andThen ((line 1 13).andThen (counted_number 1).ret)
  | nop | bufferMode | soundEffect =>
    cases found
    simpa [Op.pushes, Op.pops, Op.places.eq_def] using done
  | quit =>
    cases found
    have counted : Counted 0 0 (.call (.member (runtime "Glk") "glk_exit") []) := by
      constructor <;> simp [runtime]
    simpa [Op.pushes, Op.pops, Op.places.eq_def, Clause.stmt, Simple.stmt] using
      (counted_set "quit" (by decide) (counted_number 1)).andThen (counted.andThen done)
  | push =>
    cases found
    have kept : Counted 0 ((nthPhrase (ops.map operandPhrase) 0).moves false)
        (.assign (.name "t") (nthPhrase (ops.map operandPhrase) 0)) := by
      refine ⟨?_, ?_, ?_⟩
      · simpa [Phrase.expr, Expr.targets] using first.steady
      · simpa using first.up
      · simp
    have pushed : Counted 1 0 pushPhrase := ⟨steady_push, moves_push true, moves_push false⟩
    simpa [Op.pushes, Op.pops, Op.places.eq_def, one, Clause.stmt, Simple.stmt] using
      kept.andThen (pushed.andThen done)
  | outputStream =>
    cases found
    simpa [Op.pushes, Op.pops, Op.places.eq_def, Clause.stmt, Simple.stmt] using
      (counted_set "pc" (by decide) (counted_number _)).andThen
        ((counted_all ops "output_stream").andThen done)
  | restoreUndo =>
    cases found
    have leaves : Shifts 0 0 (exec (.ret none)) := shifts_pure _
    simpa [Op.pushes, Op.pops, Op.places.eq_def, Clause.stmt, Simple.stmt] using
      (counted_host "restore_undo" [] (by simp)).when leaves
  | showStatus =>
    by_cases old : p.version < 4
    · simp [meant, effect, old] at found
    · obtain rfl : [] = as := by simpa [meant, effect, old] using found
      simpa [Op.pushes, Op.pops, Op.places.eq_def] using done
  | throw => exact absurd rfl other
  | jl | jg | or | and | add | sub | mul | mod => cases ops <;> cases found
  | print | saveUndo | readChar =>
    obtain ⟨_, _, same⟩ := Option.map_eq_some_iff.mp found
    cases same
  | read =>
    cases ops with
    | nil =>
      rw [List.map_nil, meant, if_pos ⟨rfl, rfl⟩] at found
      obtain ⟨_, _, same⟩ := Option.map_eq_some_iff.mp found
      cases same
    | cons =>
      obtain ⟨_, _, same⟩ := Option.map_eq_some_iff.mp found
      cases same
  | _ => cases found

end Effects

section Lines

variable {p : Profile} {n : Nat} {op : Op} {i : Instruction} {u d : Nat} {cs : List Clause}

theorem Carried.counted {e e' : Phrase} (carried : Carried p i e e') (counted : Counted 0 d e) :
    Counted (i.stores && i.result == some 0).toNat d e' := by
  obtain ⟨steady, up, down⟩ := counted
  rcases carried with ⟨keeps, rfl⟩ | ⟨stores, v, result, rfl⟩
  · exact ⟨steady, by simp [keeps, up], down⟩
  · simp only [assignPhrase, beq_iff_eq]
    by_cases stack : v = 0
    · rw [if_pos stack]
      constructor
      · simpa [Phrase.expr, Expr.targets, steady_push] using steady
      · simp [up, moves_push, stores, result, stack]
      · simp [down, moves_push]
    · have other : (i.stores && i.result == some 0).toNat = 0 := by simp [result, stack]
      rw [if_neg stack, other]
      split_ifs
      · constructor
        · simpa [slot, Phrase.expr, Expr.targets] using steady
        · simpa [slot] using up
        · simpa [slot] using down
      · constructor
        · simpa [memory, runtime, Phrase.expr, Expr.targets] using steady
        · simpa [memory, runtime] using up
        · simpa [memory, runtime] using down

theorem counted_test {e : Phrase} (counted : Counted u d e) (b : Branch) :
    Counted u d (if b.ifTrue then Phrase.paren e else .unary .not (.paren e)) := by
  split <;> exact ⟨counted.steady, counted.up, counted.down⟩

theorem shifts_pausing (later : Shifts u d (execAll (cs.map Clause.stmt))) :
    Shifts u d (execAll ((pausing i ++ cs).map Clause.stmt)) := by
  rw [pausing]
  split
  · have stop := counted_set "stop" (by decide) (counted_number 1)
    have resume := counted_set "pc" (by decide) (counted_number i.next.toNat)
    simpa [pauseRow, Clause.stmt, Simple.stmt] using stop.andThen (resume.andThen later)
  · exact later

theorem pushes_of_value {ops : List Phrase} {e : Phrase}
    (found : meant p i ops op = some (.value e)) : op.pushes = 0 := by
  cases op with
  | push => cases found
  | _ => rfl

theorem shifts_line (shaped : Shaped p n op i) (other : op ≠ .throw) (found : sense p i = some cs) :
    Shifts ((i.stores && i.result == some 0).toNat + op.pushes) (op.pops p.version +
      (i.operands.take (op.places p.version i.operands.length)).countP Operand.onStack)
      (execAll (cs.map Clause.stmt)) := by
  rcases sense_cases shaped found with ⟨e, e', effected, carried, parts⟩ | ⟨as, effected, action, rfl⟩
  · have counted := carried.counted (counted_meant effected)
    rw [pushes_of_value effected, Nat.add_zero]
    rcases parts with rfl | ⟨b, -, -, rfl⟩
    · exact shifts_pausing (shifts_singleton counted.expr)
    · exact shifts_pausing ((counted_test counted b).when (shifts_leave i b))
  · have keeps : i.stores = false := shaped.stores.trans action.keeps
    rw [keeps, Bool.false_and, Bool.toNat_false, Nat.zero_add]
    exact shifts_pausing (shifts_action effected other)

end Lines

def zeros (words : Array UInt16) : Nat → Nat
  | 0 => 0
  | k + 1 => if words[k]? = some 0 then zeros words k + 1 else 0

theorem zeros_le (words : Array UInt16) (k : Nat) : zeros words k ≤ k := by
  induction k with
  | zero => exact Nat.le_refl 0
  | succ k ih =>
    rw [zeros]
    split <;> omega

section Loops

variable {m m' : Machine} {t : Value} {s s' : State} {c : Completion}

theorem normal_of_loop {test : Run Value} {body : Run Completion}
    (goes : ∀ s c s', Gives body s c s' → c = .normal) {rounds : Nat}
    (ran : Gives (loopWhile test body rounds) s c s') : c = .normal := by
  induction rounds generalizing s with
  | zero => exact absurd ran not_gives_throw
  | succ rounds ih =>
    obtain ⟨v, s₁, -, ran⟩ := gives_bind_iff.mp ran
    split at ran
    · obtain ⟨c₁, s₂, inside, ran⟩ := gives_bind_iff.mp ran
      obtain rfl := goes s₁ c₁ s₂ inside
      exact ih ran
    · exact (gives_pure_iff.mp ran).1.symm

def emptying : Phrase :=
  .binary .greater depthPhrase popped

def framePop : Simple :=
  .expr (setPhrase "frameptr" (.call (.member (runtime "frames") "pop") []))

theorem gives_emptying (near : m.sp.natAbs < 2 ^ 53) : ∃ v,
    Gives (eval emptying.expr) (frame m t) v (frame { m with sp := m.sp - 1 } t) ∧
      v.truthy = decide (0 < m.sp ∧ m.stack[(m.sp - 1).toNat]? = some 0) := by
  have depth : Gives (eval depthPhrase.expr) (frame m t) (.ofInt 1) (frame m t) := by
    have frames := gives_runtime (m := m) (t := t) "frames"
    have length : Gives (eval (.member (runtime "frames").expr "length")) (frame m t) (.ofInt 0)
        (frame m t) := frames.member rfl
    have one : applyBinary .add (.ofInt 0) (.ofInt 1) = .ofInt 1 := applyBinary_add (by decide)
    rw [← one]
    exact length.binary .add (gives_number 1)
  refine ⟨_, depth.binary .greater (gives_popped_any near), ?_⟩
  rw [Machine.wordIn]
  cases found : m.stack[(m.sp - 1).toNat]? with
  | none => simp [applyBinary, Value.toNumber, Number.less, Value.truthy]
  | some w =>
    by_cases low : 0 ≤ m.sp - 1
    · have positive : 0 < m.sp := by omega
      have zero : ((w.toNat : Int) < 1) ↔ w = 0 := by
        rw [← UInt16.toNat_inj]
        simp
      simp only [if_pos low, Value.ofWord, applyBinary_greater, Value.truthy, zero, positive,
        true_and, Option.some.injEq]
    · have none_ : ¬ (0 < m.sp ∧ some w = some 0) := by omega
      simp only [if_neg low, decide_eq_false none_]
      rfl

theorem gives_framePop : Gives (exec (.block [framePop.stmt])) (frame m t) .normal
    (frame { m with framePointer := .undefined } t) := by
  have frames := gives_runtime (m := m) (t := t) "frames"
  have method : Gives (eval (.member (runtime "frames").expr "pop")) (frame m t)
      (.object (.method .popFrame)) (frame m t) := frames.member rfl
  have popFrame := method.call gives_nil (gives_pure Value.undefined)
  have written : Gives (setPlace (.member (.object .runtime) "frameptr") .undefined) (frame m t) ()
      (frame { m with framePointer := .undefined } t) := rfl
  exact (Gives.assign (Gives.placeMember gives_e) popFrame written).expr.andThen gives_done

-- A loop that takes its operand from the stack takes all zeros on top, and the word below.
theorem gives_emptyingLoop {rounds : Nat} (near : m.sp.natAbs + rounds < 2 ^ 53)
    (ran : Gives (loopWhile (eval emptying.expr) (exec (.block [framePop.stmt])) rounds)
      (frame m t) c s') :
    c = .normal ∧ ∃ m', s' = frame m' t ∧ m'.sp = m.sp - zeros m.stack m.sp.toNat - 1 := by
  induction rounds generalizing m with
  | zero => exact absurd ran not_gives_throw
  | succ rounds ih =>
    obtain ⟨v, tested, truth⟩ := gives_emptying (t := t) (m := m) (by omega)
    obtain ⟨w, s₁, again, ran⟩ := gives_bind_iff.mp ran
    obtain ⟨rfl, rfl⟩ := again.unique tested
    rw [truth] at ran
    by_cases zero : 0 < m.sp ∧ m.stack[(m.sp - 1).toNat]? = some 0
    · rw [if_pos (decide_eq_true zero)] at ran
      obtain ⟨c₁, s₂, inside, ran⟩ := gives_bind_iff.mp ran
      obtain ⟨rfl, rfl⟩ := inside.unique gives_framePop
      obtain ⟨normal, m', left, pointer⟩ := ih (by simp only; omega) ran
      refine ⟨normal, m', left, ?_⟩
      have below : m.sp.toNat = (m.sp - 1).toNat + 1 := by omega
      rw [pointer, below, zeros, if_pos zero.2]
      push_cast
      omega
    · rw [if_neg (by simpa using zero)] at ran
      obtain ⟨rfl, rfl⟩ := gives_pure_iff.mp ran
      refine ⟨rfl, _, rfl, ?_⟩
      have none_ : zeros m.stack m.sp.toNat = 0 := by
        by_cases positive : 0 < m.sp
        · have below : m.sp.toNat = (m.sp - 1).toNat + 1 := by omega
          rw [below, zeros, if_neg fun held => zero ⟨positive, held⟩]
        · rw [show m.sp.toNat = 0 by omega, zeros]
      rw [none_]
      simp

end Loops

theorem writes_operand {op : Operand} (other : op.onStack = false) :
    (operandPhrase op).expr.writes = [] := by
  obtain ⟨kind, value⟩ := op
  cases kind with
  | stack | signedStack => cases other
  | signedConstant =>
    cases inner : Operand.signedValue ⟨.signedConstant, value⟩ <;>
      simp [operandPhrase, inner, integer, Phrase.expr, Expr.writes]
  | _ =>
    simp [operandPhrase, slot, signExtended, memory, runtime, Phrase.expr, Phrase.exprs, Expr.writes,
      Expr.writesAll]

theorem writes_nth (ops : List Operand) {k : Nat} (other : ops[k]?.any Operand.onStack = false) :
    (nthPhrase (ops.map operandPhrase) k).expr.writes = [] := by
  rw [nthPhrase_operands]
  cases at_ : ops[k]? with
  | none => rfl
  | some op =>
    rw [at_] at other
    exact writes_operand other

theorem nthPhrase_of_onStack {ops : List Operand} {k : Nat}
    (unsigned : ∀ op, ops[k]? = some op → op.signed = false)
    (taken : ops[k]?.any Operand.onStack = true) :
    nthPhrase (ops.map operandPhrase) k = popped := by
  obtain ⟨op, at_, onStack⟩ := (Option.any_eq_true _ _).mp taken
  have unsigned := unsigned op at_
  rw [nthPhrase_operands, at_]
  obtain ⟨kind, value⟩ := op
  cases kind with
  | stack => rfl
  | signedStack => cases unsigned
  | _ => cases onStack

theorem normal_of_framePop {s s' : State} {c : Completion}
    (ran : Gives (exec (.block [framePop.stmt])) s c s') : c = .normal :=
  (gives_expr_iff.mp (gives_singleton_iff.mp ran)).1

theorem shifts_loop {e : Phrase} (none_ : e.expr.writes = []) :
    Shifts 0 0 (exec (Clause.loopBlock (.binary .greater depthPhrase e) [framePop]).stmt) := by
  have free (t : Target) (other : t ≠ .field "frameptr") :
      t ∉ (Clause.loopBlock (.binary .greater depthPhrase e) [framePop]).stmt.writes := by
    simpa [Clause.stmt, framePop, Simple.stmt, Stmt.writes, Stmt.writesAll, depthPhrase, setPhrase,
      runtime, Phrase.expr, Phrase.exprs, Expr.writes, Expr.writesAll, Expr.targets, none_] using other
  exact shifts_of_keeps (keeps_exec _ (free _ (by decide))) (keeps_exec _ (free _ (by decide)))

-- How many times the second operand is taken from the stack again.
def retaken (op : Op) (i : Instruction) (m : Machine) : Nat :=
  if op = .throw ∧ i.operands[1]?.any Operand.onStack then zeros m.stack m.sp.toNat else 0

theorem sp_of_throw {p : Profile} {n : Nat} {i : Instruction} (shaped : Shaped p n .throw i)
    {cs : List Clause} (found : sense p i = some cs) {m : Machine} {t : Value} {c : Completion}
    {s : State} (near : m.sp.natAbs ≤ 2 ^ 52)
    (ran : Gives (execAll (cs.map Clause.stmt)) (frame m t) c s) :
    s.machine.sp = m.sp - (i.operands.take 2).countP Operand.onStack - retaken .throw i m := by
  have goes : i.pauses = false := shaped.pauses
  obtain ⟨e, e', effected, -, -⟩ | ⟨as, effected, -, rfl⟩ := sense_cases shaped found
  · cases effected
  cases effected
  rw [pausing, goes, if_neg Bool.false_ne_true, List.nil_append] at ran
  have first : Counted 0 ((nthPhrase (i.operands.map operandPhrase) 0).moves false)
      (nthPhrase (i.operands.map operandPhrase) 0) :=
    ⟨steady_nth _ 0, moves_nth_up _ 0, rfl⟩
  have one := countP_take_succ i.operands 0
  have two := countP_take_succ i.operands 1
  simp only [List.take_zero, List.countP_nil, Nat.zero_add, Nat.reduceAdd] at one two
  have small : (nthPhrase (i.operands.map operandPhrase) 0).moves false ≤ 1 := by
    rw [moves_nth]
    exact Bool.toNat_le _
  rw [moves_nth i.operands false 1, Bool.not_false, Bool.true_and] at two
  by_cases taken : i.operands[1]?.any Operand.onStack = true
  · -- the loop tests another word of the stack in each round; `throw` takes no signed operand
    have popping := nthPhrase_of_onStack (shaped.signed 1) taken
    have again : retaken .throw i m = zeros m.stack m.sp.toNat := if_pos ⟨rfl, taken⟩
    have bound := zeros_le m.stack m.sp.toNat
    rw [popping] at ran
    rw [taken, Bool.toNat_true] at two
    rcases gives_cons_iff.mp ran with ⟨s₁, looped, last⟩ | ⟨v, rfl, looped⟩
    · obtain ⟨-, m₁, rfl, pointer⟩ := gives_emptyingLoop (by simp only [maxRounds]; omega) looped
      have moved := (first.ret (frame m₁ t) c s (bound_frame m₁ t) (by simp only [frame]; omega) last).2
      simp only [frame] at moved
      rw [moved, pointer, again, two, one]
      omega
    · cases (gives_emptyingLoop (by simp only [maxRounds]; omega) looped).1
  · -- the test leaves the stack alone, and so does the loop
    have other := Bool.eq_false_of_not_eq_true taken
    have never : retaken .throw i m = 0 := if_neg fun both => taken both.2
    rw [other, Bool.toNat_false] at two
    have pointer := (((shifts_loop (writes_nth _ other)).cons first.ret fun _ _ _ given =>
      normal_of_loop (fun _ _ _ => normal_of_framePop) given) (frame m t) c s (bound_frame m t)
      (by simp only [frame]; omega) ran).2
    simp only [frame] at pointer
    rw [pointer, never, two, one]
    omega

end ZCode.Statement

namespace ZCode

open ZCode.Script Statement

namespace Instruction

theorem length_of_describes {types : UInt8} {encodings : List Encoding}
    (described : Describes types encodings) : encodings.length ≤ 4 := by
  rcases described with same | start
  · have length := congrArg List.length same
    simp only [List.length_map, typeCodes, List.length_cons, List.length_nil] at length
    omega
  · have length := start.length_le
    simp only [List.length_append, List.length_map, typeCodes, List.length_cons,
      List.length_nil] at length
    omega

theorem length_operands_le {img : Image} {p : Profile} {pos : UInt32} {i : Instruction}
    (decoded : decode img p pos = .ok i) : i.operands.length ≤ 8 := by
  obtain ⟨l, fits, -, rfl⟩ := (decode_eq_ok_iff img p pos i).mp decoded
  have written := congrArg List.length fits.operands
  rw [List.length_map] at written
  simp only [Layout.instruction, List.length_mapIdx, written]
  have described : (l.types.flatMap Prod.snd).length ≤ 4 * l.types.length := by
    have each := fits.described
    generalize l.types = types at each
    induction types with
    | nil => simp
    | cons t rest ih =>
      have first := length_of_describes (each t (by simp))
      have others := ih fun u member => each u (by simp [member])
      simp only [List.flatMap_cons, List.length_append, List.length_cons]
      omega
  have bytes : l.opening.typeBytes ≤ 2 := by
    rw [Opening.typeBytes]
    split_ifs <;> omega
  have count := fits.types
  cases fixed : l.opening.encodings? with
  | none =>
    rw [Option.getD_none]
    omega
  | some encodings =>
    rw [Option.getD_some]
    cases opening : l.opening <;> rw [opening] at fixed <;> cases fixed <;> simp

/-- What an instruction is to move the stack pointer by: each operand on the stack is popped once, a
result for variable 0 is pushed, and the opcode may push or pop by itself. -/
def balance (version : UInt8) (op : Op) (i : Instruction) : Int :=
  (i.stores && i.result == some 0).toNat + op.pushes - op.pops version
    - i.operands.countP Operand.onStack

/-- Operands on the stack that the text of the instruction has no place for. -/
def unread (version : UInt8) (op : Op) (i : Instruction) : Nat :=
  (i.operands.drop (op.places version i.operands.length)).countP Operand.onStack

end Instruction

namespace Statement

def Runs (p : Profile) (i : Instruction) (m : Machine) (c : Completion) (m' : Machine) : Prop :=
  ∃ f body s, Fragment.ofBlock p ⟨i.addr, [i]⟩ = .ok f ∧ parse? f.code = some body ∧
    Gives (execAll body) { machine := m, scope := [("e", .object .runtime)] } c s ∧ s.machine = m'

theorem sense_of_runs {img : Image} {p : Profile} {pos : UInt32} {i : Instruction}
    (decoded : Instruction.decode img p pos = .ok i) {m m' : Machine} {c : Completion}
    (ran : Runs p i m c m') : ∃ n op cs s, Shaped p n op i ∧ sense p i = some cs ∧
      Gives (execAll (cs.map Clause.stmt)) (frame m (.ofInt 0)) c s ∧ s.machine = m' := by
  obtain ⟨f, body, s, made, read, given, rfl⟩ := ran
  have members : ∀ j ∈ [i], ∃ pos, Instruction.decode img p pos = .ok j := by
    simpa using ⟨pos, decoded⟩
  obtain ⟨whole, rfl⟩ := Block.body_of_read (b := ⟨i.addr, [i]⟩) members made read
  obtain ⟨n, op, cs, shaped, found, line⟩ :=
    Block.sensible_of_read (b := ⟨i.addr, [i]⟩) members made whole i (by simp)
  rw [Block.gives_body_iff, List.flatMap_singleton, line, gives_stmts_iff] at given
  exact ⟨n, op, cs, s, shaped, found, given, rfl⟩

def outcome? (p : Profile) (i : Instruction) (m : Machine) : Option (Completion × Machine) :=
  match (Fragment.ofBlock p ⟨i.addr, [i]⟩).toOption.bind fun f => parse? f.code with
  | some body =>
    match (execAll body).run.run { machine := m, scope := [("e", .object .runtime)] } with
    | (.ok c, s) => some (c, s.machine)
    | (.error _, _) => none
  | none => none

theorem runs_of_outcome? {p : Profile} {i : Instruction} {m m' : Machine} {c : Completion}
    (ended : outcome? p i m = some (c, m')) : Runs p i m c m' := by
  rw [outcome?] at ended
  split at ended
  next body found =>
    obtain ⟨f, made, read⟩ := Option.bind_eq_some_iff.mp found
    split at ended
    next c s given =>
      cases ended
      exact ⟨f, body, s, Block.ok_of_toOption made, read, given, rfl⟩
    · cases ended
  · cases ended

-- Whether a run goes on behind its last statement.
def goesOn : Completion → Bool
  | .normal => true
  | .returned _ => false

theorem exists_runs_of_goesOn {p : Profile} {i : Instruction} {m : Machine}
    (goes : (outcome? p i m).map (fun r => goesOn r.1) = some true) : ∃ m', Runs p i m .normal m' := by
  obtain ⟨⟨c, m'⟩, ended, onward⟩ := Option.map_eq_some_iff.mp goes
  cases c with
  | normal => exact ⟨m', runs_of_outcome? ended⟩
  | returned v => cases onward

/-- A run of an instruction's script moves the stack pointer by the balance of the instruction, but
that operands without a place in the text stay on the stack, and that `throw` takes its second
operand again for each zero on top of the stack. -/
theorem stack_moves_by_balance {img : Image} {p : Profile} {pos : UInt32} {i : Instruction} {op : Op}
    (decoded : Instruction.decode img p pos = .ok i) (known : i.op? = some op) {m m' : Machine}
    (near : m.sp.natAbs ≤ 2 ^ 52) {c : Completion} (ran : Runs p i m c m') :
    m'.sp = m.sp + i.balance p.version op + i.unread p.version op - retaken op i m := by
  obtain ⟨n, op', cs, s, shaped, found, given, rfl⟩ := sense_of_runs decoded ran
  obtain rfl : op' = op := Option.some.inj (shaped.known.symm.trans known)
  have few := Instruction.length_operands_le decoded
  have split : i.operands.countP Operand.onStack =
      (i.operands.take (op'.places p.version i.operands.length)).countP Operand.onStack +
        i.unread p.version op' := by
    rw [Instruction.unread, ← List.countP_append, List.take_append_drop]
  by_cases thrown : op' = .throw
  · subst thrown
    have keeps : i.stores = false := shaped.stores
    have pointer := sp_of_throw shaped found near given
    simp only [Op.places] at split
    simp only [Instruction.balance, keeps, Op.pushes, Op.pops, Bool.false_and, Bool.toNat_false]
    omega
  · have pops : op'.pops p.version ≤ 1 := by
      rw [Op.pops.eq_def]
      split <;> try split
      all_goals omega
    have pushes : op'.pushes ≤ 1 := by
      rw [Op.pushes.eq_def]
      split <;> omega
    have stored := Bool.toNat_le (i.stores && i.result == some 0)
    have fewer : i.operands.countP Operand.onStack ≤ i.operands.length := List.countP_le_length
    have moved := (shifts_line shaped thrown found (frame m (.ofInt 0)) c s (bound_frame m _)
      (by simp only [frame]; omega) given).2
    have never : retaken op' i m = 0 := if_neg fun both => thrown both.1
    simp only [frame] at moved
    rw [moved, Instruction.balance, never]
    push_cast
    omega

-- A sum of two words from the stack that goes to the stack.
theorem stack_moves_by_balance_sum :
    let i : Instruction :=
      { addr := 0, opcode := 20, operands := [⟨.stack, 0⟩, ⟨.stack, 0⟩], result := some 0,
        stores := true, next := 4 }
    let m : Machine := { memory := .zeroed 512, globals := 16, sp := 2 }
    Instruction.decode ⟨#[0x74, 0, 0, 0], by decide⟩ ⟨5, 16⟩ 0 = .ok i ∧ i.balance 5 .add = -1 ∧
      ∃ c m', Runs ⟨5, 16⟩ i m c m' ∧ m'.sp = 1 := by
  intro i m
  have decoded : Instruction.decode ⟨#[0x74, 0, 0, 0], by decide⟩ ⟨5, 16⟩ 0 = .ok i := by
    decide +kernel
  obtain ⟨⟨c, m'⟩, ended⟩ : ∃ r, outcome? ⟨5, 16⟩ i m = some r :=
    Option.isSome_iff_exists.mp (by decide +kernel)
  have ran := runs_of_outcome? ended
  refine ⟨decoded, by decide, c, m', ran, ?_⟩
  have known : i.op? = some .add := by decide
  rw [stack_moves_by_balance decoded known (by decide) ran]
  decide

-- The operand of `buffer_mode` has no place in its text, so it stays on the stack.
theorem operand_left_on_stack :
    let i : Instruction := { addr := 0, opcode := 242, operands := [⟨.stack, 0⟩], next := 3 }
    let m : Machine := { memory := .zeroed 512, globals := 16, sp := 1 }
    Instruction.decode ⟨#[0xF2, 0xBF, 0], by decide⟩ ⟨5, 16⟩ 0 = .ok i ∧
      i.op? = some .bufferMode ∧ m.sp + i.balance 5 .bufferMode = 0 ∧
      ∃ c m', Runs ⟨5, 16⟩ i m c m' ∧ m'.sp = 1 := by
  intro i m
  have pointer : (outcome? ⟨5, 16⟩ i m).map (fun r => r.2.sp) = some 1 := by decide +kernel
  obtain ⟨⟨c, m'⟩, ended, stays⟩ := Option.map_eq_some_iff.mp pointer
  exact ⟨by decide +kernel, by decide, by decide, c, m', runs_of_outcome? ended, stays⟩

end Statement

end ZCode
