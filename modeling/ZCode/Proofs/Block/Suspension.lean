import ZCode.Proofs.Block.Flow

set_option autoImplicit false

namespace ZCode

open ZCode.Script Statement

namespace Script

variable {s s₁ : State} {st : Stmt} {before rest : List Stmt}

-- The state that statements leave, whether they complete or throw.
def after (ss : List Stmt) (s : State) : State :=
  ((execAll ss).run.run s).2

theorem after_cons (first : Gives (exec st) s .normal s₁) :
    after (st :: rest) s = after rest s₁ := by
  have ran : (exec st).run.run s = (.ok .normal, s₁) := first
  simp only [after, execAll, ExceptT.run_bind, StateT.run_bind, ran]
  rfl

theorem after_append (first : Gives (execAll before) s .normal s₁) :
    after (before ++ rest) s = after rest s₁ := by
  have ran : (execAll before).run.run s = (.ok .normal, s₁) := first
  simp only [after, execAll_append, ExceptT.run_bind, StateT.run_bind, ran]
  rfl

theorem after_append_of_left (left : ∀ s₁, ¬ Gives (execAll before) s .normal s₁) :
    after (before ++ rest) s = after before s := by
  simp only [after, execAll_append, ExceptT.run_bind, StateT.run_bind]
  cases result : (execAll before).run.run s with
  | mk answer s₁ =>
    cases answer with
    | error e => rfl
    | ok c =>
      cases c with
      | normal => exact absurd result (left s₁)
      | returned v => rfl

theorem machine_of_runBody (m : Machine) (body : List Stmt) :
    (runBody m body).2 = (after body { machine := m, scope := [("e", .object .runtime)] }).machine := by
  rw [runBody, after]
  split
  next s ran => exact congrArg (fun r => r.2.machine) ran.symm
  next s ran => exact congrArg (fun r => r.2.machine) ran.symm
  next v s _ ran => exact congrArg (fun r => r.2.machine) ran.symm
  next e s ran => exact congrArg (fun r => r.2.machine) ran.symm

theorem ofInt_one_ne_zero : Value.ofInt 1 ≠ .ofInt 0 := by
  intro same
  have numbers := congrArg Value.toInt same
  rw [Value.toInt_ofInt, Value.toInt_ofInt] at numbers
  cases numbers

theorem Keeps.after {t : Target} {ss : List Stmt} (keeps : Keeps t (execAll ss)) (s : State) :
    (after ss s).value? t = s.value? t :=
  keeps s

end Script

theorem ends_of_pauses {version : UInt8} {op : Op} (pauses : (shapeOf version op).pauses = true) :
    (shapeOf version op).endsBlock = true := by
  cases op with
  | save | restore =>
    by_cases old : version < 4 <;>
      simp [shapeOf_save, shapeOf_restore, old, Shape.branchingAndPausing, Shape.storingAndPausing]
  | read =>
    by_cases old : version < 5 <;>
      simp [shapeOf_read, old, Shape.pausing, Shape.storingAndPausing]
  | showStatus =>
    by_cases old : version < 4
    · simp [shapeOf_showStatus, old, Shape.pausing]
    · simp [shapeOf_showStatus, old] at pauses
  | notOrCall1n =>
    by_cases old : version < 5 <;>
      simp [shapeOf_notOrCall1n, old, Shape.storing, Shape.ends] at pauses
  | popOrCatch =>
    by_cases old : version < 5 <;> simp [shapeOf_popOrCatch, old, Shape.storing] at pauses
  | quit | inputStream | readChar | saveTable | restoreTable => rfl
  | _ => cases pauses

namespace Statement

variable {p : Profile} {n : Nat} {op : Op} {i : Instruction} {s : State}

theorem Shaped.ends_of_pauses (shaped : Shaped p n op i) (pauses : i.pauses = true) :
    i.endsBlock = true :=
  shaped.endsBlock.trans (ZCode.ends_of_pauses (shaped.pauses ▸ pauses))

theorem Shaped.not_bare_of_pauses (shaped : Shaped p n op i) (pauses : i.pauses = true) :
    bare i = false := by
  have paused : (shapeOf p.version op).pauses = true := shaped.pauses ▸ pauses
  rw [bare, shaped.known, Option.any_some]
  cases op with
  | jl | jg | or | and | add | sub | mul | mod => cases paused
  | _ => exact Bool.and_false _

theorem gives_setNumber {f : String} {a : Nat} {s' : State} (bound : Bound s)
    (written : Gives (setMember (.object .runtime) f (.ofInt a)) s () s') :
    Gives (exec (Clause.simple (.expr (setPhrase f (.number a)))).stmt) s .normal s' :=
  (Gives.assign (Gives.placeMember (gives_name bound)) (gives_number a) written).expr

-- Behind the first clause of a line stand the statements of the others, if only an empty one.
theorem exists_tail (c : Clause) (cs : List Clause) : ∃ tail, Clause.stmts (c :: cs) = c.stmt :: tail ∧
    Stmt.writesAll tail = cs.flatMap fun c => c.stmt.writes := by
  cases cs with
  | nil =>
    refine ⟨if c.needsEnd then [] else [.empty], rfl, ?_⟩
    split <;> rfl
  | cons next rest => exact ⟨_, rfl, writesAll_stmts (next :: rest)⟩

-- The line of a pausing instruction stops the machine in front of the next one, even if its effect
-- throws.
theorem stopped_after_line (shaped : Shaped p n op i) (pauses : i.pauses = true) {cs : List Clause}
    (found : sense p i = some cs) (bound : Bound s) :
    (after (Clause.stmts cs) s).machine.stop = .ofInt 1 ∧
      (after (Clause.stmts cs) s).machine.pc = .ofInt i.next.toNat := by
  have paused : (shapeOf p.version op).pauses = true := shaped.pauses ▸ pauses
  have noJump : op ≠ .jump := by
    rintro rfl
    cases paused
  have noStream : op ≠ .outputStream := by
    rintro rfl
    cases paused
  obtain ⟨rest, rfl, quiet⟩ :=
    quiet_sense shaped (shaped.ends_of_pauses pauses) noJump noStream found
  -- the flag, the counter, and a tail that writes neither
  have line : pausing i ++ rest = .simple (.expr (setPhrase "stop" (.number 1))) ::
      .simple (.expr (setPhrase "pc" (.number i.next.toNat))) :: rest := by
    rw [pausing, if_pos pauses]
    rfl
  obtain ⟨tail, stmts, writes⟩ :=
    exists_tail (.simple (.expr (setPhrase "pc" (.number i.next.toNat)))) rest
  have whole : Clause.stmts (pausing i ++ rest) =
      (Clause.simple (.expr (setPhrase "stop" (.number 1)))).stmt ::
        (Clause.simple (.expr (setPhrase "pc" (.number i.next.toNat)))).stmt :: tail := by
    rw [line, ← stmts]
    rfl
  have free {t : Target} (other : t ∉ Script.quiet) : t ∉ Stmt.writesAll tail := by
    rw [writes, List.mem_flatMap]
    rintro ⟨c, member, at_⟩
    exact other (quiet c member t at_)
  obtain ⟨s₁, stopping, held, raised⟩ : ∃ s₁,
      Gives (exec (Clause.simple (.expr (setPhrase "stop" (.number 1)))).stmt) s .normal s₁ ∧
        Bound s₁ ∧ s₁.machine.stop = .ofInt 1 :=
    ⟨_, gives_setNumber bound rfl, bound, rfl⟩
  obtain ⟨s₂, resuming, still, resumed⟩ : ∃ s₂,
      Gives (exec (Clause.simple (.expr (setPhrase "pc" (.number i.next.toNat)))).stmt) s₁ .normal s₂ ∧
        s₂.machine.stop = s₁.machine.stop ∧ s₂.machine.pc = .ofInt i.next.toNat :=
    ⟨_, gives_setNumber held rfl, rfl, rfl⟩
  rw [whole, after_cons stopping, after_cons resuming]
  have flag := (keeps_execAll tail (free (t := .field "stop") (by decide))).after s₂
  have counter := (keeps_execAll tail (free (t := .field "pc") (by decide))).after s₂
  exact ⟨(Option.some.inj flag).trans (still.trans raised), (Option.some.inj counter).trans resumed⟩

end Statement

theorem Fragment.going_of_safe {p : Profile} {b : Block} {f : Fragment}
    (made : Fragment.ofBlock p b = .ok f) (safe : f.safety = .safe) :
    ∀ i ∈ b.instructions, i.pauses = false := by
  obtain ⟨statements, -, made⟩ := ok_of_bind made
  cases made
  simp only [Fragment.safety] at safe
  split at safe
  · cases safe
  split at safe
  · cases safe
  next none =>
    intro i member
    exact Bool.eq_false_of_not_eq_true fun pauses => none (List.any_eq_true.mpr ⟨i, member, pauses⟩)

namespace Block

variable {img : Image} {p : Profile} {cap : Nat} {addr : UInt32} {b : Block} {f : Fragment}
  {m : Machine} {is init : List Instruction} {last : Instruction}

theorem mild_of_going (sensible : ∀ i ∈ is, Sensible p i) (going : ∀ i ∈ is, i.pauses = false) :
    ∀ t ∈ Stmt.writesAll (is.flatMap (stmts p)), t ∈ mild := by
  intro t member
  rw [Stmt.writesAll_eq, List.flatMap_assoc, List.mem_flatMap] at member
  obtain ⟨i, inside, at_⟩ := member
  obtain ⟨n, op, cs, shaped, found, line⟩ := sensible i inside
  obtain ⟨rest, rfl, mild⟩ := mild_sense shaped found
  rw [← Stmt.writesAll_eq, line, writesAll_stmts, pausing, if_neg (by simp [going i inside]),
    List.nil_append, List.mem_flatMap] at at_
  obtain ⟨c, among, written⟩ := at_
  exact mild c among t written

def Reaches (p : Profile) (b : Block) (m : Machine) (i : Instruction) : Prop :=
  ∃ k, b.instructions[k]? = some i ∧ b.RunsThrough p m k

theorem going_of_decode (decoded : decode img p cap addr = .ok ⟨addr, init ++ [last]⟩)
    (made : Fragment.ofBlock p ⟨addr, init ++ [last]⟩ = .ok f) : ∀ i ∈ init, i.pauses = false := by
  obtain ⟨members, stays⟩ := forall_of_decode decoded
  obtain ⟨statements, lines, -⟩ := ok_of_bind made
  intro i inside
  obtain ⟨pos, met⟩ := members i (by simp [inside])
  obtain ⟨text, written⟩ := exists_of_mapM lines i (by simp [inside])
  obtain ⟨op, shaped⟩ := shaped_of_render met written
  apply Bool.eq_false_of_not_eq_true
  intro pauses
  have ends := shaped.ends_of_pauses pauses
  rw [stays i (by simpa using inside)] at ends
  cases ends

theorem last_of_pauses (decoded : decode img p cap addr = .ok ⟨addr, init ++ [last]⟩)
    (made : Fragment.ofBlock p ⟨addr, init ++ [last]⟩ = .ok f) {k : Nat} {i : Instruction}
    (at_ : (init ++ [last])[k]? = some i) (pauses : i.pauses = true) :
    k = init.length ∧ i = last := by
  rcases Nat.lt_trichotomy k init.length with inside | rfl | outside
  · rw [List.getElem?_append_left inside] at at_
    rw [going_of_decode decoded made i (List.mem_of_getElem? at_)] at pauses
    cases pauses
  · exact ⟨rfl, by simpa using at_.symm⟩
  · rw [List.getElem?_eq_none (by simp; omega)] at at_
    cases at_

theorem exists_reaches_iff (decoded : decode img p cap addr = .ok ⟨addr, init ++ [last]⟩)
    (made : Fragment.ofBlock p ⟨addr, init ++ [last]⟩ = .ok f) :
    (∃ i, i.pauses = true ∧ Reaches p ⟨addr, init ++ [last]⟩ m i) ↔
      last.pauses = true ∧ RunsThrough p ⟨addr, init ++ [last]⟩ m init.length := by
  constructor
  · rintro ⟨i, pauses, k, at_, through⟩
    obtain ⟨rfl, rfl⟩ := last_of_pauses decoded made at_ pauses
    exact ⟨pauses, through⟩
  · rintro ⟨pauses, through⟩
    exact ⟨last, pauses, init.length, by simp, through⟩

theorem machine_of_run {body : List Stmt} {code : String}
    (read : parse? code = some (Fragment.declaration :: body)) :
    (run m code).2 = (after body (frame m (.ofInt 0))).machine := by
  rw [run, read]
  exact (machine_of_runBody m _).trans (congrArg State.machine (after_cons (Fragment.gives_declaration m)))

theorem stopped_of_reached (decoded : decode img p cap addr = .ok ⟨addr, init ++ [last]⟩)
    (made : Fragment.ofBlock p ⟨addr, init ++ [last]⟩ = .ok f) (pauses : last.pauses = true)
    (reached : RunsThrough p ⟨addr, init ++ [last]⟩ m init.length) :
    (run m f.code).2.stop = .ofInt 1 ∧ (run m f.code).2.pc = .ofInt last.next.toNat := by
  have members := (forall_of_decode decoded).1
  obtain ⟨statements, lines, -⟩ := ok_of_bind made
  obtain ⟨pos, met⟩ := members last (by simp)
  obtain ⟨text, written⟩ := exists_of_mapM lines last (by simp)
  obtain ⟨op, shaped⟩ := shaped_of_render met written
  have whole := whole_of_reached members (shaped.not_bare_of_pauses pauses) reached
  have sensible := sensible_of_read members made whole
  have read := Fragment.parse?_code members made
  simp only [whole, Bool.false_eq_true, if_false] at read
  obtain ⟨s₁, before⟩ := (runsThrough_iff members made whole _).mp reached
  rw [List.take_left] at before
  have bound := bound_of_run (fun i inside => sensible i (by simp [inside])) (bound_frame m _) before
  obtain ⟨n, op', cs, shaped', found, line⟩ := sensible last (by simp)
  rw [machine_of_run read, List.flatMap_append, List.flatMap_singleton, after_append before, line]
  exact stopped_after_line shaped' pauses found bound

theorem stop_of_not_reached (decoded : decode img p cap addr = .ok ⟨addr, init ++ [last]⟩)
    (made : Fragment.ofBlock p ⟨addr, init ++ [last]⟩ = .ok f)
    (missed : ¬ (last.pauses = true ∧ RunsThrough p ⟨addr, init ++ [last]⟩ m init.length)) :
    (run m f.code).2.stop = m.stop := by
  have members := (forall_of_decode decoded).1
  have going := going_of_decode decoded made
  have read := Fragment.parse?_code members made
  by_cases gap : (init ++ [last]).any bare = true
  · -- a script with a gap is not read, so nothing runs
    simp only [gap, if_true] at read
    rw [run, read]
  have whole := Bool.eq_false_of_not_eq_true gap
  simp only [whole, Bool.false_eq_true, if_false] at read
  have sensible := sensible_of_read members made whole
  have kept {js : List Instruction} (inside : ∀ i ∈ js, i ∈ init ++ [last])
      (going : ∀ i ∈ js, i.pauses = false) : (after (js.flatMap (stmts p))
        (frame m (.ofInt 0))).machine.stop = m.stop := by
    have mild := mild_of_going (fun i member => sensible i (inside i member)) going
    have free : .field "stop" ∉ Stmt.writesAll (js.flatMap (stmts p)) :=
      fun written => absurd (mild _ written) (by decide)
    exact Option.some.inj ((keeps_execAll _ free).after (frame m (.ofInt 0)))
  rw [machine_of_run read]
  by_cases pauses : last.pauses = true
  · -- the run returns or throws before it comes to the last line
    have left : ∀ s₁, ¬ Gives (execAll (init.flatMap (stmts p))) (frame m (.ofInt 0)) .normal s₁ := by
      intro s₁ before
      refine missed ⟨pauses, (runsThrough_iff members made whole _).mpr ⟨s₁, ?_⟩⟩
      rwa [List.take_left]
    rw [List.flatMap_append, List.flatMap_singleton, after_append_of_left left]
    exact kept (fun i inside => List.mem_append_left _ inside) going
  · refine kept (fun i inside => inside) (List.forall_mem_append.mpr ⟨going, ?_⟩)
    exact List.forall_mem_singleton.mpr (Bool.eq_false_of_not_eq_true pauses)

/-- Only the last instruction of a block can pause. A run from a machine that is not stopped stops it
exactly if it comes to such an instruction, and then leaves the program counter behind it, whether
the run completes or throws; it stops nothing if it leaves before the last instruction or if the
fragment is safe. -/
theorem stops_iff_reaches_pause (decoded : decode img p cap addr = .ok b)
    (made : Fragment.ofBlock p b = .ok f) (going : m.stop = .ofInt 0) {outcome : Script.Outcome}
    {m' : Machine} (ran : run m f.code = (outcome, m')) :
    (∀ k i, b.instructions[k]? = some i → i.pauses = true → k + 1 = b.instructions.length) ∧
    (m'.stop = .ofInt 1 ↔ ∃ i, i.pauses = true ∧ b.Reaches p m i) ∧
    (∀ i, i.pauses = true → b.Reaches p m i →
      m'.stop = .ofInt 1 ∧ m'.pc = .ofInt i.next.toNat) ∧
    (¬ b.RunsThrough p m (b.instructions.length - 1) → m'.stop = .ofInt 0) ∧
    (f.safety = .safe → m'.stop = .ofInt 0) := by
  obtain ⟨init, stop, last, -, met, ends, -, rfl⟩ := (decode_eq_ok_iff cap b).mp decoded
  obtain rfl : (run m f.code).2 = m' := by rw [ran]
  have reached_iff := exists_reaches_iff (m := m) decoded made
  have missed (other : ¬ (last.pauses = true ∧
      RunsThrough p ⟨addr, init ++ [last]⟩ m init.length)) : (run m f.code).2.stop = .ofInt 0 :=
    (stop_of_not_reached decoded made other).trans going
  refine ⟨?_, ?_, ?_, ?_, ?_⟩
  · intro k i at_ pauses
    obtain ⟨rfl, -⟩ := last_of_pauses decoded made at_ pauses
    simp
  · rw [reached_iff]
    constructor
    · intro stopped
      by_contra other
      exact ofInt_one_ne_zero (stopped.symm.trans (missed other))
    · exact fun reached => (stopped_of_reached decoded made reached.1 reached.2).1
  · rintro i pauses ⟨k, at_, through⟩
    obtain ⟨rfl, rfl⟩ := last_of_pauses decoded made at_ pauses
    exact stopped_of_reached decoded made pauses through
  · intro early
    refine missed fun reached => early ?_
    simpa using reached.2
  · intro safe
    refine missed fun reached => ?_
    have never := Fragment.going_of_safe made safe last (by simp)
    rw [never] at reached
    cases reached.1

-- Quitting behind another instruction: the object whose method would end the game is not there, so
-- the run throws, but the machine is stopped before.
theorem stops_iff_reaches_pause_quit :
    let b : Block := ⟨0, [{ addr := 0, opcode := 180, next := 1 },
      { addr := 1, opcode := 186, next := 2, endsBlock := true, pauses := true }]⟩
    let m : Machine := { memory := .zeroed 512, globals := 16 }
    ∃ f m', decode ⟨#[0xB4, 0xBA], by decide⟩ ⟨5, 16⟩ 0 0 = .ok b ∧
      Fragment.ofBlock ⟨5, 16⟩ b = .ok f ∧ run m f.code = (.thrown .typeError, m') ∧
      m'.stop = .ofInt 1 ∧ m'.pc = .ofInt 2 := by
  intro b m
  have decoded : decode ⟨#[0xB4, 0xBA], by decide⟩ ⟨5, 16⟩ 0 0 = .ok b := by decide +kernel
  have result : (Fragment.ofBlock ⟨5, 16⟩ b).toOption.map (fun f => (run m f.code).1) =
      some (.thrown .typeError) := by
    decide +kernel
  have onward : (b.machineAt? ⟨5, 16⟩ m 1).isSome = true := by decide +kernel
  obtain ⟨m₁, found⟩ := Option.isSome_iff_exists.mp onward
  obtain ⟨f, made, thrown⟩ := Option.map_eq_some_iff.mp result
  have built := ok_of_toOption made
  have ran : run m f.code = (.thrown .typeError, (run m f.code).2) := Prod.ext thrown rfl
  obtain ⟨-, -, stopped, -, -⟩ := stops_iff_reaches_pause decoded built rfl ran
  exact ⟨f, _, decoded, built, ran, stopped _ rfl ⟨1, rfl, runsThrough_of_machineAt? found⟩⟩

end Block

end ZCode
