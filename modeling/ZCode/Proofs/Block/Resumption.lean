import ZCode.Proofs.Block.Linkage

set_option autoImplicit false

namespace ZCode

open ZCode.Script Statement

namespace Script

variable {α β : Type} {s s₁ : State}

theorem Gives.run_bind {x : Run α} {a : α} (first : Gives x s a s₁) (f : α → Run β) :
    (x >>= f).run.run s = (f a).run.run s₁ := by
  have ran : x.run.run s = (.ok a, s₁) := first
  rw [ExceptT.run_bind, StateT.run_bind, ran]
  rfl

theorem holds_bind {I : State → Prop} {x : Run α} {f : α → Run β} (first : I (x.run.run s).2)
    (rest : ∀ a, Preserves I (f a)) : I ((x >>= f).run.run s).2 := by
  rw [ExceptT.run_bind, StateT.run_bind]
  cases result : x.run.run s with
  | mk answer s₁ =>
    rw [result] at first
    cases answer with
    | error e => exact first
    | ok a => exact rest a s₁ first

theorem after_expr (e : Expr) (s : State) : after [.expr e] s = ((eval e).run.run s).2 := by
  simp only [after, execAll, exec, ExceptT.run_bind, StateT.run_bind]
  cases (eval e).run.run s with
  | mk answer s₁ => cases answer <;> rfl

theorem preserves_calls_writeWord (calls : List HostCall) (v : Value) (w : UInt16) :
    Preserves (fun s => s.machine.calls = calls) (writeWord v w) := by
  refine (preserves_offset v).bind fun pos => preserves_getMachine.bind fun m => ?_
  split
  · exact preserves_throw _
  · exact fun s holds => holds

end Script

namespace Statement

variable {p : Profile} {n : Nat} {op : Op} {i : Instruction} {m m₁ : Machine} {t x : Value}

theorem exists_pushed (m : Machine) (t : Value) :
    ∃ m₁ : Machine, Gives (eval pushPhrase.expr) (frame m t) t (frame m₁ t) ∧ m₁.calls = m.calls := by
  let raised : Machine := { m with sp := (applyBinary .add (.ofInt m.sp) (.ofInt 1)).toInt }
  have key : Gives (eval (.increment (runtime "sp").expr)) (frame m t) (.ofInt m.sp)
      (frame raised t) :=
    Gives.increment (Gives.placeMember gives_e) (gives_e.member rfl) rfl
  refine ⟨{ raised with stack := Machine.setWordIn m.stack m.sp t },
    Gives.assign (gives_s.placeIndex key) gives_t ?_, rfl⟩
  simp only [setPlace, setIndex, wholeKey?_ofInt]
  rfl

theorem calls_of_assign (p : Profile) (v : UInt8) {e : Phrase}
    (value : Gives (eval e.expr) (frame m t) x (frame m₁ t)) :
    (after [.expr (assignPhrase p v e).expr] (frame m t)).machine.calls = m₁.calls := by
  have kept := gives_keep value
  rw [after_expr, assignPhrase]
  split_ifs
  · obtain ⟨m₂, pushed, same⟩ := exists_pushed m₁ x
    have whole : (eval _).run.run _ = _ := kept.sequence pushed
    rw [Phrase.expr, whole]
    exact same
  · have whole : (eval _).run.run _ = _ := gives_setSlot (n := (v - 1).toNat) value
    rw [whole]
    rfl
  · have callee : Gives (eval (.member (runtime "ram").expr "setUint16")) (frame m₁ x)
        (.object (.method .setUint16)) (frame m₁ x) :=
      (gives_runtime "ram").member rfl
    have arguments := (gives_constant (p.globalAddr v).toNat).cons
      ((gives_t (m := m₁) (t := x)).cons gives_nil)
    have written := (preserves_calls_writeWord m₁.calls (.ofInt (p.globalAddr v).toNat)
      x.toNumber.toUInt16).bind fun _ => preserves_pure Value.undefined
    refine holds_bind (I := fun s => s.machine.calls = m₁.calls) ?_ fun _ => preserves_lookup "t"
    -- the value is kept, then the method and its arguments are found; the write itself may throw
    have behindValue := kept.run_bind fun _ =>
      eval (memory "ram" "setUint16" [.number (p.globalAddr v).toNat, .name "t"]).expr
    have behindCallee := callee.run_bind fun f => do
      let vs ← evalAll (Phrase.exprs [.number (p.globalAddr v).toNat, .name "t"])
      apply f vs
    have behindArguments := arguments.run_bind fun vs => apply (.object (.method .setUint16)) vs
    have ran := behindValue.trans (behindCallee.trans behindArguments)
    exact (congrArg (fun r => r.2.machine.calls) ran).trans (written _ rfl)

/-- An opcode that saves or restores the game, with the method of the host that does it. Before version
4 there is no extended form of either. -/
def Saves (version : UInt8) (opcode : UInt16) (method : String) : Prop :=
  (opcode, method) ∈ [(181, "save"), (182, "restore")] ∨
    4 ≤ version ∧ (opcode, method) ∈ [(1000, "save"), (1001, "restore")]

instance (version : UInt8) (opcode : UInt16) (method : String) :
    Decidable (Saves version opcode method) :=
  inferInstanceAs (Decidable (_ ∨ _))

structure IsSaving (p : Profile) (method : String) (op : Op) : Prop where
  shape : shapeOf p.version op =
    if p.version < 4 then .branchingAndPausing else .storingAndPausing
  host : ∀ m, runtimeMember m method = .object (.method (.host method))
  body : ∀ i ops, body p i ops op = .ok ("e." ++ method ++ "(" ++ toString (resumption p i) ++ ")")
  meant : ∀ i ops, meant p i ops op =
    some (.value (hostPhrase method [.number (resumption p i).toNat]))
  joins : joins op = false

theorem exists_isSaving {method : String} {opcode : UInt16} (saves : Saves p.version opcode method) :
    ∃ op, Op.ofNumber? opcode = some op ∧ IsSaving p method op := by
  simp only [Saves, List.mem_cons, Prod.mk.injEq, List.not_mem_nil, or_false] at saves
  rcases saves with (⟨rfl, rfl⟩ | ⟨rfl, rfl⟩) | ⟨later, ⟨rfl, rfl⟩ | ⟨rfl, rfl⟩⟩
  · exact ⟨.save, rfl, shapeOf_save _, fun _ => rfl, fun _ _ => rfl, fun _ _ => rfl, rfl⟩
  · exact ⟨.restore, rfl, shapeOf_restore _, fun _ => rfl, fun _ _ => rfl, fun _ _ => rfl, rfl⟩
  · exact ⟨.saveTable, rfl, (if_neg (UInt8.not_lt.mpr later)).symm, fun _ => rfl, fun _ _ => rfl,
      fun _ _ => rfl, rfl⟩
  · exact ⟨.restoreTable, rfl, (if_neg (UInt8.not_lt.mpr later)).symm, fun _ => rfl, fun _ _ => rfl,
      fun _ _ => rfl, rfl⟩

theorem Shaped.suspends (shaped : Shaped p n op i) {method : String} (saving : IsSaving p method op) :
    i.endsBlock = true ∧ i.pauses = true := by
  rw [shaped.endsBlock, shaped.pauses, saving.shape]
  split <;> exact ⟨rfl, rfl⟩

theorem exists_render_of_saving (shaped : Shaped p n op i) {method : String}
    (saving : IsSaving p method op) : ∃ text, render p i = .ok (s!"e.stop=1;e.pc={i.next};" ++ text) ∧
      (i.stores = false → text = "e." ++ method ++ "(" ++ toString (resumption p i) ++ ")") ∧
      ∀ v, i.stores = true → i.result = some v →
        text = assign p v ("e." ++ method ++ "(" ++ toString (resumption p i) ++ ")") := by
  obtain ⟨ends, pauses⟩ := shaped.suspends saving
  by_cases stores : i.stores = true
  · obtain ⟨v, result⟩ := Option.isSome_iff_exists.mp (shaped.result (shaped.stores ▸ stores))
    refine ⟨assign p v ("e." ++ method ++ "(" ++ toString (resumption p i) ++ ")"), ?_,
      by simp [stores], ?_⟩
    · cases branch : i.branch <;>
        simp [render, shaped.known, saving.body, ends, pauses, stores, storeVariable, result, branch,
          bind, Except.bind, pure, Except.pure]
    · intro u _ at_
      rw [Option.some.inj (result.symm.trans at_)]
  · refine ⟨_, ?_, fun _ => rfl, fun _ again => absurd again stores⟩
    cases branch : i.branch <;>
      simp [render, shaped.known, saving.body, ends, pauses, stores, branch, bind, Except.bind, pure,
        Except.pure]

theorem calls_of_saving (shaped : Shaped p n op i) {method : String} (saving : IsSaving p method op)
    {cs : List Clause} (found : sense p i = some cs) (m : Machine) :
    (after (Clause.stmts cs) (frame m (.ofInt 0))).machine.calls =
      ⟨method, [((resumption p i).toNat : Int)]⟩ :: m.calls := by
  obtain ⟨ends, pauses⟩ := shaped.suspends saving
  obtain ⟨e, e', effected, carried, parts⟩ | ⟨as, effected, -⟩ := sense_cases shaped found
  · rw [saving.meant] at effected
    cases effected
    -- it ends its block, so no branch is written behind the call
    obtain rfl : cs = pausing i ++ [.simple (.expr e')] := by
      rcases parts with parts | ⟨b, -, goes, -⟩
      · exact parts
      · rw [ends] at goes
        cases goes
    let resumed : Machine := { m with stop := .ofInt 1, pc := .ofInt i.next.toNat }
    let told : Machine := { resumed with
      calls := ⟨method, [((resumption p i).toNat : Int)]⟩ :: m.calls }
    have line : after (Clause.stmts (pausing i ++ [.simple (.expr e')])) (frame m (.ofInt 0)) =
        after [.expr e'.expr] (frame resumed (.ofInt 0)) := by
      have stopping : Gives (exec (Clause.simple (.expr (setPhrase "stop" (.number 1)))).stmt)
          (frame m (.ofInt 0)) .normal (frame { m with stop := .ofInt 1 } (.ofInt 0)) :=
        gives_setNumber (bound_frame m _) rfl
      have resuming : Gives (exec (Clause.simple (.expr (setPhrase "pc"
          (.number i.next.toNat)))).stmt) (frame { m with stop := .ofInt 1 } (.ofInt 0)) .normal
          (frame resumed (.ofInt 0)) :=
        gives_setNumber (bound_frame _ _) rfl
      rw [pausing, if_pos pauses]
      exact (after_cons stopping).trans (after_cons resuming)
    have value : Gives (eval (hostPhrase method [.number (resumption p i).toNat]).expr)
        (frame resumed (.ofInt 0)) (.ofInt 0) (frame told (.ofInt 0)) := by
      have callee := gives_runtime (m := resumed) (t := .ofInt 0) method
      rw [saving.host] at callee
      refine callee.call ((gives_constant _).cons gives_nil) ?_
      have recorded : Value.recordedAll [.ofInt (resumption p i).toNat] =
          [((resumption p i).toNat : Int)] := by
        simp [Value.recordedAll, Value.recorded_ofInt]
      rw [← show _ = told from congrArg (fun args => { resumed with calls := ⟨method, args⟩ :: m.calls })
        recorded]
      rfl
    rw [line]
    rcases carried with ⟨-, rfl⟩ | ⟨-, v, -, rfl⟩
    · rw [after_expr, show (eval _).run.run _ = _ from value]
      rfl
    · exact calls_of_assign p v value
  · rw [saving.meant] at effected
    cases effected

end Statement

theorem Opening.bare_of_opcode {o : Opening} (number : o.opcode = 181 ∨ o.opcode = 182) :
    ∃ k, o = .bare k := by
  have same : o.opcode.toNat = 181 ∨ o.opcode.toNat = 182 :=
    number.imp (congrArg UInt16.toNat) (congrArg UInt16.toNat)
  cases o with
  | bare k => exact ⟨k, rfl⟩
  | long k | short k | typedTwo k | typed k =>
    have small := k.isLt
    rw [Opening.opcode, UInt16.toNat_ofNat'] at same
    omega
  | extended k =>
    have small := k.toNat_lt
    rw [Opening.opcode, UInt16.toNat_ofNat'] at same
    omega

namespace Layout

variable {version : UInt8} {l : Layout}

theorem bytes_of_bare (fits : l.Fits version) {k : Fin 16} (bare : l.opening = .bare k)
    (keeps : l.result = none) {s : Suffix} (suffix : l.suffix = some s) (silent : l.text = none) :
    l.bytes = l.opening.bytes ++ s.bytes := by
  have types : l.types = [] := by
    have count := fits.types
    rw [bare] at count
    exact List.length_eq_zero_iff.mp count
  have operands : l.operands = [] := by
    have written := fits.operands
    rw [bare] at written
    exact List.map_eq_nil_iff.mp written
  simp [bytes, body, textBytes, types, operands, keeps, suffix, silent]

theorem bytes_of_result {v : UInt8} (result : l.result = some v) (straight : l.suffix = none)
    (silent : l.text = none) : ∃ before, before ≠ [] ∧ l.bytes = before ++ [v] := by
  refine ⟨l.opening.bytes ++ (l.types.map Prod.fst ++ l.operands.flatMap Written.bytes), ?_, ?_⟩
  · cases l.opening <;> simp [Opening.bytes]
  · simp [bytes, body, textBytes, result, straight, silent]

end Layout

namespace Statement

variable {img : Image} {p : Profile} {addr : UInt32} {i : Instruction} {op : Op} {method : String}

theorem parts_of_saves {l : Layout} (fits : l.Fits p.version)
    (saves : Saves p.version l.opcode method) : l.text = none ∧
      if p.version < 4 then l.result = none ∧ l.suffix.isSome = true
      else l.suffix = none ∧ l.result.isSome = true := by
  obtain ⟨op, known, saving⟩ := exists_isSaving saves
  have shape : Shape.of p.version l.opcode =
      if p.version < 4 then .branchingAndPausing else .storingAndPausing := by
    rw [← saving.shape, Shape.of, known]
    rfl
  have plain : l.opcode ∉ [178, 179] ∧ l.opcode ∉ [25, 136, 224, 236, 1010] := by
    simp only [Saves, List.mem_cons, Prod.mk.injEq, List.not_mem_nil, or_false] at saves
    rcases saves with (⟨number, -⟩ | ⟨number, -⟩) | ⟨-, ⟨number, -⟩ | ⟨number, -⟩⟩ <;>
      rw [number] <;> decide
  have text := fits.text
  have result := fits.result
  have suffix := fits.suffix
  rw [shape] at result suffix
  refine ⟨by simpa [plain.1] using text, ?_⟩
  split_ifs at result suffix ⊢
  · exact ⟨by simpa [plain.2, Shape.branchingAndPausing] using result,
      suffix.mpr rfl⟩
  · exact ⟨by simpa [Shape.storingAndPausing] using suffix, result.mpr (.inl rfl)⟩

theorem suffix_at_resumption (decoded : Instruction.decode img p addr = .ok i)
    (saves : Saves p.version i.opcode method) (three : p.version = 3) :
    i.addr < resumption p i ∧ resumption p i < i.next ∧
      ∃ b, i.branch = some b ∧ (Instruction.readBranch img).run (resumption p i) = .ok (b, i.next) := by
  obtain ⟨l, fits, held, rfl⟩ := (Instruction.decode_eq_ok_iff img p addr i).mp decoded
  obtain ⟨silent, parts⟩ := parts_of_saves fits saves
  rw [if_pos (by rw [three]; decide), Option.isSome_iff_exists] at parts
  obtain ⟨keeps, suffix, branching⟩ := parts
  have number : l.opening.opcode = 181 ∨ l.opening.opcode = 182 := by
    simp only [Saves, List.mem_cons, Prod.mk.injEq, List.not_mem_nil, or_false] at saves
    rcases saves with (⟨number, -⟩ | ⟨number, -⟩) | ⟨later, -⟩
    · exact .inl number
    · exact .inr number
    · exact absurd later (by rw [three]; decide)
  obtain ⟨k, bare⟩ := Opening.bare_of_opcode number
  -- there are no operands, so the suffix stands right behind the opcode
  have bytes := l.bytes_of_bare fits bare keeps branching silent
  have next : (l.instruction p addr).next.toNat = addr.toNat + l.bytes.length :=
    Instruction.toNat_behind held
  rw [bytes, bare] at held next
  rw [Image.holds_append] at held
  have behind : (resumption p (l.instruction p addr)).toNat = addr.toNat + 1 := by
    rw [resumption, if_pos (by rw [three]; decide)]
    have room := Instruction.toNat_behind held.1
    rwa [UInt32.ofNat_add, UInt32.ofNat_toNat] at room
  have long : 0 < suffix.bytes.length := by cases suffix <;> exact Nat.succ_pos _
  rw [List.length_append] at next
  refine ⟨?_, ?_, suffix.branch, ?_, ?_⟩
  · rw [UInt32.lt_iff_toNat_lt, behind]
    exact Nat.lt_succ_self _
  · rw [UInt32.lt_iff_toNat_lt, behind, next]
    exact Nat.add_lt_add_left (Nat.lt_add_of_pos_right long) _
  · simp [Layout.instruction, branching]
  · refine (Instruction.readBranch_eq_ok_iff img _ _ _).mpr ⟨suffix, rfl, ?_, ?_⟩
    · rw [behind]
      exact held.2
    · rw [behind, next, Nat.add_assoc]
      rfl

theorem store_at_resumption (decoded : Instruction.decode img p addr = .ok i)
    (saves : Saves p.version i.opcode method) (later : 4 ≤ p.version) :
    i.addr < resumption p i ∧ resumption p i < i.next ∧
      ∃ v, i.result = some v ∧ img.u8 (resumption p i) = .ok v ∧
        (resumption p i).toNat + 1 = i.next.toNat := by
  obtain ⟨l, fits, held, rfl⟩ := (Instruction.decode_eq_ok_iff img p addr i).mp decoded
  obtain ⟨silent, parts⟩ := parts_of_saves fits saves
  rw [if_neg (UInt8.not_lt.mpr later), Option.isSome_iff_exists] at parts
  obtain ⟨straight, v, result⟩ := parts
  -- neither a branch nor text follows, so the store byte is the last one
  obtain ⟨before, some_, bytes⟩ := l.bytes_of_result result straight silent
  have next : (l.instruction p addr).next.toNat = addr.toNat + l.bytes.length :=
    Instruction.toNat_behind held
  rw [bytes] at held next
  rw [Image.holds_append] at held
  rw [List.length_append, List.length_singleton] at next
  have long := List.length_pos_iff.mpr some_
  have last : (resumption p (l.instruction p addr)).toNat = addr.toNat + before.length := by
    have other : ¬ (p.version == 3) = true := by
      rw [beq_iff_eq]
      rintro three
      exact absurd later (by rw [three]; decide)
    have positive : 1 ≤ (l.instruction p addr).next := by
      rw [UInt32.le_iff_toNat_le, next]
      exact Nat.le_add_left 1 _
    rw [resumption, if_neg other, UInt32.toNat_sub_of_le _ _ positive, next]
    rfl
  refine ⟨?_, ?_, v, result, ?_, ?_⟩
  · rw [UInt32.lt_iff_toNat_lt, last]
    exact Nat.lt_add_of_pos_right long
  · rw [UInt32.lt_iff_toNat_lt, last, next]
    exact Nat.lt_succ_self _
  · rw [Instruction.u8_eq_ok_iff, last]
    exact held.2.1
  · rw [last, next]
    rfl

theorem exists_fragment_of_render {text : String} (made : render p i = .ok text) :
    ∃ f, Fragment.ofBlock p ⟨i.addr, [i]⟩ = .ok f := by
  simp only [Fragment.ofBlock, List.mapM_cons, List.mapM_nil, made]
  exact ⟨_, rfl⟩

/-- The script of a saving instruction hands one address to the host, inside the instruction. In
version 3 the branch suffix stands there: read again, it gives the same branch and ends where the
instruction does. From version 4 on it is the address of the store byte, which is the last one. -/
theorem resumes_at_suffix {img : Image} {p : Profile} (supported : supportedVersion p.version = true)
    {addr : UInt32} {i : Instruction} (decoded : Instruction.decode img p addr = .ok i)
    {method : String} (saves : Saves p.version i.opcode method) :
    ∃ (r : UInt32) (text : String) (f : Fragment),
      render p i = .ok (s!"e.stop=1;e.pc={i.next};" ++ text) ∧
      Fragment.ofBlock p ⟨i.addr, [i]⟩ = .ok f ∧
      (∀ m, (Script.run m f.code).2.calls = ⟨method, [(r.toNat : Int)]⟩ :: m.calls) ∧
      i.addr < r ∧ r < i.next ∧
      (p.version = 3 → text = "e." ++ method ++ "(" ++ toString r ++ ")" ∧
        ∃ b, i.branch = some b ∧ (Instruction.readBranch img).run r = .ok (b, i.next)) ∧
      (p.version ≠ 3 → ∃ v, i.result = some v ∧
        text = assign p v ("e." ++ method ++ "(" ++ toString r ++ ")") ∧
        img.u8 r = .ok v ∧ r.toNat + 1 = i.next.toNat) := by
  obtain ⟨op, known, saving⟩ := exists_isSaving saves
  have shaped := shaped_of_decode (Nat.le_refl _) decoded known
  obtain ⟨text, made, told, stored⟩ := exists_render_of_saving shaped saving
  obtain ⟨f, built⟩ := exists_fragment_of_render made
  have recorded (m : Machine) : (Script.run m f.code).2.calls =
      ⟨method, [((resumption p i).toNat : Int)]⟩ :: m.calls := by
    have joined : bare i = false := by
      rw [bare, shaped.known, Option.any_some, saving.joins, Bool.and_false]
    have members : ∀ j ∈ [i], ∃ pos, Instruction.decode img p pos = .ok j := by
      simpa using ⟨addr, decoded⟩
    have read := Fragment.parse?_code (b := ⟨i.addr, [i]⟩) members built
    simp only [List.any_cons, List.any_nil, joined, Bool.or_self, Bool.false_eq_true, if_false,
      List.flatMap_singleton] at read
    rcases exists_sense shaped made with ⟨cs, found⟩ | gap
    · rw [Block.machine_of_run read, stmts, found]
      exact calls_of_saving shaped saving found m
    · rw [joined] at gap
      cases gap
  refine ⟨resumption p i, text, f, made, built, recorded, ?_⟩
  by_cases three : p.version = 3
  · have keeps : i.stores = false := by
      rw [shaped.stores, saving.shape, if_pos (by rw [three]; decide)]
      rfl
    obtain ⟨above, below, again⟩ := suffix_at_resumption decoded saves three
    exact ⟨above, below, fun _ => ⟨told keeps, again⟩, fun other => absurd three other⟩
  · have later : 4 ≤ p.version := by
      simp only [supportedVersion, Bool.and_eq_true, decide_eq_true_eq, UInt8.le_iff_toNat_le,
        UInt8.reduceToNat] at supported ⊢
      have other : p.version.toNat ≠ 3 := fun same => three (UInt8.toNat_inj.mp same)
      omega
    have stores : i.stores = true := by
      rw [shaped.stores, saving.shape, if_neg (UInt8.not_lt.mpr later)]
      rfl
    obtain ⟨above, below, v, result, byte, last⟩ := store_at_resumption decoded saves later
    exact ⟨above, below, fun again => absurd again three,
      fun _ => ⟨v, result, stored v stores result, byte, last⟩⟩

-- A save of version 3 with a branch in two bytes, and one of version 5 with three operands.
theorem resumes_at_suffix_both :
    let old : Instruction :=
      { addr := 1, opcode := 181, branch := some ⟨true, -2⟩, next := 4, endsBlock := true,
        pauses := true }
    let new : Instruction :=
      { addr := 0, opcode := 1000, operands := [⟨.constant, 1⟩, ⟨.stack, 0⟩, ⟨.constant, 258⟩],
        result := some 18, stores := true, next := 8, endsBlock := true, pauses := true }
    let tape : Image := ⟨#[0, 0xB5, 0xBF, 0xFE], by decide⟩
    let disk : Image := ⟨#[0xBE, 0, 0x63, 1, 0, 1, 2, 18], by decide⟩
    Instruction.decode tape ⟨3, 0⟩ 1 = .ok old ∧ Instruction.decode disk ⟨5, 0⟩ 0 = .ok new ∧
      (∃ (r : UInt32) (f : Fragment), Fragment.ofBlock ⟨3, 0⟩ ⟨1, [old]⟩ = .ok f ∧
        (∀ m, (Script.run m f.code).2.calls = ⟨"save", [(r.toNat : Int)]⟩ :: m.calls) ∧
        (Instruction.readBranch tape).run r = .ok (⟨true, -2⟩, 4)) ∧
      ∃ f, Fragment.ofBlock ⟨5, 0⟩ ⟨0, [new]⟩ = .ok f ∧
        ∀ m, (Script.run m f.code).2.calls = ⟨"save", [7]⟩ :: m.calls := by
  intro old new tape disk
  have first : Instruction.decode tape ⟨3, 0⟩ 1 = .ok old := by decide +kernel
  have second : Instruction.decode disk ⟨5, 0⟩ 0 = .ok new := by decide +kernel
  refine ⟨first, second, ?_, ?_⟩
  · obtain ⟨r, text, f, -, made, calls, -, -, suffix, -⟩ :=
      resumes_at_suffix (by decide) first (by decide : Saves 3 181 "save")
    obtain ⟨-, b, branch, again⟩ := suffix rfl
    cases branch
    exact ⟨r, f, made, calls, again⟩
  · obtain ⟨r, text, f, -, made, calls, -, -, -, store⟩ :=
      resumes_at_suffix (by decide) second (by decide : Saves 5 1000 "save")
    obtain ⟨v, -, -, -, last⟩ := store (by decide)
    have seven : r.toNat = 7 := Nat.succ.inj last
    rw [seven] at calls
    exact ⟨f, made, calls⟩

end Statement

end ZCode
