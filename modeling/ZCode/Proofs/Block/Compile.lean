import Mathlib.Data.List.Forall2
import ZCode.Proofs.Block.Meaning

set_option autoImplicit false

namespace ZCode

def Op.returnsValue : Op → Bool
  | .ret | .rtrue | .rfalse | .retPopped | .printRet | .throw => true
  | _ => false

end ZCode

namespace ZCode.Statement

open ZCode.Script Lexeme

def joins : Op → Bool
  | .jl | .jg | .or | .and | .add | .sub | .mul | .mod => true
  | _ => false

-- The text of such an instruction has nothing where an expression should be.
def bare (i : Instruction) : Bool :=
  i.operands.isEmpty && i.op?.any joins

-- What the text of an opcode is read as. A comma may stand behind the arguments of a call, as it
-- does behind those of `read` without operands.
def meant (p : Profile) (i : Instruction) (ops : List Phrase) (op : Op) : Option Effect :=
  if op = .read ∧ ops = [] then
    (if p.version < 5 then some 0 else i.result).map fun storer =>
      .value (hostPhrase "read" [.number storer.toNat])
  else effect p i ops op

def Effect.whole (p : Profile) (i : Instruction) (e : Effect) : Option (List Clause) := do
  let stored ← e.stored p i
  let branched ← stored.branched i
  branched.paused i

def sense (p : Profile) (i : Instruction) : Option (List Clause) := do
  let op ← i.op?
  let e ← meant p i (i.operands.map operandPhrase) op
  e.whole p i

def stmts (p : Profile) (i : Instruction) : List Stmt :=
  Clause.stmts ((sense p i).getD [])

theorem sense_eq_clauses {p : Profile} {i : Instruction}
    (other : ¬ (i.op? = some .read ∧ i.operands = [])) : sense p i = clauses p i := by
  rw [sense, clauses]
  cases known : i.op? with
  | none => rfl
  | some op =>
    have ordinary : meant p i (i.operands.map operandPhrase) op =
        effect p i (i.operands.map operandPhrase) op := by
      apply if_neg
      rintro ⟨rfl, absent⟩
      exact other ⟨known, List.map_eq_nil_iff.mp absent⟩
    simp only [Option.bind_eq_bind, Option.bind_some, ordinary]
    rfl

theorem ok_of_bind {α β : Type} {x : Except Fault α} {f : α → Except Fault β} {b : β}
    (made : x >>= f = .ok b) : ∃ a, x = .ok a ∧ f a = .ok b := by
  cases x with
  | error fault => cases made
  | ok a => exact ⟨a, rfl, made⟩

theorem mapM_eq_ok_iff {α β : Type} {f : α → Except Fault β} {as : List α} {bs : List β} :
    as.mapM f = .ok bs ↔ List.Forall₂ (fun a b => f a = .ok b) as bs := by
  constructor
  · intro made
    induction as generalizing bs with
    | nil =>
      cases made
      exact .nil
    | cons a rest ih =>
      rw [List.mapM_cons] at made
      obtain ⟨b, first, made⟩ := ok_of_bind made
      obtain ⟨later, others, made⟩ := ok_of_bind made
      cases made
      exact .cons first (ih others)
  · intro each
    induction each with
    | nil => rfl
    | cons first _ ih =>
      rw [List.mapM_cons, first, ih]
      rfl

theorem text_of_inlineText {i : Instruction} {text : UInt32} (found : inlineText i = .ok text) :
    i.text = some text := by
  rw [inlineText] at found
  split at found
  next held =>
    cases found
    exact held
  · cases found

theorem result_of_storeVariable {i : Instruction} {v : UInt8} (found : storeVariable i = .ok v) :
    i.result = some v := by
  rw [storeVariable] at found
  split at found
  next held =>
    cases found
    exact held
  · cases found

theorem exists_meant {p : Profile} {i : Instruction} {op : Op} {texts : List String} {s : String}
    (ops : List Phrase) (written : body p i texts op = .ok s) :
    (∃ e, meant p i ops op = some e) ∨ joins op = true ∧ ops = [] := by
  cases op with
  | jl | jg | or | and | add | sub | mul | mod =>
    cases ops with
    | nil => exact .inr ⟨rfl, rfl⟩
    | cons => exact .inl ⟨_, rfl⟩
  | print | printRet =>
    obtain ⟨text, found, -⟩ := ok_of_bind written
    exact .inl ⟨_, congrArg (Option.map _) (text_of_inlineText found)⟩
  | saveUndo | readChar =>
    obtain ⟨v, found, -⟩ := ok_of_bind written
    exact .inl ⟨_, congrArg (Option.map _) (result_of_storeVariable found)⟩
  | read =>
    obtain ⟨v, storer⟩ : ∃ v, (if p.version < 5 then some 0 else i.result) = some v := by
      by_cases old : p.version < 5
      · exact ⟨0, if_pos old⟩
      · simp only [body, if_neg old] at written
        obtain ⟨v, found, -⟩ := ok_of_bind written
        exact ⟨v, (if_neg old).trans (result_of_storeVariable found)⟩
    left
    cases ops with
    | nil =>
      refine ⟨.value (hostPhrase "read" [.number v.toNat]), ?_⟩
      simp only [meant, and_self, if_true, storer, Option.map_some]
    | cons => exact ⟨_, congrArg (Option.map _) storer⟩
  | _ => exact .inl ⟨_, rfl⟩

-- What is made of statements has no value to store or to branch on. It returns a value, or is made
-- of expressions, or returns if the host restores a state.
structure IsAction (version : UInt8) (op : Op) (as : List Clause) : Prop where
  keeps : (shapeOf version op).stores = false
  straight : (shapeOf version op).branches = false
  some_ : (shapeOf version op).pauses = true → as ≠ []
  returns : op.returnsValue = true → ∃ before e, as = before ++ [Clause.simple (.ret (some e))]
  goes : op.returnsValue = false → (∀ c ∈ as, ∃ e, c = .simple (.expr e)) ∨
    as = [.when (hostPhrase "restore_undo" []) (.ret none)]

theorem isAction_of_meant {p : Profile} {i : Instruction} {ops : List Phrase} {op : Op}
    {as : List Clause} (found : meant p i ops op = some (.action as)) :
    IsAction p.version op as := by
  cases op with
  | ret | rtrue | rfalse | retPopped =>
    cases found
    exact ⟨rfl, rfl, Bool.noConfusion, fun _ => ⟨[], _, rfl⟩, Bool.noConfusion⟩
  | throw =>
    cases found
    exact ⟨rfl, rfl, Bool.noConfusion, fun _ => ⟨[_], _, rfl⟩, Bool.noConfusion⟩
  | printRet =>
    obtain ⟨_, _, same⟩ := Option.map_eq_some_iff.mp found
    cases same
    exact ⟨rfl, rfl, Bool.noConfusion, fun _ => ⟨[_, _], _, rfl⟩, Bool.noConfusion⟩
  | nop | bufferMode | soundEffect | push | outputStream =>
    cases found
    exact ⟨rfl, rfl, Bool.noConfusion, Bool.noConfusion, fun _ => .inl (by simp)⟩
  | quit =>
    cases found
    exact ⟨rfl, rfl, fun _ => List.cons_ne_nil _ _, Bool.noConfusion, fun _ => .inl (by simp)⟩
  | restoreUndo =>
    cases found
    exact ⟨rfl, rfl, Bool.noConfusion, Bool.noConfusion, fun _ => .inr rfl⟩
  | showStatus =>
    by_cases old : p.version < 4
    · simp [meant, effect, old] at found
    · obtain rfl : [] = as := by simpa [meant, effect, old] using found
      have plain : shapeOf p.version .showStatus = {} := by rw [shapeOf_showStatus, if_neg old]
      exact ⟨by rw [plain], by rw [plain], by simp [plain], Bool.noConfusion,
        fun _ => .inl (by simp)⟩
  | jl | jg | or | and | add | sub | mul | mod => cases ops <;> cases found
  | print | saveUndo | readChar =>
    obtain ⟨_, _, same⟩ := Option.map_eq_some_iff.mp found
    cases same
  | read =>
    cases ops with
    | nil =>
      rw [meant, if_pos ⟨rfl, rfl⟩] at found
      obtain ⟨_, _, same⟩ := Option.map_eq_some_iff.mp found
      cases same
    | cons =>
      obtain ⟨_, _, same⟩ := Option.map_eq_some_iff.mp found
      cases same
  | _ => cases found

theorem whole_value {p : Profile} {i : Instruction} (e : Phrase)
    (held : i.stores = true → i.result.isSome = true) :
    ∃ cs, (Effect.value e).whole p i = some cs := by
  obtain ⟨e', stored⟩ : ∃ e', (Effect.value e).stored p i = some (.value e') := by
    by_cases stores : i.stores = true
    · obtain ⟨v, result⟩ := Option.isSome_iff_exists.mp (held stores)
      exact ⟨assignPhrase p v e, by simp [Effect.stored, stores, result]⟩
    · exact ⟨e, by simp [Effect.stored, stores]⟩
  obtain ⟨f, branched, some_⟩ : ∃ f, (Effect.value e').branched i = some f ∧ f.clauses ≠ [] := by
    cases branch : i.branch with
    | none => exact ⟨.value e', by simp [Effect.branched, branch], List.cons_ne_nil _ _⟩
    | some b =>
      by_cases ends : i.endsBlock = true
      · exact ⟨.value e', by simp [Effect.branched, branch, ends], List.cons_ne_nil _ _⟩
      · exact ⟨.action [branchClause i b e'], by simp [Effect.branched, branch, ends],
          List.cons_ne_nil _ _⟩
  have paused : ∃ cs, f.paused i = some cs := by
    by_cases pauses : i.pauses = true <;> simp [Effect.paused, pauses, some_]
  simpa [Effect.whole, stored, branched] using paused

theorem whole_action {p : Profile} {i : Instruction} {cs : List Clause} (keeps : i.stores = false)
    (straight : i.branch = none) (some_ : i.pauses = true → cs ≠ []) :
    ∃ ds, (Effect.action cs).whole p i = some ds := by
  have stored : (Effect.action cs).stored p i = some (.action cs) := by
    simp [Effect.stored, keeps]
  have branched : (Effect.action cs).branched i = some (.action cs) := by
    simp [Effect.branched, straight]
  by_cases pauses : i.pauses = true
  · simp [Effect.whole, stored, branched, Effect.paused, pauses, Effect.clauses, some_ pauses]
  · simp [Effect.whole, stored, branched, Effect.paused, pauses]

theorem exists_sense {p : Profile} {n : Nat} {op : Op} {i : Instruction} (shaped : Shaped p n op i)
    {s : String} (made : render p i = .ok s) : (∃ cs, sense p i = some cs) ∨ bare i = true := by
  simp only [render, shaped.known] at made
  obtain ⟨text, written, -⟩ := ok_of_bind made
  rcases exists_meant (i.operands.map operandPhrase) written with ⟨e, effected⟩ | ⟨joined, absent⟩
  · left
    have whole : ∃ cs, e.whole p i = some cs := by
      cases e with
      | value e => exact whole_value e fun stores => shaped.result (shaped.stores ▸ stores)
      | action cs =>
        have action := isAction_of_meant effected
        apply whole_action (shaped.stores.trans action.keeps)
        · simpa using shaped.branch.trans action.straight
        · exact fun pauses => action.some_ (shaped.pauses ▸ pauses)
    simpa [sense, shaped.known, effected] using whole
  · right
    simp [bare, shaped.known, joined, List.map_eq_nil_iff.mp absent]

-- The call of `read` without operands.
def trailing (n : Nat) : List Token :=
  [.word "e", .dot, .word "read", .openParen, .number n, .comma, .closeParen]

def assigned (p : Profile) (v : UInt8) (ts : List Token) : List Token :=
  if v == 0 then .word "t" :: .assign :: (ts ++ [Token.comma, .word "s", .openBracket, .word "e",
    .dot, .word "sp", .plusPlus, .closeBracket, .assign, .word "t"])
  else if v < 16 then .word "l" :: .openBracket :: .number (v - 1).toNat :: .closeBracket ::
    .assign :: ts
  else .word "t" :: .assign :: (ts ++ [Token.comma, .word "e", .dot, .word "ram", .dot,
    .word "setUint16", .openParen, .number (p.globalAddr v).toNat, .comma, .word "t", .closeParen,
    .comma, .word "t"])

theorem text_assigned {s : String} {ts : List Token}
    (spelled : s.toList = ts.flatMap Token.spelling) (p : Profile) (v : UInt8) :
    (assign p v s).toList = (assigned p v ts).flatMap Token.spelling := by
  simp only [assign, assigned]
  split
  · simp [Token.spelling, spelled]
  split
  · simp [Token.spelling, toString_self, toList_byte, spelled]
  · simp [Token.spelling, toString_self, toList_word, spelled]

theorem text_trailing (v : UInt8) :
    (s!"e.read({v}," ++ list [] ++ ")").toList = (trailing v.toNat).flatMap Token.spelling := by
  simp [trailing, list, Token.spelling, toString_self, toList_byte]

def words : List String :=
  ["e", "l", "s", "t", "sp", "ram", "read", "setUint16", "if"]

theorem isName_of_mem {w : String} (member : w ∈ words) : Token.isName w = true := by
  revert w
  decide

theorem neat_tokens {ts : List Token} (known : ∀ w, .word w ∈ ts → w ∈ words)
    (chain : ts.IsChain fun a b => Token.joins a b = false) : Neat (ts.map token) := by
  refine neat_map_token ?_ chain
  intro t member
  cases t with
  | word w => exact isName_of_mem (known w member)
  | _ => trivial

theorem passage_trailing (n : Nat) : Passage ((trailing n ++ [Token.semicolon]).map token)
    [.expr (hostPhrase "read" [.number n]).expr] := by
  refine passage_statement (k := 40) (neat_tokens ?_ ?_) rfl rfl
  · simp [trailing, words]
  · simp [trailing, Token.joins]

theorem passage_assigned (p : Profile) (v : UInt8) (n : Nat) :
    Passage ((assigned p v (trailing n) ++ [Token.semicolon]).map token)
      [.expr (assignPhrase p v (hostPhrase "read" [.number n])).expr] := by
  simp only [assigned, assignPhrase]
  split_ifs
  all_goals
    refine passage_statement (k := 40) (neat_tokens ?_ ?_) rfl rfl
    · simp [trailing, words]
    · simp [trailing, Token.joins]

def pauseRow (i : Instruction) : Row :=
  ⟨Fragment.note i, [.simple (.expr (setPhrase "stop" (.number 1))),
    .simple (.expr (setPhrase "pc" (.number i.next.toNat)))]⟩

theorem fits_pauseRow (i : Instruction) : (pauseRow i).Fits :=
  ⟨Fragment.star_notMem_note i, Fragment.sameLine_note i, rfl⟩

theorem text_pauseRow (i : Instruction) {s : String} {ts : List Token}
    (spelled : s.toList = ts.flatMap Token.spelling) :
    (Fragment.line i (s!"e.stop=1;e.pc={i.next};" ++ s)).toList =
      ((pauseRow i).lexemes ++ (ts ++ [Token.semicolon]).map token).flatMap chars := by
  rw [List.flatMap_append, flatMap_token]
  simp [Fragment.line, pauseRow, Fragment.note, Row.lexemes, Clause.lineLexemes, Clause.lexemes,
    Clause.needsEnd, Simple.lexemes, chars, setPhrase, runtime, Phrase.tokens, Token.spelling,
    toString_self, toList_address, Nat.toDigits_of_lt_base, Nat.digitChar, spelled]

theorem exists_passage_read {p : Profile} {n : Nat} {i : Instruction} (shaped : Shaped p n .read i)
    (absent : i.operands = []) {cs : List Clause} (found : sense p i = some cs) :
    ∃ s xs, render p i = .ok s ∧ (Fragment.line i s).toList = xs.flatMap chars ∧
      Passage xs (Clause.stmts cs) := by
  have pauses : i.pauses = true := by
    rw [shaped.pauses, shapeOf_read]
    split <;> rfl
  have straight : i.branch = none := by
    have shape : (shapeOf p.version .read).branches = false := by
      rw [shapeOf_read]
      split <;> rfl
    simpa using shaped.branch.trans shape
  have head := Row.passage (fits_pauseRow i)
  by_cases old : p.version < 5
  · have keeps : i.stores = false := by
      rw [shaped.stores, shapeOf_read, if_pos old]
      rfl
    refine ⟨_, _, ?_, text_pauseRow i (text_trailing 0), ?_⟩
    · simp [render, shaped.known, body, absent, old, keeps, straight, pauses, bind, Except.bind,
        pure, Except.pure]
    · simp only [sense, shaped.known, meant, absent, old, Effect.whole, Effect.stored, keeps,
        Effect.branched, straight, Effect.paused, pauses, Effect.clauses, Option.bind_eq_bind,
        Option.bind_some, List.map_nil, and_self, if_true, Option.map_some, Bool.false_eq_true,
        if_false, List.isEmpty_cons, Option.some.injEq] at found
      subst found
      exact head.append (passage_trailing 0)
  · have stores : i.stores = true := by
      rw [shaped.stores, shapeOf_read, if_neg old]
      rfl
    obtain ⟨v, result⟩ : ∃ v, i.result = some v :=
      Option.isSome_iff_exists.mp (shaped.result (shaped.stores ▸ stores))
    refine ⟨_, _, ?_, text_pauseRow i (text_assigned (text_trailing v) p v), ?_⟩
    · simp [render, shaped.known, body, absent, old, stores, result, storeVariable, straight, pauses,
        bind, Except.bind, pure, Except.pure]
    · simp only [sense, shaped.known, meant, absent, old, result, Effect.whole, Effect.stored, stores,
        Effect.branched, straight, Effect.paused, pauses, Effect.clauses, Option.bind_eq_bind,
        Option.bind_some, List.map_nil, and_self, if_true, Option.map_some, Bool.false_eq_true,
        if_false, List.isEmpty_cons, Option.some.injEq] at found
      subst found
      exact head.append (passage_assigned p v v.toNat)

-- The line of an instruction begins with tokens that no statement begins with.
structure Unreadable (i : Instruction) (s : String) : Prop where
  sameLine : ∀ c ∈ s.toList, endsLine c = false
  dead : ∃ ys rest, (Fragment.line i s).toList = ys.flatMap chars ++ rest ∧ Dead ys

theorem unreadable_of_tokens {i : Instruction} {s : String} {u : Token} {k : Nat} (t : Token)
    (ts : List Token) (rest : List Char)
    (spelled : s.toList ++ [';'] = (t :: ts).flatMap Token.spelling ++ rest)
    (sameLine : ∀ c ∈ rest, endsLine c = false)
    (neat : Neat ((t :: ts).map token)) (last : (t :: ts).getLast? = some u)
    (bracket : isBracket u = true) (other : t ≠ .closeBrace)
    (short : k < 8 * (ts.length + 1))
    (stuck : ∀ n rest, Parser.statement (n + k) (t :: (ts ++ rest)) = none) : Unreadable i s := by
  refine ⟨?_, _, rest, ?_,
    dead_statement (Fragment.star_notMem_note i) neat last ?_ other short stuck⟩
  · intro c member
    have inside : c ∈ (t :: ts).flatMap Token.spelling ++ rest :=
      spelled ▸ List.mem_append_left [';'] member
    rcases List.mem_append.mp inside with inside | inside
    · rw [← flatMap_token] at inside
      exact not_endsLine_of_sameLine neat.proper (by simp [Lexeme.sameLine]) inside
    · exact sameLine c inside
  · rw [List.flatMap_cons, List.flatMap_cons, List.flatMap_cons, flatMap_token]
    simp [Fragment.line, Fragment.note, toString_self, spelled, chars]
  · intro c
    cases u with
    | openParen | closeParen | openBrace | closeBrace | semicolon => rfl
    | _ => cases bracket

theorem unreadable_assign (p : Profile) (i : Instruction) (v : UInt8) :
    Unreadable i (assign p v "") := by
  have written : (assign p v "").toList ++ [';'] =
      (assigned p v [] ++ [Token.semicolon]).flatMap Token.spelling ++ [] := by
    rw [text_assigned (s := "") (show _ = List.flatMap _ [] from rfl)]
    simp [Token.spelling]
  simp only [assigned] at written
  split_ifs at written
  all_goals
    refine unreadable_of_tokens (k := 40) _ _ _ written (by simp) (neat_tokens ?_ ?_) rfl rfl
      (by simp) ?_ fun _ _ => rfl
    · simp [words]
    · simp [Token.joins]
    · simp

theorem sameLine_departure (i : Instruction) (b : Branch) :
    ∀ c ∈ (departure i b).toList, endsLine c = false := by
  have spelled {s : String} {e : Phrase} (fits : e.fits = true) (spells : Spells s e) :
      ∀ c ∈ s.toList, endsLine c = false := by
    intro c member
    rw [show s.toList = _ from spells, ← flatMap_token] at member
    exact not_endsLine_of_sameLine (complete_tokens fits).proper (by simp [Lexeme.sameLine]) member
  have offset := spelled (by cases b.offset.toInt <;> rfl) (spells_integer b.offset.toInt)
  have target := spelled rfl (spells_number (i.jumpTarget b.offset.toInt).toNat)
  intro c member
  rw [departure] at member
  split at member <;> simp only [String.toList_append, List.mem_append] at member
  · rcases member with inside | inside
    · exact not_endsLine_of_all rfl inside
    · exact offset c inside
  · rcases member with (inside | inside) | inside
    · exact not_endsLine_of_all rfl inside
    · exact target c inside
    · exact not_endsLine_of_all rfl inside

theorem unreadable_branch (i : Instruction) (b : Branch) : Unreadable i (branch i b "") := by
  have behind (b : Branch) :
      ∀ c ∈ ')' :: '\x7b' :: ((departure i b).toList ++ ['\x7d', ';']), endsLine c = false := by
    intro c member
    simp only [List.mem_cons, List.mem_append, List.not_mem_nil, or_false] at member
    rcases member with rfl | rfl | inside | rfl | rfl
    · rfl
    · rfl
    · exact sameLine_departure i b c inside
    · rfl
    · rfl
  cases ifTrue : b.ifTrue with
  | true =>
    apply unreadable_of_tokens (k := 20) (.word "if") [.openParen, .openParen, .closeParen]
      (')' :: '\x7b' :: ((departure i b).toList ++ ['\x7d', ';'])) ?_ (behind b) ?_ rfl rfl
      (by simp)
    · simp
    · exact fun _ _ => rfl
    · simp [branch, ifTrue, Token.spelling]
    · exact neat_tokens (by simp [words]) (by simp [Token.joins])
  | false =>
    apply unreadable_of_tokens (k := 20) (.word "if") [.openParen, .bang, .openParen, .closeParen]
      (')' :: '\x7b' :: ((departure i b).toList ++ ['\x7d', ';'])) ?_ (behind b) ?_ rfl rfl
      (by simp)
    · simp
    · exact fun _ _ => rfl
    · simp [branch, ifTrue, Token.spelling]
    · exact neat_tokens (by simp [words]) (by simp [Token.joins])

theorem unreadable_of_bare {p : Profile} {n : Nat} {op : Op} {i : Instruction}
    (shaped : Shaped p n op i) (joined : joins op = true) (absent : i.operands = []) {s : String}
    (made : render p i = .ok s) : Unreadable i s := by
  have known := shaped.known
  cases op with
  | jl | jg =>
    have pauses : i.pauses = false := shaped.pauses
    have keeps : i.stores = false := shaped.stores
    have goes : i.endsBlock = false := shaped.endsBlock
    obtain ⟨b, branch⟩ := Option.isSome_iff_exists.mp (shaped.branch.trans rfl)
    have text : render p i = .ok (Statement.branch i b "") := by
      simp [render, known, body, absent, keeps, branch, goes, pauses, bind, Except.bind, pure,
        Except.pure]
    obtain rfl := Except.ok.inj (made.symm.trans text)
    exact unreadable_branch i b
  | or | and | add | sub | mul | mod =>
    have pauses : i.pauses = false := shaped.pauses
    have stores : i.stores = true := shaped.stores
    have straight : i.branch.isSome = false := shaped.branch
    rw [Option.isSome_eq_false_iff, Option.isNone_iff_eq_none] at straight
    obtain ⟨v, result⟩ := Option.isSome_iff_exists.mp (shaped.result rfl)
    have text : render p i = .ok (assign p v "") := by
      simp [render, known, body, absent, stores, result, storeVariable, straight, pauses, bind,
        Except.bind, pure, Except.pure]
    obtain rfl := Except.ok.inj (made.symm.trans text)
    exact unreadable_assign p i v
  | _ => cases joined

theorem op_of_render {p : Profile} {i : Instruction} {s : String} (made : render p i = .ok s) :
    ∃ op, i.op? = some op := by
  cases known : i.op? with
  | some op => exact ⟨op, rfl⟩
  | none =>
    simp only [render, known] at made
    cases made

theorem shaped_of_render {img : Image} {p : Profile} {pos : UInt32} {i : Instruction} {s : String}
    (decoded : Instruction.decode img p pos = .ok i) (made : render p i = .ok s) :
    ∃ op, Shaped p (p.globals.toNat + Settings.globalsSize) op i := by
  obtain ⟨op, known⟩ := op_of_render made
  exact ⟨op, shaped_of_decode (Nat.le_refl _) decoded known⟩

theorem exists_passage {p : Profile} {n : Nat} {op : Op} {i : Instruction}
    (shaped : Shaped p n op i) {s : String} (made : render p i = .ok s) {cs : List Clause}
    (found : sense p i = some cs) :
    ∃ xs, (Fragment.line i s).toList = xs.flatMap chars ∧ Passage xs (Clause.stmts cs) := by
  by_cases comma : i.op? = some .read ∧ i.operands = []
  · obtain rfl : op = .read := Option.some.inj (shaped.known.symm.trans comma.1)
    obtain ⟨t, xs, again, text, passage⟩ := exists_passage_read shaped comma.2 found
    obtain rfl := Except.ok.inj (made.symm.trans again)
    exact ⟨xs, text, passage⟩
  · rw [sense_eq_clauses comma] at found
    obtain ⟨t, again, text⟩ := exists_render found
    obtain rfl := Except.ok.inj (made.symm.trans again)
    have clauses : (Fragment.row p i).clauses = cs := by rw [Fragment.row, found, Option.getD_some]
    refine ⟨_, Fragment.toList_line (clauses ▸ text), clauses ▸ Row.passage ?_⟩
    exact ⟨Fragment.star_notMem_note i, Fragment.sameLine_note i,
      clauses ▸ fits_clauses shaped.unsigned found⟩

end ZCode.Statement

namespace ZCode.Fragment

open ZCode.Script Lexeme Statement

theorem passage_or_unreadable {img : Image} {p : Profile} {is : List Instruction}
    {statements : List String} (decoded : ∀ i ∈ is, ∃ pos, Instruction.decode img p pos = .ok i)
    (made : is.mapM (render p) = .ok statements) {xs : List Lexeme} {ss : List Stmt}
    (before : Passage xs ss) {code : String} (text : code.toList =
      xs.flatMap chars ++ (String.join (List.zipWith line is statements)).toList) :
    (is.any bare = false ∧
      ∃ ys, code.toList = ys.flatMap chars ∧ Passage ys (ss ++ is.flatMap (stmts p))) ∨
    (is.any bare = true ∧ parse? code = none) := by
  rw [mapM_eq_ok_iff] at made
  induction made generalizing xs ss with
  | nil => exact .inl ⟨rfl, xs, by simpa using text, by simpa using before⟩
  | @cons i s rest later first _ ih =>
    obtain ⟨pos, met⟩ := decoded i (by simp)
    obtain ⟨op, shaped⟩ := shaped_of_render met first
    have split : (String.join (List.zipWith line (i :: rest) (s :: later))).toList =
        (line i s).toList ++ (String.join (List.zipWith line rest later)).toList := by
      simp
    rw [split] at text
    by_cases gap : bare i = true
    · -- the tokens that no statement begins with stay first, whatever lines follow
      refine .inr ⟨by rw [List.any_cons, gap, Bool.true_or], ?_⟩
      simp only [bare, Bool.and_eq_true, List.isEmpty_iff, shaped.known, Option.any_some] at gap
      obtain ⟨ys, behind, spelled, dead⟩ := (unreadable_of_bare shaped gap.2 gap.1 first).dead
      apply before.parse?_eq_none dead
      rw [text, spelled, List.flatMap_append, List.append_assoc, List.append_assoc]
    · obtain ⟨cs, found⟩ := (exists_sense shaped first).resolve_right gap
      obtain ⟨ys, spelled, passage⟩ := exists_passage shaped first found
      have whole := ih (fun j member => decoded j (by simp [member])) (before.append passage)
        (by rw [text, spelled, List.flatMap_append, List.append_assoc])
      have same : stmts p i = Clause.stmts cs := by rw [stmts, found, Option.getD_some]
      rw [List.any_cons, Bool.eq_false_of_not_eq_true gap, Bool.false_or, List.flatMap_cons, same,
        ← List.append_assoc]
      exact whole

theorem passage_or_unreadable_code {img : Image} {p : Profile} {b : Block} {f : Fragment}
    (decoded : ∀ i ∈ b.instructions, ∃ pos, Instruction.decode img p pos = .ok i)
    (made : ofBlock p b = .ok f) :
    (b.instructions.any bare = false ∧ ∃ xs, f.code.toList = xs.flatMap chars ∧
      Passage xs (declaration :: b.instructions.flatMap (stmts p))) ∨
    (b.instructions.any bare = true ∧ parse? f.code = none) := by
  obtain ⟨statements, lines, made⟩ := ok_of_bind made
  obtain rfl := Except.ok.inj made
  apply passage_or_unreadable decoded lines passage_prologue
  rw [String.toList_append, ← chars_prologue]

theorem parse?_code {img : Image} {p : Profile} {b : Block} {f : Fragment}
    (decoded : ∀ i ∈ b.instructions, ∃ pos, Instruction.decode img p pos = .ok i)
    (made : ofBlock p b = .ok f) :
    parse? f.code = if b.instructions.any bare then none
      else some (declaration :: b.instructions.flatMap (stmts p)) := by
  rcases passage_or_unreadable_code decoded made with ⟨sound, xs, text, passage⟩ | ⟨gap, stuck⟩
  · rw [sound, if_neg Bool.false_ne_true, passage.parse?_eq_some text]
  · rw [gap, if_pos rfl, stuck]

theorem linesClosed_line {img : Image} {p : Profile} {pos : UInt32} {i : Instruction} {s : String}
    (decoded : Instruction.decode img p pos = .ok i) (made : render p i = .ok s) :
    LinesClosed (line i s).toList := by
  obtain ⟨op, shaped⟩ := shaped_of_render decoded made
  by_cases gap : bare i = true
  · simp only [bare, Bool.and_eq_true, List.isEmpty_iff, shaped.known, Option.any_some] at gap
    have plain := (unreadable_of_bare shaped gap.2 gap.1 made).sameLine
    have shape : (line i s).toList = '\n' ::
        ([comment (note i), blank ' '].flatMap chars ++ (s.toList ++ [';'])) := by
      simp [line, note, toString_self, chars]
    rw [shape]
    refine linesClosed_cons _ fun c member => ?_
    rcases List.mem_append.mp member with inside | inside
    · refine not_endsLine_of_sameLine ?_ ?_ inside
      · simpa [Proper, Token.isBlank] using proper_comment (star_notMem_note i)
      · simp only [List.all_cons, sameLine_note i]
        rfl
    · rcases List.mem_append.mp inside with inside | inside
      · exact plain c inside
      · obtain rfl : c = ';' := by simpa using inside
        rfl
  · obtain ⟨cs, found⟩ := (exists_sense shaped made).resolve_right gap
    obtain ⟨ys, spelled, passage⟩ := exists_passage shaped made found
    rw [spelled]
    exact passage.linesClosed

theorem linesClosed_lines {img : Image} {p : Profile} {is : List Instruction}
    {statements : List String} (decoded : ∀ i ∈ is, ∃ pos, Instruction.decode img p pos = .ok i)
    (made : is.mapM (render p) = .ok statements) {cs : List Char} (before : LinesClosed cs)
    (closed : cs.getLast? = some ';') :
    LinesClosed (cs ++ (String.join (List.zipWith line is statements)).toList) := by
  rw [mapM_eq_ok_iff] at made
  induction made generalizing cs with
  | nil => simpa using before
  | @cons i _ _ _ first _ ih =>
    obtain ⟨pos, met⟩ := decoded i (by simp)
    have next := ih (fun j member => decoded j (by simp [member]))
      (before.append closed (linesClosed_line met first)) (by simp [line])
    simpa using next

theorem linesClosed_code {img : Image} {p : Profile} {b : Block} {f : Fragment}
    (decoded : ∀ i ∈ b.instructions, ∃ pos, Instruction.decode img p pos = .ok i)
    (made : ofBlock p b = .ok f) : LinesClosed f.code.toList := by
  obtain ⟨statements, lines, made⟩ := ok_of_bind made
  obtain rfl := Except.ok.inj made
  rw [String.toList_append, ← chars_prologue]
  exact linesClosed_lines decoded lines passage_prologue.linesClosed passage_prologue.getLast?_chars

theorem mem_of_joins {op : Op} :
    joins op = true ↔ op ∈ [Op.jl, .jg, .or, .and, .add, .sub, .mul, .mod] := by
  cases op <;> decide

theorem any_bare_eq_false_iff {is : List Instruction} :
    is.any bare = false ↔ ∀ i ∈ is, ∀ op ∈ i.op?,
      op ∈ [Op.jl, .jg, .or, .and, .add, .sub, .mul, .mod] → i.operands ≠ [] := by
  simp only [List.any_eq_false, bare, Bool.and_eq_true, List.isEmpty_iff, Option.any_eq_true,
    mem_of_joins, ← Option.mem_def]
  constructor
  · intro sound i member op known joined absent
    exact sound i member ⟨absent, op, known, joined⟩
  · rintro sound i member ⟨absent, op, known, joined⟩
    exact sound i member op known joined absent

/-- Scripts are function bodies, but for one case. The script of a block is one, and compiles, if and
only if each comparison and each operation on words in the block has operands to stand between.
Either way its lines end behind semicolons, so inserting one at a line end would make no difference. -/
theorem valid_iff_operands {img : Image} {p : Profile} {cap : Nat} {addr : UInt32} {f : Fragment}
    (generated : generate img p cap addr = .ok f) :
    ∃ b, Block.decode img p cap addr = .ok b ∧
      (Valid f.code ↔ ∀ i ∈ b.instructions, ∀ op ∈ i.op?,
        op ∈ [Op.jl, .jg, .or, .and, .add, .sub, .mul, .mod] → i.operands ≠ []) ∧
      (compiles f.code = true ↔ Valid f.code) ∧ LinesClosed f.code.toList := by
  obtain ⟨b, decoded, made⟩ := ok_of_bind generated
  have members := (Block.forall_of_decode decoded).1
  refine ⟨b, decoded, ?_, ?_, linesClosed_code members made⟩
  all_goals rcases passage_or_unreadable_code members made with
    ⟨sound, xs, text, passage⟩ | ⟨gap, stuck⟩
  · exact iff_of_true (passage.valid text) (any_bare_eq_false_iff.mp sound)
  · refine iff_of_false (fun valid => ?_) fun sound => ?_
    · simpa [compiles, stuck] using valid.compiles
    · exact absurd (gap.symm.trans (any_bare_eq_false_iff.mpr sound)) (by simp)
  · exact iff_of_true (passage.valid text).compiles (passage.valid text)
  · exact ⟨fun read => by simp [compiles, stuck] at read, Valid.compiles⟩

-- An addition without operands at 0, and a read without operands at 4, whose call has a comma
-- behind its only argument.
theorem valid_iff_operands_none :
    let img : Image := ⟨#[0xD4, 0xFF, 0, 0xB0, 0xE4, 0xFF, 0, 0xB0], by decide⟩
    (∃ f, generate img ⟨5, 16⟩ 4096 0 = .ok f ∧ ¬ Valid f.code ∧ compiles f.code = false) ∧
      ∃ f, generate img ⟨5, 16⟩ 4096 4 = .ok f ∧ Valid f.code ∧ compiles f.code = true := by
  intro img
  have rendered (addr : UInt32) (ok : (generate img ⟨5, 16⟩ 4096 addr).toBool = true) :
      ∃ f, generate img ⟨5, 16⟩ 4096 addr = .ok f := by
    cases made : generate img ⟨5, 16⟩ 4096 addr with
    | error fault =>
      rw [made] at ok
      cases ok
    | ok f => exact ⟨f, rfl⟩
  constructor
  · obtain ⟨f, made⟩ := rendered 0 (by decide +kernel)
    obtain ⟨b, decoded, valid, read, -⟩ := valid_iff_operands made
    have block : Block.decode img ⟨5, 16⟩ 4096 0 = .ok ⟨0, [
        { addr := 0, opcode := 20, result := some 0, stores := true, next := 3 },
        { addr := 3, opcode := 176, next := 4, endsBlock := true }]⟩ := by
      decide +kernel
    obtain rfl := Except.ok.inj (decoded.symm.trans block)
    have wrong : ¬ Valid f.code := by
      rw [valid]
      decide
    exact ⟨f, made, wrong, Bool.eq_false_iff.mpr fun good => wrong (read.mp good)⟩
  · obtain ⟨f, made⟩ := rendered 4 (by decide +kernel)
    obtain ⟨b, decoded, valid, read, -⟩ := valid_iff_operands made
    have block : Block.decode img ⟨5, 16⟩ 4096 4 = .ok ⟨4, [
        { addr := 4, opcode := 228, result := some 0, stores := true, next := 7, endsBlock := true,
          pauses := true }]⟩ := by
      decide +kernel
    obtain rfl := Except.ok.inj (decoded.symm.trans block)
    have right : Valid f.code := valid.mpr (by decide)
    exact ⟨f, made, right, read.mpr right⟩

end ZCode.Fragment
