import Mathlib.Data.List.Chain
import ZCode.Proofs.Block.Fragment
import ZCode.Proofs.Text

set_option autoImplicit false

namespace ZCode.Statement

-- Two of these in a row open or close a comment.
def isStroke (c : Char) : Bool :=
  c == '/' || c == '*'

def Apart (a b : Char) : Prop :=
  isStroke a = false ∨ isStroke b = false

instance : DecidableRel Apart :=
  fun a b => inferInstanceAs (Decidable (isStroke a = false ∨ isStroke b = false))

-- Characters of one line that hold no comment delimiter and do not become part of one next to
-- others of the kind.
def SolidChars (cs : List Char) : Prop :=
  '\n' ∉ cs ∧ cs.IsChain Apart ∧ cs.head?.any isStroke = false ∧ cs.getLast?.any isStroke = false

instance (cs : List Char) : Decidable (SolidChars cs) :=
  inferInstanceAs (Decidable ('\n' ∉ cs ∧ cs.IsChain Apart ∧ cs.head?.any isStroke = false ∧
    cs.getLast?.any isStroke = false))

def Solid (text : String) : Prop :=
  SolidChars text.toList

-- A stroke between two texts that are not empty stands alone.
def Filled (text : String) : Prop :=
  Solid text ∧ text ≠ ""

-- A text that is written out is given by its characters, which are cheaper to check.
theorem Solid.lit {cs : List Char} (solid : SolidChars cs) : Solid (String.ofList cs) := by
  rw [Solid, String.toList_ofList]
  exact solid

theorem Filled.lit {cs : List Char} (solid : SolidChars cs) (some_ : cs ≠ []) :
    Filled (String.ofList cs) := by
  refine ⟨.lit solid, fun empty => some_ ?_⟩
  simpa using congrArg String.toList empty

variable {a b c : String} {texts : List String}

theorem Solid.append (left : Solid a) (right : Solid b) : Solid (a ++ b) := by
  obtain ⟨line, chain, first, last⟩ := left
  obtain ⟨line', chain', first', last'⟩ := right
  rw [Solid, SolidChars, String.toList_append, List.isChain_append, List.head?_append,
    List.getLast?_append, List.mem_append]
  refine ⟨by simp [line, line'], ⟨chain, chain', ?_⟩, ?_, ?_⟩
  · intro x final y _
    rw [Option.mem_def] at final
    rw [final] at last
    exact .inl last
  · revert first
    cases a.toList.head? with
    | none => exact fun _ => first'
    | some c => exact id
  · revert last'
    cases b.toList.getLast? with
    | none => exact fun _ => last
    | some c => exact id

theorem Solid.behind {cs : List Char} (front : SolidChars cs) (solid : Solid a) :
    Solid (String.ofList cs ++ a) :=
  (Solid.lit front).append solid

theorem Solid.before {cs : List Char} (solid : Solid a) (back : SolidChars cs) :
    Solid (a ++ String.ofList cs) :=
  solid.append (.lit back)

theorem Filled.append (left : Filled a) (right : Solid b) : Filled (a ++ b) := by
  refine ⟨left.1.append right, ?_⟩
  rw [ne_eq, String.append_eq_empty_iff]
  exact fun both => left.2 both.1

def Joins (separator : String) : Prop :=
  ∀ a b, Filled a → Filled b → Filled (a ++ separator ++ b)

theorem joins_of_solid (solid : Solid c) : Joins c :=
  fun _ _ left right => (left.append solid).append right.1

-- A stroke with texts on both sides: these do not end and begin with one.
theorem joins_of_stroke {s : Char} (stroke : isStroke s = true) (single : c.toList = [s]) :
    Joins c := by
  intro a b left right
  obtain ⟨⟨line, chain, first, last⟩, some_⟩ := left
  obtain ⟨⟨line', chain', first', last'⟩, some_'⟩ := right
  have full : a.toList ≠ [] := by simpa using some_
  have full' : b.toList ≠ [] := by simpa using some_'
  have other : s ≠ '\n' := by
    rintro rfl
    cases stroke
  have joined : (a ++ c ++ b).toList = a.toList ++ s :: b.toList := by simp [single]
  rw [Filled, Solid, SolidChars, joined]
  refine ⟨⟨?_, ?_, ?_, ?_⟩, ?_⟩
  · simp [line, line', other.symm]
  · rw [List.isChain_append, List.isChain_cons]
    refine ⟨chain, ⟨?_, chain'⟩, ?_⟩
    · intro y front
      rw [Option.mem_def] at front
      rw [front] at first'
      exact .inr first'
    · intro x final y _
      rw [Option.mem_def] at final
      rw [final] at last
      exact .inl last
  · rw [List.head?_append_of_ne_nil _ full]
    exact first
  · rw [List.getLast?_append_of_ne_nil _ (List.cons_ne_nil _ _), List.getLast?_cons_of_ne_nil full']
    exact last'
  · rw [ne_eq, String.append_eq_empty_iff]
    exact fun both => some_' both.2

theorem solid_intercalate {separator : String} (joins : Joins separator)
    (all : ∀ text ∈ texts, Filled text) : Solid (separator.intercalate texts) := by
  cases texts with
  | nil =>
    rw [String.intercalate_nil]
    exact .lit (by decide)
  | cons first rest =>
    -- behind the first text, everything stays a text that is not empty
    have filled : Filled (separator.intercalate (first :: rest)) := by
      induction rest generalizing first with
      | nil =>
        rw [String.intercalate_singleton]
        exact all first (by simp)
      | cons second rest ih =>
        rw [String.intercalate_cons_cons]
        apply joins _ _ (all first (by simp))
        apply ih
        exact fun text member => all text (List.mem_cons_of_mem _ member)
    exact filled.1

-- A digit is no stroke and no line end.
theorem plain_of_isDigit {c : Char} (digit : c.isDigit = true) : isStroke c = false ∧ c ≠ '\n' := by
  have apart {d : Char} := Text.ne_of_isDigit (d := d) digit
  simp only [isStroke, Bool.or_eq_false_iff, beq_eq_false_iff_ne]
  exact ⟨⟨apart rfl, apart rfl⟩, apart rfl⟩

theorem filled_nat (n : Nat) : Filled (toString n) := by
  have plain (c : Char) (member : c ∈ Nat.toDigits 10 n) : isStroke c = false ∧ c ≠ '\n' :=
    plain_of_isDigit (Nat.isDigit_of_mem_toDigits (by omega) (by omega) member)
  constructor
  · rw [Solid, SolidChars, toList_nat]
    refine ⟨fun member => (plain _ member).2 rfl, ?_, ?_, ?_⟩
    · apply List.Pairwise.isChain
      exact List.pairwise_of_forall_mem_list fun c member _ _ => .inl (plain c member).1
    · cases first : (Nat.toDigits 10 n).head? with
      | none => rfl
      | some c => exact (plain c (List.mem_of_head? first)).1
    · cases last : (Nat.toDigits 10 n).getLast? with
      | none => rfl
      | some c => exact (plain c (List.mem_of_getLast? last)).1
  · intro empty
    have none := toList_nat n
    rw [empty] at none
    exact Nat.toDigits_ne_nil none.symm

theorem filled_byte (v : UInt8) : Filled (toString v) := filled_nat v.toNat

theorem filled_word (v : UInt16) : Filled (toString v) := filled_nat v.toNat

theorem filled_address (v : UInt32) : Filled (toString v) := filled_nat v.toNat

theorem filled_int (n : Int) : Filled (toString n) := by
  cases n with
  | ofNat n => exact filled_nat n
  | negSucc n => exact Filled.append (.lit (by decide) (by decide)) (filled_nat (n + 1)).1

theorem filled_operand (op : Operand) : Filled (operand op) := by
  obtain ⟨kind, value⟩ := op
  have number := (filled_word value).1
  cases kind with
  | constant => exact filled_word value
  | signedConstant => exact filled_int _
  | stack => exact Filled.lit (by decide) (by decide)
  | signedStack => exact Filled.lit (by decide) (by decide)
  | _ => exact (Filled.append (.lit (by decide) (by decide)) number).append (.lit (by decide))

theorem filled_nth (all : ∀ text ∈ texts, Filled text) (k : Nat) : Filled (nth texts k) := by
  rw [nth, List.getD_eq_getElem?_getD]
  cases found : texts[k]? with
  | none => exact Filled.lit (by decide) (by decide)
  | some text => exact all text (List.mem_of_getElem? found)

theorem solid_list (all : ∀ text ∈ texts, Filled text) : Solid (list texts) :=
  solid_intercalate (joins_of_solid (.lit (by decide))) all

theorem solid_host {method : String} (named : Solid method) (all : ∀ text ∈ texts, Filled text) :
    Solid (host method texts) :=
  (((Solid.behind (by decide) named).before (by decide)).append
    (solid_list all)).before (by decide)

theorem solid_call (all : ∀ text ∈ texts, Filled text) (i : Instruction) :
    Solid (call i texts) := by
  have routine : Solid ("e.call(" ++ nth texts 0 ++ ",") :=
    (Solid.behind (by decide) (filled_nth all 0).1).before (by decide)
  have behind : Solid ("," ++ toString i.next ++ ",[") :=
    (Solid.behind (by decide) (filled_address i.next).1).before (by decide)
  have rest := solid_list fun text member => all text (List.mem_of_mem_tail member)
  rw [call]
  cases i.result with
  | none =>
    exact (((routine.before (by decide)).append behind).append rest).before (by decide)
  | some v =>
    exact (((routine.append (filled_byte v).1).append behind).append rest).before (by decide)

theorem joins_star : Joins "*" :=
  joins_of_stroke (s := '*') rfl (by decide)

-- The factor two of a word's index stands between digits and an operand.
theorem joins_doubled : Joins "+2*" := by
  intro a b left right
  have split : a ++ "+2*" ++ b = a ++ "+2" ++ "*" ++ b := by
    rw [@String.append_assoc a "+2" "*"]
    rfl
  rw [split]
  exact joins_star _ _ (left.append (.lit (by decide))) right

theorem solid_body {p : Profile} {i : Instruction} (all : ∀ text ∈ texts, Filled text) {op : Op}
    {code : String} (made : body p i texts op = .ok code) : Solid code := by
  have filled := filled_nth all
  have solid (k : Nat) := (filled_nth all k).1
  have next := (filled_address i.next).1
  cases op with
  | jin | test | testAttr | setAttr | clearAttr | insertObj | getProp | getPropAddr | setColour
  | getSibling | getChild | getParent | getPropLen | removeObj | putProp | random | splitWindow
  | setWindow | eraseWindow | eraseLine | getCursor | setTextStyle | inputStream | scanTable
  | tokenise | encodeText | copyTable | printTable | logShift | artShift | setFont | setTrueColour
  | gestalt =>
    cases made
    exact solid_host (.lit (by decide)) all
  | call2s | call2n | call1s | callVs | callVs2 | callVn | callVn2 =>
    cases made
    exact solid_call all i
  | jl | jg | or | and | add | sub | mod =>
    cases made
    exact solid_intercalate (joins_of_solid (.lit (by decide))) all
  | mul =>
    cases made
    exact solid_intercalate joins_star all
  | rtrue | rfalse | nop | bufferMode | soundEffect | restart | retPopped | quit | newLine | verify
  | piracy | restoreUndo | checkUnicode =>
    cases made
    exact .lit (by decide)
  | ret | not =>
    cases made
    exact Solid.behind (by decide) (solid 0)
  | jz =>
    cases made
    exact (solid 0).before (by decide)
  | inc | dec | printAddr | printObj | load | printChar | printNum | push | pull | checkArgCount
  | printUnicode =>
    cases made
    exact (Solid.behind (by decide) (solid 0)).before (by decide)
  | decChk | incChk =>
    cases made
    exact ((Solid.behind (by decide) (solid 0)).before (by decide)).append (solid 1)
  | throw =>
    cases made
    exact ((Solid.behind (by decide) (solid 1)).before (by decide)).append (solid 0)
  | store | loadb | getNextProp | setCursor =>
    cases made
    exact (((Solid.behind (by decide) (solid 0)).before (by decide)).append (solid 1)).before
      (by decide)
  | storeb =>
    cases made
    exact (((((Solid.behind (by decide) (solid 0)).before (by decide)).append (solid 1)).before
      (by decide)).append (solid 2)).before (by decide)
  | loadw =>
    cases made
    have address : Filled ("e.m.getUint16(" ++ nth texts 0 ++ "+2*" ++ nth texts 1) :=
      joins_doubled _ _ (Filled.append (.lit (by decide) (by decide)) (solid 0)) (filled 1)
    exact address.1.before (by decide)
  | storew =>
    cases made
    have address : Filled ("e.ram.setUint16(" ++ nth texts 0 ++ "+2*" ++ nth texts 1) :=
      joins_doubled _ _ (Filled.append (.lit (by decide) (by decide)) (solid 0)) (filled 1)
    exact ((address.1.before (by decide)).append (solid 2)).before (by decide)
  | div =>
    cases made
    have slash : Joins "/" := joins_of_stroke (s := '/') rfl (by decide)
    have quotient : Filled ("(" ++ nth texts 0 ++ "/" ++ nth texts 1) :=
      slash _ _ (Filled.append (.lit (by decide) (by decide)) (solid 0)) (filled 1)
    exact quotient.1.before (by decide)
  | printPaddr =>
    cases made
    have address : Filled ("e.print(2," ++ nth texts 0 ++ "*" ++
        toString (packedMultiplier p.version)) :=
      joins_star _ _ (Filled.append (.lit (by decide) (by decide)) (solid 0)) (filled_address _)
    exact address.1.before (by decide)
  | jump =>
    cases made
    exact ((Solid.behind (by decide) (solid 0)).before (by decide)).append (filled_int _).1
  | save | saveTable | restore | restoreTable =>
    cases made
    exact (Solid.behind (by decide) (filled_address _).1).before (by decide)
  | outputStream =>
    cases made
    exact ((Solid.behind (by decide) next).before (by decide)).append
      (solid_host (.lit (by decide)) all)
  | je =>
    cases made
    split
    next a b =>
      exact ((all a (by simp)).1.before (by decide)).append (all b (by simp)).1
    next => exact solid_host (.lit (by decide)) all
  | notOrCall1n =>
    cases made
    split
    · exact Solid.behind (by decide) (solid 0)
    · exact solid_call all i
  | popOrCatch | showStatus =>
    cases made
    split <;> exact .lit (by decide)
  | print | printRet =>
    obtain ⟨text, -, made⟩ := ok_of_bind made
    cases made
    exact (Solid.behind (by decide) (filled_address text).1).before (by decide)
  | saveUndo =>
    obtain ⟨storer, -, made⟩ := ok_of_bind made
    cases made
    exact (((Solid.behind (by decide) next).before (by decide)).append
      (filled_byte storer).1).before (by decide)
  | read =>
    have called (storer : UInt8) :
        Solid ("e.read(" ++ toString storer ++ "," ++ list texts ++ ")") :=
      (((Solid.behind (by decide) (filled_byte storer).1).before (by decide)).append
        (solid_list all)).before (by decide)
    rw [body] at made
    split at made
    · cases made
      exact called 0
    · obtain ⟨storer, -, made⟩ := ok_of_bind made
      cases made
      exact called storer
  | readChar =>
    obtain ⟨storer, -, made⟩ := ok_of_bind made
    cases made
    have arguments : Solid (if texts.isEmpty then "1" else list texts) := by
      split
      · exact .lit (by decide)
      · exact solid_list all
    exact (((Solid.behind (by decide) (filled_byte storer).1).before (by decide)).append
      arguments).before (by decide)

theorem solid_assign {code : String} (solid : Solid code) (p : Profile) (v : UInt8) :
    Solid (assign p v code) := by
  rw [assign]
  split
  · exact (Solid.behind (by decide) solid).before (by decide)
  split
  · exact ((Solid.behind (by decide) (filled_byte _).1).before (by decide)).append solid
  · exact (Solid.behind (by decide) solid).append
      ((Solid.behind (by decide) (filled_word _).1).before (by decide))

theorem solid_departure (i : Instruction) (b : Branch) : Solid (departure i b) := by
  rw [departure]
  split
  · exact Solid.behind (by decide) (filled_int _).1
  · exact (Solid.behind (by decide) (filled_address _).1).before (by decide)

theorem solid_branch {code : String} (solid : Solid code) (i : Instruction) (b : Branch) :
    Solid (branch i b code) := by
  have sign : Solid (if b.ifTrue then "" else "!") := by
    split <;> exact .lit (by decide)
  exact (((((Solid.behind (by decide) sign).before (by decide)).append solid).before
    (by decide)).append (solid_departure i b)).before (by decide)

theorem solid_render {p : Profile} {i : Instruction} {code : String}
    (rendered : render p i = .ok code) : Solid code := by
  cases known : i.op? with
  | none =>
    simp only [render, known] at rendered
    cases rendered
  | some op =>
    simp only [render, known] at rendered
    obtain ⟨effect, made, rendered⟩ := ok_of_bind rendered
    have solid : Solid effect := by
      apply solid_body _ made
      intro text member
      obtain ⟨op, -, rfl⟩ := List.mem_map.mp member
      exact filled_operand op
    have pause : Solid (if i.pauses then s!"e.stop=1;e.pc={i.next};" else "") := by
      split
      · exact (Solid.behind (by decide) (filled_address i.next).1).before (by decide)
      · exact .lit (by decide)
    -- what is left to add to the effect, stored or not
    cases held : i.branch with
    | none =>
      simp only [held] at rendered
      split at rendered
      · obtain ⟨v, -, rendered⟩ := ok_of_bind rendered
        cases rendered
        exact pause.append (solid_assign solid p v)
      · cases rendered
        exact pause.append solid
    | some b =>
      have branched {stored : String} (solid : Solid stored) :
          Solid (if i.endsBlock then stored else branch i b stored) := by
        split
        · exact solid
        · exact solid_branch solid i b
      simp only [held] at rendered
      split at rendered
      · obtain ⟨v, -, rendered⟩ := ok_of_bind rendered
        cases rendered
        exact pause.append (branched (solid_assign solid p v))
      · cases rendered
        exact pause.append (branched solid)

theorem Solid.free {text : String} (solid : Solid text) :
    '\n' ∉ text.toList ∧ ∀ d ∈ ["/*", "*/", "//"], ¬ d.toList <:+: text.toList := by
  have pair {a b : Char} (first : isStroke a = true) (second : isStroke b = true) :
      ¬ [a, b] <:+: text.toList := by
    intro inside
    have chain := List.IsChain.infix solid.2.1 inside
    have apart : Apart a b := by simpa using chain
    rw [Apart, first, second] at apart
    cases apart <;> contradiction
  refine ⟨solid.1, ?_⟩
  simp only [List.forall_mem_cons, List.not_mem_nil, false_imp_iff, forall_const, and_true]
  exact ⟨pair (a := '/') (b := '*') rfl rfl, pair (a := '*') (b := '/') rfl rfl,
    pair (a := '/') (b := '/') rfl rfl⟩

end ZCode.Statement

namespace ZCode.Fragment

open Statement

def linesOf (code : String) : List String :=
  (code.toList.splitOn '\n').map String.ofList

-- A line as it stands behind the line end.
def entry (i : Instruction) (statement : String) : String :=
  "/* " ++ toString i.addr ++ "/" ++ toString i.opcode ++ " */ " ++ statement ++ ";"

def recordOf? (text : String) : Option (Nat × Nat) :=
  match text.toList with
  | '/' :: '*' :: ' ' :: rest =>
    match rest.dropWhile Char.isDigit with
    | '/' :: behind => some (Nat.ofDigitChars 10 (rest.takeWhile Char.isDigit) 0,
        Nat.ofDigitChars 10 (behind.takeWhile Char.isDigit) 0)
    | _ => none
  | _ => none

/-- The addresses and opcodes that a fragment's text records, line by line behind the prologue. -/
def recorded? (code : String) : Option (List (Nat × Nat)) :=
  (linesOf code).tail.mapM recordOf?

theorem line_eq (i : Instruction) (statement : String) :
    line i statement = "\n" ++ entry i statement := by
  have opened : "\n/* " = "\n" ++ "/* " := rfl
  simp only [line, entry, toString_self, opened, String.append_assoc]

theorem lines_of_intercalate {texts : List String} (single : ∀ text ∈ texts, '\n' ∉ text.toList)
    (some_ : texts ≠ []) : linesOf ("\n".intercalate texts) = texts := by
  have split : ("\n".intercalate texts).toList.splitOn '\n' = texts.map String.toList := by
    rw [String.toList_intercalate]
    apply List.splitOn_intercalate
    · simpa using single
    · simpa using some_
  rw [linesOf, split, List.map_map]
  simp [Function.comp_def]

variable {p : Profile} {b : Block} {f : Fragment} {is : List Instruction}

theorem join_eq_intercalate (first : String) (texts : List String) :
    first ++ String.join (texts.map ("\n" ++ ·)) = "\n".intercalate (first :: texts) := by
  induction texts generalizing first with
  | nil => simp
  | cons text rest ih =>
    rw [String.intercalate_cons_cons, ← ih text]
    simp [String.append_assoc]

theorem single_entry (i : Instruction) {statement : String} (solid : Solid statement) :
    '\n' ∉ (entry i statement).toList := by
  have addr := (filled_address i.addr).1.1
  have opcode := (filled_word i.opcode).1.1
  simp [entry, addr, opcode, solid.1]

-- A number ends where something that is no digit follows.
theorem digits_stop (n : Nat) {c : Char} (other : c.isDigit = false) (behind : List Char) :
    (Nat.toDigits 10 n ++ c :: behind).takeWhile Char.isDigit = Nat.toDigits 10 n ∧
    (Nat.toDigits 10 n ++ c :: behind).dropWhile Char.isDigit = c :: behind := by
  have digit : ∀ d ∈ Nat.toDigits 10 n, d.isDigit = true :=
    fun d member => Nat.isDigit_of_mem_toDigits (by omega) (by omega) member
  rw [List.takeWhile_append_of_pos digit, List.dropWhile_append_of_pos digit]
  simp [other]

theorem recordOf?_entry (i : Instruction) (statement : String) :
    recordOf? (entry i statement) = some (i.addr.toNat, i.opcode.toNat) := by
  have opened : (entry i statement).toList = '/' :: '*' :: ' ' :: (Nat.toDigits 10 i.addr.toNat ++
      '/' :: (Nat.toDigits 10 i.opcode.toNat ++ ' ' :: ("*/ " ++ statement ++ ";").toList)) := by
    simp [entry, toList_address, toList_word]
  obtain ⟨addr, rest⟩ := digits_stop i.addr.toNat (c := '/') rfl
    (Nat.toDigits 10 i.opcode.toNat ++ ' ' :: ("*/ " ++ statement ++ ";").toList)
  obtain ⟨opcode, -⟩ := digits_stop i.opcode.toNat (c := ' ') rfl
    ("*/ " ++ statement ++ ";").toList
  simp only [recordOf?, opened, rest, addr, opcode, Nat.ofDigitChars_ten_toDigits]

theorem exists_statements {lines : List String} (each : List.Forall₂ (IsLine p) is lines) :
    ∃ statements, List.Forall₂ (fun i s => render p i = .ok s) is statements ∧
      lines = (List.zipWith entry is statements).map ("\n" ++ ·) := by
  induction each with
  | nil => exact ⟨[], .nil, rfl⟩
  | cons here _ ih =>
    obtain ⟨statement, rendered, rfl⟩ := here
    obtain ⟨statements, later, rfl⟩ := ih
    refine ⟨statement :: statements, .cons rendered later, ?_⟩
    rw [line_eq]
    rfl

theorem solid_statements {statements : List String}
    (each : List.Forall₂ (fun i s => render p i = .ok s) is statements) :
    ∀ s ∈ statements, Solid s := by
  induction each with
  | nil => simp
  | cons rendered _ ih => exact List.forall_mem_cons.2 ⟨solid_render rendered, ih⟩

theorem single_entries {statements : List String} (solid : ∀ s ∈ statements, Solid s) :
    ∀ text ∈ List.zipWith entry is statements, '\n' ∉ text.toList := by
  intro text member
  rw [List.mem_iff_getElem] at member
  obtain ⟨k, bound, rfl⟩ := member
  rw [List.getElem_zipWith]
  exact single_entry _ (solid _ (List.getElem_mem _))

theorem mapM_recordOf? {statements : List String}
    (each : List.Forall₂ (fun i s => render p i = .ok s) is statements) :
    (List.zipWith entry is statements).mapM recordOf? =
      some (is.map fun i => (i.addr.toNat, i.opcode.toNat)) := by
  induction each with
  | nil => rfl
  | cons _ _ ih =>
    rw [List.zipWith_cons_cons, List.mapM_cons, recordOf?_entry, ih]
    rfl

/-- Split at its line ends, the script of a block is the prologue and one line for each instruction:
its address and opcode in a comment, and the statement that it has alone, which holds neither a line
end nor anything that opens or closes a comment. So addresses and opcodes are read back. -/
theorem lines_record_instructions {p : Profile} {b : Block} {f : Fragment}
    (made : ofBlock p b = .ok f) : ∃ statements,
      List.Forall₂ (fun i s => render p i = .ok s) b.instructions statements ∧
      linesOf f.code = prologue :: List.zipWith (fun i s =>
        "/* " ++ toString i.addr.toNat ++ "/" ++ toString i.opcode.toNat ++ " */ " ++ s ++ ";")
          b.instructions statements ∧
      ((linesOf f.code).length : Int) = f.instructions + 1 ∧
      (∀ s ∈ statements, '\n' ∉ s.toList ∧ ∀ d ∈ ["/*", "*/", "//"], ¬ d.toList <:+: s.toList) ∧
      recorded? f.code = some (b.instructions.map fun i => (i.addr.toNat, i.opcode.toNat)) := by
  rw [ofBlock_eq_ok_iff] at made
  obtain ⟨lines, each, rfl⟩ := made
  obtain ⟨statements, rendered, rfl⟩ := exists_statements each
  have solid := solid_statements rendered
  have split : linesOf (ofLines p b ((List.zipWith entry b.instructions statements).map
      ("\n" ++ ·))).code = prologue :: List.zipWith entry b.instructions statements := by
    rw [ofLines, join_eq_intercalate]
    apply lines_of_intercalate _ (List.cons_ne_nil _ _)
    rintro text (_ | ⟨_, member⟩)
    · exact (Solid.lit (by decide) : Solid prologue).1
    · exact single_entries solid text member
  refine ⟨statements, rendered, split, ?_, fun s member => (solid s member).free, ?_⟩
  · rw [split, List.length_cons, List.length_zipWith, ← rendered.length_eq, Nat.min_self]
    rfl
  · rw [recorded?, split]
    exact mapM_recordOf? rendered

-- A quotient of a popped word in front of the end of the game.
theorem lines_record_instructions_quotient : ∃ b f,
    Block.decode ⟨#[0x57, 0, 3, 1, 0xBA], by decide⟩ ⟨5, 16⟩ 0 0 = .ok b ∧
    ofBlock ⟨5, 16⟩ b = .ok f ∧ ((linesOf f.code).length : Int) = 3 ∧
    recorded? f.code = some [(0, 23), (4, 186)] := by
  let b : Block := ⟨0, [
    { addr := 0, opcode := 23, operands := [⟨.signedStack, 0⟩, ⟨.signedConstant, 3⟩],
      result := some 1, stores := true, next := 4 },
    { addr := 4, opcode := 186, next := 5, endsBlock := true, pauses := true }]⟩
  have decoded : Block.decode ⟨#[0x57, 0, 3, 1, 0xBA], by decide⟩ ⟨5, 16⟩ 0 0 = .ok b := by
    decide +kernel
  have renders : (ofBlock ⟨5, 16⟩ b).toOption.isSome = true := by decide +kernel
  obtain ⟨f, found⟩ := Option.isSome_iff_exists.mp renders
  have made := Block.ok_of_toOption found
  obtain ⟨_, -, -, count, -, recorded⟩ := lines_record_instructions made
  obtain ⟨_, -, rfl⟩ := ofBlock_eq_ok_iff.mp made
  exact ⟨b, _, decoded, made, count, recorded⟩

end ZCode.Fragment
