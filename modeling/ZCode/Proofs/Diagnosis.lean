import ZCode.Diagnosis
import ZCode.Proofs.Session.Sharing

set_option autoImplicit false

namespace ZCode

open ZCode.Text

def Barless (text : String) : Prop :=
  '|' ∉ text.toList

instance (text : String) : Decidable (Barless text) :=
  inferInstanceAs (Decidable ('|' ∉ text.toList))

namespace Barless

-- A text that is written out is given by its characters, which are cheaper to check.
theorem lit {cs : List Char} (barless : '|' ∉ cs) : Barless (String.ofList cs) := by
  rw [Barless, String.toList_ofList]
  exact barless

theorem append {a b : String} (left : Barless a) (right : Barless b) : Barless (a ++ b) := by
  simp_all [Barless]

theorem digits {base : Nat} (two : 1 < base) (sixteen : base ≤ 16) (n : Nat) :
    '|' ∉ Nat.toDigits base n := by
  have digit : ∀ d < 16, Nat.digitChar d ≠ '|' := by decide
  induction n using Nat.strongRecOn with
  | ind n ih =>
    by_cases small : n < base
    · rw [Nat.toDigits_of_lt_base small, List.mem_singleton]
      exact (digit n (by omega)).symm
    · have later := ih (n / base) (Nat.div_lt_self (by omega) two)
      have below : n % base < base := Nat.mod_lt _ (by omega)
      rw [Nat.toDigits_of_base_le two (by omega), List.mem_append, List.mem_singleton]
      rintro (front | last)
      · exact later front
      · exact digit _ (by omega) last.symm

theorem nat (n : Nat) : Barless (toString n) := by
  rw [Barless, Nat.toString_eq_repr, Nat.toList_repr]
  exact digits (by omega) (by omega) n

theorem byte (v : UInt8) : Barless (toString v) := nat v.toNat

theorem word (v : UInt16) : Barless (toString v) := nat v.toNat

theorem address (v : UInt32) : Barless (toString v) := nat v.toNat

theorem hexadecimal (n : Nat) : Barless (hex n) := by
  rw [Barless, hex, String.toList_ofList]
  exact digits (by omega) (by omega) n

end Barless

theorem Text.dropWhile_of_head {cs : List Char} (first : cs.head?.any isBlank = false) :
    cs.dropWhile isBlank = cs := by
  cases cs with
  | nil => rfl
  | cons c rest => exact List.dropWhile_cons_of_neg (by simpa using first)

theorem Text.trim_of_ends {cs : List Char} (first : cs.head?.any isBlank = false)
    (last : cs.getLast?.any isBlank = false) : trim cs = cs := by
  rw [← List.head?_reverse] at last
  rw [trim, dropWhile_of_head first, dropWhile_of_head last, List.reverse_reverse]

namespace Diagnosis

def Wraps (c : Condition) (text : String) : Prop :=
  ∃ contexts : List String, (∀ t ∈ contexts, Barless t) ∧ text = contexts.foldl wrap c.text

-- All contexts together, as they stand before the condition.
structure IsFront (front : List Char) : Prop where
  barless : '|' ∉ front
  closed : front = [] ∨ ∃ before, front = before ++ [':', ' ']

theorem exists_front (contexts : List String) (barless : ∀ t ∈ contexts, Barless t) (text : String) :
    ∃ front, IsFront front ∧ (contexts.foldl wrap text).toList = front ++ text.toList := by
  -- the first context is the innermost one and stands right before the text
  induction contexts generalizing text with
  | nil => exact ⟨[], ⟨by simp, .inl rfl⟩, rfl⟩
  | cons inner outer ih =>
    rw [List.forall_mem_cons] at barless
    obtain ⟨front, ahead, shape⟩ := ih barless.2 (wrap text inner)
    have here : '|' ∉ inner.toList := barless.1
    refine ⟨front ++ inner.toList ++ [':', ' '], ⟨?_, .inr ⟨_, rfl⟩⟩, ?_⟩
    · simp [here, ahead.barless]
    · rw [List.foldl_cons, shape, wrap, String.toList_append, String.toList_append]
      simp

theorem afterContexts?_of_no_colon {text : List Char} (plain : ':' ∉ text) :
    afterContexts? text = none := by
  fun_induction afterContexts? text with
  | case1 => rfl
  | case2 rest _ => simp at plain
  | case3 c rest _ ih => exact ih fun member => plain (List.mem_cons_of_mem c member)

theorem afterContexts?_append (before : List Char) {text : List Char} (plain : ':' ∉ text) :
    afterContexts? (before ++ ':' :: ' ' :: text) = some text := by
  fun_induction afterContexts? before with
  | case1 =>
    rw [List.nil_append, afterContexts?, afterContexts?_of_no_colon plain]
    rfl
  | case2 rest ih =>
    rw [List.cons_append, List.cons_append, afterContexts?, ih]
    rfl
  | case3 c rest single ih =>
    rw [List.cons_append, afterContexts?, ih]
    -- a colon at the end of the context is followed by the colon of the separator
    rintro following rfl here
    cases rest with
    | nil => simp at here
    | cons d rest =>
      rw [List.cons_append, List.cons.injEq] at here
      exact single rest rfl (by rw [here.1])

theorem passes_of_not_mem {c : Char} {before : List Char} (absent : c ∉ before) :
    ∀ d ∈ before, (d != c) = true := by
  intro d member
  exact bne_iff_ne.mpr fun same => absent (same ▸ member)

theorem takeWhile_stops {c : Char} {before : List Char} (absent : c ∉ before) (rest : List Char) :
    (before ++ c :: rest).takeWhile (· != c) = before := by
  rw [List.takeWhile_append_of_pos (passes_of_not_mem absent)]
  simp

theorem dropWhile_stops {c : Char} {before : List Char} (absent : c ∉ before) (rest : List Char) :
    (before ++ c :: rest).dropWhile (· != c) = c :: rest := by
  rw [List.dropWhile_append_of_pos (passes_of_not_mem absent)]
  simp

section Readings

variable {front code name description : List Char}

theorem code_of_front (ahead : IsFront front) (bar : '|' ∉ code) (colon : ':' ∉ code)
    (rest : List Char) : Diagnosis.code (front ++ (code ++ '|' :: rest)) = trim code := by
  have absent : '|' ∉ front ++ code := by simp [ahead.barless, bar]
  have before := takeWhile_stops absent rest
  rw [List.append_assoc] at before
  have cut : (afterContexts? (front ++ code)).getD (front ++ code) = code := by
    rcases ahead.closed with rfl | ⟨context, rfl⟩
    · rw [List.nil_append, afterContexts?_of_no_colon colon]
      rfl
    · rw [List.append_assoc, List.cons_append, List.singleton_append,
        afterContexts?_append context colon]
      rfl
  have coded : Diagnosis.code (front ++ (code ++ '|' :: rest)) =
      trim ((afterContexts? ((front ++ (code ++ '|' :: rest)).takeWhile (· != '|'))).getD
        ((front ++ (code ++ '|' :: rest)).takeWhile (· != '|'))) := if_pos (by simp)
  rw [coded, before, cut]

theorem name_of_front (ahead : '|' ∉ front) (colon : ':' ∉ name) (rest : List Char) :
    Diagnosis.name (front ++ '|' :: (name ++ ':' :: rest)) = trim name := by
  have named : Diagnosis.name (front ++ '|' :: (name ++ ':' :: rest)) =
      trim (((front ++ '|' :: (name ++ ':' :: rest)).dropWhile (· != '|')).tail.takeWhile
        (· != ':')) := if_pos (by simp)
  rw [named, dropWhile_stops ahead, List.tail_cons, takeWhile_stops colon]

theorem description?_of_bar {text behind : List Char} (barred : text.contains '|' = true)
    (cut : (text.dropWhile (· != '|')).tail = behind) : description? text =
      if behind.contains ':' then some (trim (behind.dropWhile (· != ':')).tail) else none := by
  subst cut
  rw [description?, if_pos barred]
  rfl

theorem description?_of_front (ahead : '|' ∉ front) (colon : ':' ∉ name) (rest : List Char) :
    description? (front ++ '|' :: (name ++ ':' :: rest)) = some (trim rest) := by
  have behind : ((front ++ '|' :: (name ++ ':' :: rest)).dropWhile (· != '|')).tail =
      name ++ ':' :: rest := by rw [dropWhile_stops ahead, List.tail_cons]
  rw [description?_of_bar (by simp) behind, if_pos (by simp), dropWhile_stops colon, List.tail_cons]

end Readings

theorem toList_text (c : Condition) : c.text.toList =
    c.code.toList ++ '|' :: (c.name.toList ++ ':' :: (' ' :: c.description.toList)) := by
  simp [Condition.text]

theorem read_of_wraps {c : Condition} {text : String} (wraps : Wraps c text) :
    read (some text) = ⟨c.code, c.name, c.code ++ "_" ++ c.name, c.description⟩ := by
  obtain ⟨contexts, barless, rfl⟩ := wraps
  obtain ⟨front, ahead, shape⟩ := exists_front contexts barless c.text
  rw [toList_text] at shape
  have plain : '|' ∉ c.code.toList ∧ ':' ∉ c.code.toList ∧ ':' ∉ c.name.toList := by
    cases c <;> decide
  have trims : trim c.code.toList = c.code.toList ∧ trim c.name.toList = c.name.toList ∧
      trim (' ' :: c.description.toList) = c.description.toList := by
    have blank (cs : List Char) : trim (' ' :: cs) = trim cs := rfl
    rw [blank]
    refine ⟨trim_of_ends ?_ ?_, trim_of_ends ?_ ?_, trim_of_ends ?_ ?_⟩ <;> cases c <;> decide
  have code : Diagnosis.code (contexts.foldl wrap c.text).toList = c.code.toList := by
    rw [shape, code_of_front ahead plain.1 plain.2.1, trims.1]
  have before : '|' ∉ front ++ c.code.toList := by simp [ahead.barless, plain.1]
  rw [← List.append_assoc] at shape
  have name : Diagnosis.name (contexts.foldl wrap c.text).toList = c.name.toList := by
    rw [shape, name_of_front before plain.2.2, trims.2.1]
  have description : description? (contexts.foldl wrap c.text).toList =
      some c.description.toList := by
    rw [shape, description?_of_front before plain.2.2, trims.2.2]
  have filled : c.code.toList.isEmpty = false ∧ c.name.toList.isEmpty = false := by
    cases c <;> decide
  have both : codeWithName (contexts.foldl wrap c.text).toList =
      (c.code ++ "_" ++ c.name).toList := by
    rw [codeWithName, code, name, filled.1, filled.2]
    simp
  rw [read, code, name, description, both]
  simp only [String.ofList_toList, Option.map_some, Option.getD_some]

theorem kind_of_wraps {c : Condition} {text : String} (wraps : Wraps c text) :
    kind text = c.code ++ "_" ++ c.name := by
  have joined : String.ofList (codeWithName text.toList) = c.code ++ "_" ++ c.name :=
    congrArg Reading.codeWithName (read_of_wraps wraps)
  have known : codeWithName text.toList ≠ [] := by
    intro empty
    rw [empty] at joined
    cases c <;> exact absurd joined (by decide)
  rw [kind, if_neg (by simpa using known), joined]

-- No two kinds are the same, and no condition is counted as none.
theorem kind_injective (c? c'? : Option Condition)
    (same : (c?.map fun c => c.code ++ "_" ++ c.name).getD "other" =
      (c'?.map fun c => c.code ++ "_" ++ c.name).getD "other") : c? = c'? := by
  have listed (c? : Option Condition) : c? ∈ none :: Condition.all.map some := by
    cases c? with
    | none => simp
    | some c => cases c <;> simp [Condition.all]
  have distinct : ∀ c? ∈ none :: Condition.all.map some, ∀ c'? ∈ none :: Condition.all.map some,
      (c?.map fun c => c.code ++ "_" ++ c.name).getD "other" =
        (c'?.map fun c => c.code ++ "_" ++ c.name).getD "other" → c? = c'? := by decide +kernel
  exact distinct c? (listed c?) c'? (listed c'?) same

theorem kind_of_barless {text : String} (barless : Barless text) : kind text = "other" := by
  have none : Diagnosis.code text.toList = [] := if_neg (by simpa [Barless] using barless)
  rw [kind, codeWithName, none]
  rfl

end Diagnosis

namespace Fault

def quoted : Fault → List String
  | inStory path cause => path :: cause.quoted
  | gettingFragment _ cause | listingFragments cause => cause.quoted
  | missingFile context path => [context, path]
  | storeUnavailable path reason => [path, reason]
  | badLevel text | notADump text | badSettings text | doesNotCompile text => [text]
  | _ => []

-- A text as it should be for a fault with the condition, or for one without.
def Tells : Option Condition → String → Prop
  | some c, text => Diagnosis.Wraps c text
  | none, text => Barless text

theorem tells_self (c : Condition) : Tells (some c) c.text :=
  ⟨[], by simp, rfl⟩

-- A context with its colon and blank.
def Introduces (text : String) : Prop :=
  ∃ context, Barless context ∧ text = context ++ ": "

theorem Introduces.prepend {a b : String} (barless : Barless a) (introduces : Introduces b) :
    Introduces (a ++ b) := by
  obtain ⟨context, rest, rfl⟩ := introduces
  exact ⟨a ++ context, barless.append rest, String.append_assoc.symm⟩

theorem Introduces.tells {c? : Option Condition} {front text : String}
    (introduces : Introduces front) (inner : Tells c? text) : Tells c? (front ++ text) := by
  obtain ⟨context, barless, rfl⟩ := introduces
  cases c? with
  | none => exact (barless.append (.lit (by decide))).append inner
  | some c =>
    obtain ⟨contexts, all, rfl⟩ := inner
    refine ⟨contexts ++ [context], ?_, ?_⟩
    · simpa [or_imp, forall_and] using ⟨all, barless⟩
    · rw [List.foldl_append]
      rfl

theorem barless_at (addr : UInt32) : Barless ("0x" ++ hex addr.toNat) :=
  .append (.lit (by decide)) (.hexadecimal _)

theorem introduces_inImage (n : Nat) : Introduces (" in image of " ++ toString n ++ " bytes: ") :=
  .prepend (.append (.lit (by decide)) (.nat n)) ⟨" bytes", .lit (by decide), rfl⟩

theorem tells_overrun (read : Overrun) : Tells (some .imageOverrun) (overrun read).message := by
  have front : Barless ("read of " ++ toString read.size ++ " bytes at "
      ++ ("0x" ++ hex read.pos.toNat)) :=
    .append (.append (.append (.lit (by decide)) (.nat _)) (.lit (by decide))) (barless_at _)
  exact ((introduces_inImage read.length).prepend front).tells (tells_self .imageOverrun)

-- The text of a fault is that of its condition under contexts, or has no bar, as long as nothing
-- quoted has one.
theorem tells_message (fault : Fault) (plain : ∀ text ∈ fault.quoted, Barless text) :
    Tells fault.condition? fault.message := by
  induction fault with
  | overrun read => exact tells_overrun read
  | decode opcode addr read =>
    refine Introduces.tells ⟨_, ?_, rfl⟩ (tells_overrun read)
    exact .append (.append (.append (.lit (by decide)) (.word opcode)) (.lit (by decide)))
      (barless_at addr)
  | unknownOpcode opcode addr =>
    refine Introduces.tells ⟨_, ?_, rfl⟩ (tells_self _)
    exact .append (.append (.append (.lit (by decide)) (.word opcode)) (.lit (by decide)))
      (.address addr)
  | unsupportedVersion version =>
    exact Introduces.tells ⟨_, .append (.lit (by decide)) (.byte version), rfl⟩ (tells_self _)
  | blockOutside addr length | instructionOutside addr length =>
    refine Introduces.tells (.prepend ?_ (introduces_inImage length)) (tells_self _)
    exact .append (.lit (by decide)) (barless_at addr)
  | blockTooLong addr count =>
    have counted : Introduces (" after " ++ toString count ++ " instructions: ") :=
      .prepend (.append (.lit (by decide)) (.nat count)) ⟨" instructions", .lit (by decide), rfl⟩
    exact (counted.prepend (.append (.lit (by decide)) (barless_at addr))).tells (tells_self _)
  | functionUnsupported addr =>
    exact Introduces.tells ⟨_, .append (.lit (by decide)) (barless_at addr), rfl⟩ (tells_self _)
  | headerTooShort size =>
    have front : Introduces ("story of " ++ toString size ++ " bytes: ") :=
      .prepend (.append (.lit (by decide)) (.nat size)) ⟨" bytes", .lit (by decide), rfl⟩
    exact front.tells (tells_self _)
  | noStoreVariable opcode addr | noInlineText opcode addr =>
    exact .append (.append (.append (.append (.lit (by decide)) (.word opcode)) (.lit (by decide)))
      (.address addr)) (.lit (by decide))
  | globalsOutside globals length =>
    exact .append (.append (.lit (by decide)) (.hexadecimal _))
      (.append (.append (.lit (by decide)) (.nat length)) (.lit (by decide)))
  | storyTooLong size length =>
    exact .append (.append (.append (.append (.lit (by decide)) (.nat size)) (.lit (by decide)))
      (.nat length)) (.lit (by decide))
  | inStory path cause ih =>
    simp only [quoted, List.forall_mem_cons] at plain
    exact Introduces.tells ⟨_, .append (.lit (by decide)) plain.1, rfl⟩ (ih plain.2)
  | gettingFragment addr cause ih =>
    exact Introduces.tells ⟨_, .append (.lit (by decide)) (barless_at addr), rfl⟩ (ih plain)
  | listingFragments cause ih =>
    exact Introduces.tells ⟨"list fragments", .lit (by decide), rfl⟩ (ih plain)
  | badLevel text | badSettings text | doesNotCompile text =>
    exact .append (.lit (by decide)) (plain text (by simp [quoted]))
  | notADump text => exact .append (plain text (by simp [quoted])) (.lit (by decide))
  | missingFile context path =>
    simp only [quoted, List.forall_mem_cons] at plain
    exact .append (.append (.append plain.1 (.lit (by decide))) plain.2.1) (.lit (by decide))
  | storeUnavailable path reason =>
    simp only [quoted, List.forall_mem_cons] at plain
    exact .append (.append (.append (.lit (by decide)) plain.1) (.lit (by decide))) plain.2.1
  | emptyImage | negativeLimit | storeClosed | stackUnderflow =>
    exact Barless.lit (by decide)

theorem Tells.kind {c? : Option Condition} {text : String} (told : Tells c? text) :
    Diagnosis.kind text = (c?.map fun c => c.code ++ "_" ++ c.name).getD "other" := by
  cases c? with
  | none => exact Diagnosis.kind_of_barless told
  | some c => exact Diagnosis.kind_of_wraps told

end Fault

section Faults

variable {img : Image} {p : Profile} {addr : UInt32} {fault : Fault}

theorem Instruction.quoted_of_decode (failed : decode img p addr = .error fault) :
    fault.quoted = [] := by
  obtain ⟨opcode, read, rfl⟩ := exists_overrun failed
  rfl

theorem Block.quoted_of_walkFrom {limit : Nat} {met : List Instruction}
    (broken : (walkFrom img p limit addr met).ending = .broken fault) : fault.quoted = [] := by
  induction limit generalizing addr met with
  | zero => cases broken
  | succ limit ih =>
    rw [walkFrom] at broken
    split at broken
    next failed =>
      cases broken
      exact Instruction.quoted_of_decode failed
    next =>
      split at broken
      · cases broken
      · exact ih broken

theorem Block.quoted_of_decode {cap : Nat} (failed : decode img p cap addr = .error fault) :
    fault.quoted = [] := by
  by_cases inside : addr.toNat < img.length
  · rw [decode_of_inside inside] at failed
    split at failed
    next => cases failed
    next =>
      cases failed
      rfl
    next broken =>
      cases failed
      exact quoted_of_walkFrom broken
  · rw [decode, if_pos (Nat.not_lt.mp inside)] at failed
    cases failed
    rfl

theorem Statement.quoted_of_render {i : Instruction} (failed : render p i = .error fault) :
    fault.quoted = [] := by
  have lacking := lacks_of_render failed
  simp only [lacks, List.mem_cons, List.not_mem_nil, or_false] at lacking
  rcases lacking with rfl | rfl | rfl <;> rfl

theorem Fragment.quoted_of_generate {cap : Nat} (failed : generate img p cap addr = .error fault) :
    fault.quoted = [] := by
  rcases Statement.error_of_bind failed with undecoded | ⟨b, -, failed⟩
  · exact Block.quoted_of_decode undecoded
  · obtain ⟨i, -, unrendered⟩ := exists_of_ofBlock failed
    exact Statement.quoted_of_render unrendered

namespace Session

variable {d : Session} {stores : Array Store} {writes : Nat}

theorem quoted_of_decode (failed : d.decode img addr = .error fault) : fault.quoted = [] := by
  rw [decode] at failed
  split at failed
  · cases failed
    rfl
  · exact Instruction.quoted_of_decode failed

theorem quoted_of_generateAndKeep
    (failed : (d.generateAndKeep img stores addr).answer = .error fault) : fault.quoted = [] := by
  rw [generateAndKeep_answer] at failed
  exact Fragment.quoted_of_generate failed

theorem quoted_of_fragment (failed : (d.fragment img writes stores addr).answer = .error fault) :
    fault.quoted = [] := by
  rw [fragment] at failed
  dsimp only at failed
  split at failed
  · cases failed
  · exact quoted_of_generateAndKeep failed
  split at failed
  · cases failed
  all_goals exact quoted_of_generateAndKeep failed

theorem quoted_of_ofSettings {s : Settings} (failed : ofSettings s = .error fault) :
    fault.quoted = [] := by
  rw [ofSettings_eq_error_iff, Settings.validate] at failed
  split_ifs at failed <;> cases failed <;> rfl

end Session

theorem Header.quoted_of_parse {story : Array UInt8} (failed : parse story = .error fault) :
    fault.quoted = [] := by
  rw [parse] at failed
  split at failed <;> cases failed
  rfl

namespace Family

variable {fam : Family} {n : Nat}

theorem error_of_refused {α : Type} {f : α → Answer} {r : Except Fault α}
    (answers : ∀ a, f a ≠ .refused fault) (refused : Answer.of f r = .refused fault) :
    r = .error fault := by
  cases r with
  | ok a => exact absurd refused (answers a)
  | error fault' =>
    cases refused
    rfl

theorem error_of_changeStore {change : Store → Except Fault Store}
    (refused : (fam.changeStore n change).2 = .refused fault) :
    change (fam.stores.getD n {}) = .error fault := by
  rw [changeStore] at refused
  split at refused
  next => cases refused
  next failed =>
    cases refused
    exact failed

-- A store fails for being closed, whatever is asked of it.
theorem quoted_of_closed {α : Type} {closed : Bool} {cause : Fault} {a : α}
    (failed : (if closed then .error cause else .ok a) = (.error fault : Except Fault α))
    (plain : cause.quoted = []) : fault.quoted = [] := by
  split at failed <;> cases failed
  exact plain

theorem quoted_of_step {k : Nat} {s : Step} (refused : (fam.step k s).2 = .refused fault) :
    fault.quoted = [] := by
  unfold step at refused
  split at refused
  · cases refused
  next d found =>
  cases s with
  | write | poke | clone | attach => cases refused
  | load story =>
    dsimp only at refused
    split at refused <;> cases refused
    rfl
  | fragment addr =>
    exact Session.quoted_of_fragment (error_of_refused (f := .fragment) (fun _ => nofun) refused)
  | disassemble addr =>
    exact Block.quoted_of_decode (error_of_refused (f := .block) (fun _ => nofun) refused)
  | decode addr =>
    exact Session.quoted_of_decode (error_of_refused (f := .instruction) (fun _ => nofun) refused)
  | render addr =>
    have failed := error_of_refused (f := .statement) (fun _ => nofun) refused
    rcases Statement.error_of_bind failed with undecoded | ⟨i, -, unrendered⟩
    · exact Session.quoted_of_decode undecoded
    · exact Statement.quoted_of_render unrendered
  | function addr =>
    cases refused
    rfl
  | get n addr =>
    exact quoted_of_closed (error_of_refused (f := .stored) (fun _ => nofun) refused) (by rfl)
  | addresses n =>
    exact quoted_of_closed (error_of_refused (f := .addresses) (fun _ => nofun) refused) (by rfl)
  | put n f => exact quoted_of_closed (error_of_changeStore refused) (by rfl)
  | delete n addr => exact quoted_of_closed (error_of_changeStore refused) (by rfl)
  | close n => exact quoted_of_closed (error_of_changeStore refused) (by rfl)
  | deleteImage n =>
    rcases Statement.error_of_bind (error_of_changeStore refused) with unlisted | ⟨_, -, done⟩
    · exact quoted_of_closed unlisted (by rfl)
    · cases done

end Family

/-- The faults of the operations on an image: of reading and rendering, of building a session, of
reading a header, and of all that a session refuses. -/
inductive Raised (fault : Fault) : Prop
  | decode (d : Session) (img : Image) (addr : UInt32) (failed : d.decode img addr = .error fault)
  | disassemble (d : Session) (img : Image) (addr : UInt32)
    (failed : d.disassemble img addr = .error fault)
  | fragment (d : Session) (img : Image) (writes : Nat) (stores : Array Store) (addr : UInt32)
    (failed : (d.fragment img writes stores addr).answer = .error fault)
  | render (p : Profile) (i : Instruction) (failed : Statement.render p i = .error fault)
  | settings (s : Settings) (failed : Session.ofSettings s = .error fault)
  | header (story : Array UInt8) (failed : Header.parse story = .error fault)
  | step (fam : Family) (k : Nat) (s : Family.Step) (refused : (fam.step k s).2 = .refused fault)

theorem Raised.quoted_eq_nil (raised : Raised fault) : fault.quoted = [] := by
  cases raised with
  | decode d img addr failed => exact Session.quoted_of_decode failed
  | disassemble d img addr failed => exact Block.quoted_of_decode failed
  | fragment d img writes stores addr failed => exact Session.quoted_of_fragment failed
  | render p i failed => exact Statement.quoted_of_render failed
  | settings s failed => exact Session.quoted_of_ofSettings failed
  | header story failed => exact Header.quoted_of_parse failed
  | step fam k s refused => exact Family.quoted_of_step refused

end Faults

namespace Diagnosis

/-- From the text of a condition under any contexts without a bar, its code, name and description
are read back. So a fault is counted under the code and name of the condition it rests on, which its
text then wraps, and under no code exactly if it rests on none. -/
theorem kind_agrees_with_condition :
    (∀ (c : Condition) (contexts : List String), (∀ t ∈ contexts, '|' ∉ t.toList) →
      read (some (contexts.foldl wrap c.text)) =
        ⟨c.code, c.name, c.code ++ "_" ++ c.name, c.description⟩) ∧
    ∀ fault, Raised fault →
      (∀ c, fault.condition? = some c ↔ kind fault.message = c.code ++ "_" ++ c.name) ∧
      (∀ c, fault.condition? = some c ↔ ∃ contexts : List String,
        (∀ t ∈ contexts, '|' ∉ t.toList) ∧ fault.message = contexts.foldl wrap c.text) ∧
      (fault.condition? = none ↔ kind fault.message = "other") := by
  refine ⟨fun c contexts barless => read_of_wraps ⟨contexts, barless, rfl⟩, ?_⟩
  intro fault raised
  have told := fault.tells_message (by simp [raised.quoted_eq_nil])
  have counted (c : Condition) : fault.condition? = some c ↔
      kind fault.message = c.code ++ "_" ++ c.name := by
    rw [told.kind]
    exact ⟨fun rests => by rw [rests]; rfl, kind_injective _ (some c)⟩
  refine ⟨counted, fun c => ⟨fun rests => ?_, fun wraps => ?_⟩, ?_⟩
  · rw [rests] at told
    exact told
  · exact (counted c).mpr (kind_of_wraps wraps)
  · rw [told.kind]
    exact ⟨fun none => by rw [none]; rfl, kind_injective _ none⟩

-- A context with a colon in it under one without, and an operand that is not there.
theorem kind_agrees_with_condition_overrun :
    let d : Session := { profile := ⟨5, 0⟩, cap := 4096 }
    let img := (Image.zeroed 2).write 1 [0x0D]
    ∃ fault, d.decode img 1 = .error fault ∧ fault.condition? = some .imageOverrun ∧
      kind fault.message = "Z1_ImageOverrun" ∧
      read (some (["read: 2", "story"].foldl wrap Condition.imageOverrun.text)) =
        ⟨"Z1", "ImageOverrun", "Z1_ImageOverrun", "Read past the end of the story image."⟩ := by
  intro d img
  have failed : d.decode img 1 = .error (.decode 13 1 ⟨1, 2, 2⟩) := by decide +kernel
  have counted := (kind_agrees_with_condition.2 _ (.decode d img 1 failed)).1 .imageOverrun
  exact ⟨_, failed, rfl, counted.mp rfl, kind_agrees_with_condition.1 .imageOverrun _ (by decide)⟩

end Diagnosis

end ZCode
