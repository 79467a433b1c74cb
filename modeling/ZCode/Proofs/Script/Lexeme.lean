import Mathlib.Data.List.Chain
import ZCode.Script.Token

set_option autoImplicit false

namespace ZCode.Script

namespace Token

def isName (w : String) : Bool :=
  match w.toList with
  | [] => false
  | c :: rest => isWordStart c && rest.all fun d => isWordStart d || isDigit d

def spelling : Token → List Char
  | number n => Nat.toDigits 10 n
  | word w => w.toList
  | openParen => ['(']
  | closeParen => [')']
  | openBracket => ['[']
  | closeBracket => [']']
  | openBrace => ['\x7b']
  | closeBrace => ['\x7d']
  | comma => [',']
  | semicolon => [';']
  | dot => ['.']
  | assign => ['=']
  | same => ['=', '=', '=']
  | less => ['<']
  | greater => ['>']
  | shiftLeft => ['<', '<']
  | shiftRight => ['>', '>']
  | bar => ['|']
  | ampersand => ['&']
  | tilde => ['~']
  | bang => ['!']
  | plus => ['+']
  | plusPlus => ['+', '+']
  | minus => ['-']
  | minusMinus => ['-', '-']
  | star => ['*']
  | slash => ['/']
  | percent => ['%']

def pending : Token → Pending
  | number n => .number n
  | word w => .word w
  | t => .symbol t

theorem close?_pending (t : Token) (done : List Token) :
    close? t.pending done = some (t :: done) := by
  cases t <;> rfl

end Token

inductive Lexeme where
  | token (t : Token)
  | blank (c : Char)
  | comment (text : List Char)

namespace Lexeme

open Token

def chars : Lexeme → List Char
  | token t => t.spelling
  | blank c => [c]
  | comment text => '/' :: '*' :: text ++ ['*', '/']

def token? : Lexeme → Option Token
  | token t => some t
  | _ => none

def pending : Lexeme → Pending
  | token t => t.pending
  | _ => .nothing

def Proper : Lexeme → Prop
  | token (.word w) => isName w
  | token _ => True
  | blank c => isBlank c
  | comment text => ¬ ['*', '/'] <:+: text

-- The character begins a lexeme of its own. No letter may stand directly behind a number, though it
-- does not extend one.
def Parts (p : Pending) (c : Char) : Prop :=
  extend? p c = none ∧ ∀ n, p = .number n → isWordStart c = false

def Follows (x : Lexeme) (p : Pending) : Prop :=
  p = .nothing ∨ ∀ c ∈ x.chars.head?, Parts p c

theorem follows_word (w : String) : (blank ' ').Follows (.word w) := by
  right
  rintro _ ⟨⟩
  exact ⟨rfl, nofun⟩

theorem extend?_nothing (c : Char) : extend? .nothing c = start? c := rfl

theorem step_of_start {c : Char} {q : Pending} (starts : start? c = some q) (done : List Token) :
    Reader.step ⟨done, .nothing⟩ c = some ⟨done, q⟩ := by
  simp [Reader.step, extend?_nothing, starts]

theorem step_of_extend {p q : Pending} {c : Char} (extended : extend? p c = some q)
    (done : List Token) : Reader.step ⟨done, p⟩ c = some ⟨done, q⟩ := by
  simp [Reader.step, extended]

theorem step_of_closed {p : Pending} {c : Char} {done done' : List Token}
    (stops : extend? p c = none) (closed : close? p done = some done') :
    Reader.step ⟨done, p⟩ c = Reader.step ⟨done', .nothing⟩ c := by
  have nothing : close? .nothing done' = some done' := rfl
  cases starts : start? c <;> simp [Reader.step, stops, closed, extend?_nothing, nothing, starts]

theorem not_blank_of_digit {c : Char} (digit : isDigit c = true) : isBlank c = false := by
  by_contra blank
  simp only [isBlank, Bool.not_eq_false, Bool.or_eq_true, beq_iff_eq] at blank
  rcases blank with ((rfl | rfl) | rfl) | rfl <;> revert digit <;> decide

theorem not_blank_of_letter {c : Char} (letter : isWordStart c = true) : isBlank c = false := by
  by_contra blank
  simp only [isBlank, Bool.not_eq_false, Bool.or_eq_true, beq_iff_eq] at blank
  rcases blank with ((rfl | rfl) | rfl) | rfl <;> revert letter <;> decide

theorem not_digit_of_letter {c : Char} (letter : isWordStart c = true) : isDigit c = false := by
  by_contra digit
  simp only [isDigit, Bool.not_eq_false, Bool.and_eq_true, decide_eq_true_eq, Char.le_def] at digit
  simp only [isWordStart, Bool.or_eq_true, Bool.and_eq_true, decide_eq_true_eq, Char.le_def,
    beq_iff_eq] at letter
  rcases letter with ((⟨low, -⟩ | ⟨low, -⟩) | rfl) | rfl
  · exact absurd (UInt32.le_trans low digit.2) (by decide)
  · exact absurd (UInt32.le_trans low digit.2) (by decide)
  · exact absurd digit.2 (by decide)
  · exact absurd digit.1 (by decide)

theorem read_digits (cs : List Char) (digits : ∀ c ∈ cs, isDigit c = true) (n : Nat)
    (done : List Token) :
    cs.foldlM Reader.step ⟨done, .number n⟩ = some ⟨done, .number (Nat.ofDigitChars 10 cs n)⟩ := by
  induction cs generalizing n with
  | nil => rfl
  | cons c rest ih =>
    have digit := digits c (by simp)
    have extended : extend? (.number n) c = some (.number (10 * n + digitValue c)) :=
      if_pos digit
    rw [List.foldlM_cons, step_of_extend extended]
    exact ih (fun d member => digits d (by simp [member])) _

theorem read_letters (cs : List Char)
    (letters : cs.all (fun c => isWordStart c || isDigit c) = true) (w : String)
    (done : List Token) :
    cs.foldlM Reader.step ⟨done, .word w⟩ = some ⟨done, .word (w ++ String.ofList cs)⟩ := by
  induction cs generalizing w with
  | nil => simp
  | cons c rest ih =>
    rw [List.all_cons, Bool.and_eq_true] at letters
    have extended : extend? (.word w) c = some (.word (w.push c)) := if_pos letters.1
    rw [List.foldlM_cons, step_of_extend extended]
    refine (ih letters.2 _).trans ?_
    congr 3
    rw [← String.toList_inj]
    simp

theorem isLetter_or_digit {w : String} (name : isName w = true) {c : Char} (member : c ∈ w.toList) :
    isWordStart c = true ∨ isDigit c = true := by
  simp only [isName] at name
  split at name
  · cases name
  next d rest shape =>
    rw [Bool.and_eq_true, List.all_eq_true] at name
    rw [shape, List.mem_cons] at member
    rcases member with rfl | inside
    · exact .inl name.1
    · simpa using name.2 c inside

theorem read_comment (cs : List Char) {p : Pending} (inside : p = .comment ∨ p = .commentStar)
    (first : p = .commentStar → cs.head? ≠ some '/') (plain : ¬ ['*', '/'] <:+: cs)
    (done : List Token) :
    (cs ++ ['*', '/']).foldlM Reader.step ⟨done, p⟩ = some ⟨done, .nothing⟩ := by
  induction cs generalizing p with
  | nil => rcases inside with rfl | rfl <;> rfl
  | cons c rest ih =>
    have later : ¬ ['*', '/'] <:+: rest := fun ends => plain (ends.trans (List.suffix_cons c rest).isInfix)
    have extended : extend? p c = some (if c == '*' then .commentStar else .comment) := by
      rcases inside with rfl | rfl
      · rfl
      · have other : c ≠ '/' := by simpa using first rfl
        simp [extend?, other]
    rw [List.cons_append, List.foldlM_cons, step_of_extend extended]
    apply ih
    · split <;> simp
    · split
      next star =>
        rintro - slash
        obtain ⟨tail, rfl⟩ := List.head?_eq_some_iff.mp slash
        rw [beq_iff_eq] at star
        subst star
        exact plain (List.prefix_append ['*', '/'] tail).isInfix
      next => simp
    · exact later

theorem read_chars {x : Lexeme} (proper : x.Proper) (done : List Token) :
    x.chars.foldlM Reader.step ⟨done, .nothing⟩ = some ⟨done, x.pending⟩ := by
  cases x with
  | blank c =>
    have starts : start? c = some .nothing := by
      rw [start?, if_pos (show isBlank c = true from proper)]
    simp [chars, step_of_start starts, pending]
  | comment text =>
    simp only [chars, List.cons_append, List.foldlM_cons,
      step_of_start (show start? '/' = some (.symbol .slash) from rfl),
      step_of_extend (show extend? (.symbol .slash) '*' = some .comment from rfl),
      read_comment text (.inl rfl) nofun proper, Option.bind_eq_bind, Option.bind_some]
    rfl
  | token t =>
    cases t with
    | number n =>
      have digits : ∀ c ∈ Nat.toDigits 10 n, isDigit c = true := by
        intro c member
        have digit := Nat.isDigit_of_mem_toDigits (by omega) (by omega) member
        simpa [isDigit, Char.isDigit, Char.le_def] using digit
      cases shape : Nat.toDigits 10 n with
      | nil => exact absurd shape Nat.toDigits_ne_nil
      | cons c rest =>
        have digit : isDigit c = true := digits c (by simp [shape])
        have starts : start? c = some (.number (digitValue c)) := by
          simp [start?, not_blank_of_digit digit, digit]
        have value : Nat.ofDigitChars 10 rest (digitValue c) = n := by
          have whole := Nat.ofDigitChars_ten_toDigits (n := n)
          rw [shape] at whole
          simpa [Nat.ofDigitChars, digitValue] using whole
        rw [chars, spelling, shape, List.foldlM_cons, step_of_start starts]
        refine (read_digits rest (fun d member => digits d (by simp [shape, member])) _ done).trans ?_
        rw [value]
        rfl
    | word w =>
      simp only [Proper, isName] at proper
      split at proper
      · cases proper
      next c rest shape =>
        rw [Bool.and_eq_true] at proper
        have starts : start? c = some (.word (String.singleton c)) := by
          simp [start?, not_blank_of_letter proper.1, not_digit_of_letter proper.1, proper.1]
        rw [chars, spelling, shape, List.foldlM_cons, step_of_start starts]
        refine (read_letters rest proper.2 _ done).trans ?_
        have whole : String.singleton c ++ String.ofList rest = w := by
          rw [← String.toList_inj]
          simp [shape]
        rw [whole]
        rfl
    | _ => rfl

theorem proper_comment {text : List Char} (plain : '*' ∉ text) : (comment text).Proper := by
  intro ends
  exact plain (ends.subset (by simp))

theorem chars_ne_nil {x : Lexeme} (proper : x.Proper) : x.chars ≠ [] := by
  cases x with
  | token t =>
    cases t with
    | number n => exact Nat.toDigits_ne_nil
    | word w =>
      intro empty
      simp [Proper, isName, show w.toList = [] from empty] at proper
    | _ => simp [chars, spelling]
  | _ => simp [chars]

theorem read_chars_behind {x : Lexeme} (proper : x.Proper) {p : Pending} (follows : x.Follows p)
    {done done' : List Token} (closed : close? p done = some done') :
    x.chars.foldlM Reader.step ⟨done, p⟩ = some ⟨done', x.pending⟩ := by
  rw [← read_chars proper done']
  rcases follows with rfl | stops
  · obtain rfl : done = done' := Option.some.inj closed
    rfl
  · cases shape : x.chars with
    | nil => exact absurd shape (chars_ne_nil proper)
    | cons c rest =>
      rw [List.foldlM_cons, List.foldlM_cons, step_of_closed (stops c (by simp [shape])).1 closed]

theorem close?_lexeme (x : Lexeme) (done : List Token) :
    close? x.pending done = some (x.token?.toList ++ done) := by
  cases x with
  | token t => exact close?_pending t done
  | _ => rfl

def Apart (xs : List Lexeme) : Prop :=
  xs.IsChain fun x y => y.Follows x.pending

theorem read_lexemes (xs : List Lexeme) (proper : ∀ x ∈ xs, x.Proper) (apart : Apart xs)
    {p : Pending} (follows : ∀ x ∈ xs.head?, x.Follows p) {done done' : List Token}
    (closed : close? p done = some done') :
    ∃ r, (xs.flatMap chars).foldlM Reader.step ⟨done, p⟩ = some r ∧
      r.pending = (xs.getLast?.map pending).getD p ∧
      close? r.pending r.done = some ((xs.filterMap token?).reverse ++ done') := by
  induction xs generalizing p done done' with
  | nil => exact ⟨_, rfl, rfl, closed⟩
  | cons x rest ih =>
    obtain ⟨next, apart⟩ := List.isChain_cons.mp apart
    have read := read_chars_behind (proper x (by simp)) (follows x (by simp)) closed
    obtain ⟨r, reading, last, closing⟩ := ih (fun y member => proper y (by simp [member])) apart next
      (close?_lexeme x done')
    refine ⟨r, ?_, ?_, ?_⟩
    · rw [List.flatMap_cons, List.foldlM_append, read]
      exact reading
    · rw [last, List.getLast?_cons]
      cases rest.getLast? <;> rfl
    · rw [closing]
      cases kind : x.token? <;> simp [kind]

structure Neat (xs : List Lexeme) : Prop where
  proper : ∀ x ∈ xs, x.Proper
  apart : Apart xs

theorem Neat.append {xs ys : List Lexeme} (left : Neat xs) (right : Neat ys)
    (border : ∀ x ∈ xs.getLast?, ∀ y ∈ ys.head?, y.Follows x.pending) : Neat (xs ++ ys) := by
  constructor
  · intro x member
    rcases List.mem_append.mp member with inside | inside
    · exact left.proper x inside
    · exact right.proper x inside
  · exact List.isChain_append.mpr ⟨left.apart, right.apart, border⟩

theorem Neat.cons {x : Lexeme} {xs : List Lexeme} (proper : x.Proper) (neat : Neat xs)
    (border : ∀ y ∈ xs.head?, y.Follows x.pending) : Neat (x :: xs) :=
  ⟨by simpa using ⟨proper, neat.proper⟩, List.isChain_cons.mpr ⟨border, neat.apart⟩⟩

theorem ofText?_lexemes {xs : List Lexeme} (neat : Neat xs) :
    Token.ofText? (xs.flatMap chars) = some (xs.filterMap token?) := by
  obtain ⟨r, reading, -, closing⟩ := read_lexemes xs neat.proper neat.apart
    (fun _ _ => .inl rfl) (show close? .nothing [] = some [] from rfl)
  simp only [ofText?, reading, closing, Option.bind_eq_bind, Option.bind_some, List.append_nil,
    List.reverse_reverse, Option.pure_def]

theorem suffix_of_close? {p : Pending} {done done' : List Token}
    (closed : close? p done = some done') : done <:+ done' := by
  cases p with
  | nothing =>
    cases closed
    exact List.suffix_rfl
  | number | word | symbol =>
    cases closed
    exact List.suffix_cons _ _
  | _ => cases closed

theorem suffix_of_step {r r' : Reader} {c : Char} (stepped : r.step c = some r') :
    r.done <:+ r'.done := by
  simp only [Reader.step] at stepped
  split at stepped
  · cases stepped
    exact List.suffix_rfl
  · simp only [Option.bind_eq_bind, Option.bind_eq_some_iff] at stepped
    obtain ⟨done, closed, p, -, same⟩ := stepped
    cases same
    exact suffix_of_close? closed

theorem suffix_of_read {cs : List Char} {r r' : Reader} (read : cs.foldlM Reader.step r = some r') :
    r.done <:+ r'.done := by
  induction cs generalizing r with
  | nil =>
    cases read
    exact List.suffix_rfl
  | cons c rest ih =>
    rw [List.foldlM_cons] at read
    obtain ⟨r₁, stepped, later⟩ := Option.bind_eq_some_iff.mp read
    exact (suffix_of_step stepped).trans (ih later)

theorem prefix_of_ofText? {xs : List Lexeme} (neat : Neat xs) {x : Lexeme}
    (last : xs.getLast? = some x) (free : ∀ c, extend? x.pending c = none) {rest : List Char}
    {ts : List Token} (read : ofText? (xs.flatMap chars ++ rest) = some ts) :
    ∃ later, ts = xs.filterMap token? ++ later := by
  obtain ⟨r, reading, pending, closing⟩ := read_lexemes xs neat.proper neat.apart
    (fun _ _ => .inl rfl) (show close? .nothing [] = some [] from rfl)
  rw [last, Option.map_some, Option.getD_some] at pending
  rw [List.append_nil] at closing
  simp only [ofText?, List.foldlM_append, reading, Option.bind_eq_bind, Option.bind_some,
    Option.bind_eq_some_iff, Option.pure_def, Option.some.injEq] at read
  obtain ⟨r', reads, done, closed, rfl⟩ := read
  have kept : (xs.filterMap token?).reverse <:+ done := by
    cases rest with
    | nil =>
      cases reads
      rw [closing, Option.some.injEq] at closed
      exact closed ▸ List.suffix_rfl
    | cons c cs =>
      -- the first character behind closes the last token
      have stops : extend? r.pending c = none := pending ▸ free c
      have later :
          (c :: cs).foldlM Reader.step ⟨(xs.filterMap token?).reverse, .nothing⟩ = some r' := by
        rw [← reads, List.foldlM_cons, List.foldlM_cons]
        exact congrArg (· >>= _) (step_of_closed stops closing).symm
      exact (suffix_of_read later).trans (suffix_of_close? closed)
  obtain ⟨front, rfl⟩ := kept
  exact ⟨front.reverse, by rw [List.reverse_append, List.reverse_reverse]⟩

end Lexeme

end ZCode.Script
