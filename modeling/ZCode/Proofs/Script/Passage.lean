import ZCode.Proofs.Script.Clause
import ZCode.Proofs.Script.Completeness

set_option autoImplicit false

namespace ZCode.Script

open Grammar Lexeme

/-- The text of a function body: lexemes that do not run together, with tokens that the grammar
derives. A line end is a blank like any other, so no semicolon is inserted at one. -/
def Valid (code : String) : Prop :=
  ∃ xs ss, Neat xs ∧ code.toList = xs.flatMap chars ∧ Body (xs.filterMap token?) ss

theorem Valid.compiles {code : String} (valid : Valid code) : compiles code = true := by
  obtain ⟨xs, ss, neat, text, body⟩ := valid
  have read : parse? code = some ss :=
    parse?_eq_some_iff.mpr ⟨_, by rw [text, ofText?_lexemes neat], body⟩
  rw [Script.compiles, read, Option.isSome_some]

structure Passage (xs : List Lexeme) (ss : List Stmt) : Prop where
  neat : Neat xs
  closed : xs.getLast? = some (token .semicolon)
  linesClosed : LinesClosed (xs.flatMap chars)
  derived : Statements false (xs.filterMap token?) ss

namespace Passage

variable {xs ys : List Lexeme} {ss ss' : List Stmt}

theorem neat_append (first : Passage xs ss) (second : Neat ys) : Neat (xs ++ ys) := by
  refine first.neat.append second ?_
  intro x ending y _
  obtain rfl : token .semicolon = x := by simpa [first.closed] using ending
  exact follows_bracket rfl y

theorem getLast?_chars (passage : Passage xs ss) : (xs.flatMap chars).getLast? = some ';' := by
  obtain ⟨front, rfl⟩ := List.getLast?_eq_some_iff.mp passage.closed
  simp [chars, Token.spelling]

theorem append (first : Passage xs ss) (second : Passage ys ss') :
    Passage (xs ++ ys) (ss ++ ss') where
  neat := first.neat_append second.neat
  closed := by
    rw [List.getLast?_append, second.closed]
    rfl
  linesClosed := by
    rw [List.flatMap_append]
    exact first.linesClosed.append first.getLast?_chars second.linesClosed
  derived := by
    rw [List.filterMap_append]
    exact second.derived.append first.derived

theorem lines {α : Type} {line : α → List Lexeme} {stmts : α → List Stmt} (items : List α)
    (first : Passage xs ss) (each : ∀ a ∈ items, Passage (line a) (stmts a)) :
    Passage (xs ++ items.flatMap line) (ss ++ items.flatMap stmts) := by
  induction items generalizing xs ss with
  | nil => simpa using first
  | cons a rest ih =>
    have next := ih (first.append (each a (by simp))) fun b member => each b (by simp [member])
    simpa only [List.flatMap_cons, List.append_assoc] using next

theorem parse?_eq_some (passage : Passage xs ss) {code : String}
    (text : code.toList = xs.flatMap chars) : parse? code = some ss :=
  parse?_eq_some_iff.mpr ⟨_, by rw [text, ofText?_lexemes passage.neat], passage.derived.body⟩

theorem valid (passage : Passage xs ss) {code : String} (text : code.toList = xs.flatMap chars) :
    Valid code :=
  ⟨xs, ss, passage.neat, text, passage.derived.body⟩

end Passage

theorem statement_of_read {fuel : Nat} {ts : List Token} {s : Stmt}
    (read : Parser.statement fuel (ts ++ [.semicolon]) = some (s, [.semicolon])) :
    Statement false ts s := by
  obtain ⟨us, split, statement⟩ := (soundStatements fuel).statement read
  obtain rfl : ts = us := List.append_cancel_right split
  exact statement

theorem passage_statement {ts : List Token} {s : Stmt} {k : Nat} (neat : Neat (ts.map token))
    (last : ts.getLast? = some .semicolon)
    (read : Parser.statement k (ts ++ [.semicolon]) = some (s, [.semicolon])) :
    Passage (ts.map token) [s] where
  neat
  closed := by rw [List.getLast?_map, last, Option.map_some]
  linesClosed := linesClosed_of_sameLine neat.proper (by simp [sameLine])
  derived := by
    rw [List.filterMap_map, filterMap_token]
    exact (statement_of_read read).alone

theorem Row.passage {r : Row} (fits : r.Fits) : Passage r.lexemes (Clause.stmts r.clauses) where
  neat := neat_lexemes fits
  closed := by simp [Row.lexemes, List.getLast?_cons, Clause.getLast?_line]
  linesClosed := linesClosed_lexemes fits
  derived := by
    rw [Row.filterMap_lexemes]
    exact Clause.derived_line r.clauses fits.clauses

structure Dead (xs : List Lexeme) : Prop where
  neat : Neat xs
  closed : ∃ x, xs.getLast? = some x ∧ ∀ c, Token.extend? x.pending c = none
  stuck : ∀ fuel read rest, 8 * (xs.filterMap token?).length ≤ fuel →
    Parser.statements fuel read (xs.filterMap token? ++ rest) = none

theorem dead_statement {t u : Token} {ts : List Token} {note : List Char} {k : Nat}
    (plain : '*' ∉ note) (neat : Neat ((t :: ts).map token)) (last : (t :: ts).getLast? = some u)
    (free : ∀ c, Token.extend? (token u).pending c = none)
    (other : t ≠ .closeBrace) (short : k < 8 * (ts.length + 1))
    (stuck : ∀ n rest, Parser.statement (n + k) (t :: (ts ++ rest)) = none) :
    Dead (blank '\n' :: comment note :: blank ' ' :: (t :: ts).map token) where
  neat := ((neat.cons (x := blank ' ') rfl fun _ _ => .inl rfl).cons (x := comment note)
    (proper_comment plain) fun _ _ => .inl rfl).cons (x := blank '\n') rfl fun _ _ => .inl rfl
  closed := by
    refine ⟨token u, ?_, free⟩
    simp only [List.getLast?_cons, List.getLast?_map] at last ⊢
    simp [Option.some.inj last]
  stuck := by
    intro fuel read rest enough
    have tokens : (blank '\n' :: comment note :: blank ' ' :: (t :: ts).map token).filterMap token? =
        t :: ts := by
      rw [List.filterMap_cons_none rfl, List.filterMap_cons_none rfl, List.filterMap_cons_none rfl,
        List.filterMap_map, filterMap_token]
    rw [tokens, List.length_cons] at enough
    obtain ⟨n, rfl⟩ : ∃ n, fuel = n + k + 1 := ⟨fuel - k - 1, by omega⟩
    rw [tokens, List.cons_append, statements_cons other, stuck]
    rfl

theorem Passage.parse?_eq_none {xs ys : List Lexeme} {ss : List Stmt} (passage : Passage xs ss)
    (dead : Dead ys) {code : String} {rest : List Char}
    (text : code.toList = (xs ++ ys).flatMap chars ++ rest) : parse? code = none := by
  obtain ⟨x, last, free⟩ := dead.closed
  have ending : (xs ++ ys).getLast? = some x := by
    rw [List.getLast?_append, last]
    rfl
  rw [parse?, text]
  cases read : Token.ofText? ((xs ++ ys).flatMap chars ++ rest) with
  | none => rfl
  | some ts =>
    -- whatever follows, the lexemes so far are read as their own tokens
    obtain ⟨later, rfl⟩ := prefix_of_ofText? (passage.neat_append dead.neat) ending free read
    rw [List.filterMap_append, List.append_assoc]
    simp only [Option.bind_eq_bind, Option.bind_some]
    have length : (xs.filterMap token? ++ (ys.filterMap token? ++ later)).length =
        (xs.filterMap token?).length + (ys.filterMap token?).length + later.length := by
      simp only [List.length_append, Nat.add_assoc]
    obtain ⟨left, used, reading⟩ := passage.derived.reads
      (8 * (xs.filterMap token? ++ (ys.filterMap token? ++ later)).length + 8) []
      (ys.filterMap token? ++ later) (by simp) (by omega)
    rw [reading, dead.stuck _ _ _ (by omega), Option.bind_none]

end ZCode.Script
