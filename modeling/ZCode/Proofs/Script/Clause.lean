import ZCode.Proofs.Script.Spelling

set_option autoImplicit false

namespace ZCode.Script

inductive Simple where
  | expr (e : Phrase)
  | ret (value : Option Phrase)

inductive Clause where
  | simple (s : Simple)
  | when (test : Phrase) (body : Simple)
  | whenBlock (test : Phrase) (body : List Simple)
  | loopBlock (test : Phrase) (body : List Simple)

namespace Simple

def stmt : Simple → Stmt
  | expr e => .expr e.expr
  | ret value => .ret (value.map Phrase.expr)

def tokens : Simple → List Token
  | expr e => e.tokens
  | ret none => [.word "return"]
  | ret (some e) => .word "return" :: e.tokens

def fits : Simple → Bool
  | expr e => e.fits
  | ret none => true
  | ret (some e) => e.fits

def joined : List Simple → List Token
  | [] => []
  | [s] => s.tokens
  | s :: next :: rest => s.tokens ++ .semicolon :: joined (next :: rest)

end Simple

namespace Clause

def stmt : Clause → Stmt
  | simple s => s.stmt
  | when test body => .when test.expr body.stmt
  | whenBlock test body => .when test.expr (.block (body.map Simple.stmt))
  | loopBlock test body => .loop test.expr (.block (body.map Simple.stmt))

def guard (word : String) (test : Phrase) (rest : List Token) : List Token :=
  .word word :: .openParen :: (test.tokens ++ .closeParen :: rest)

def tokens : Clause → List Token
  | simple s => s.tokens
  | when test body => guard "if" test body.tokens
  | whenBlock test body => guard "if" test (.openBrace :: (Simple.joined body ++ [.closeBrace]))
  | loopBlock test body => guard "while" test (.openBrace :: (Simple.joined body ++ [.closeBrace]))

def fits : Clause → Bool
  | simple s => s.fits
  | when test body => test.fits && body.fits
  | whenBlock test body | loopBlock test body => test.fits && body.all Simple.fits

def needsEnd : Clause → Bool
  | simple _ | when .. => true
  | whenBlock .. | loopBlock .. => false

def line : List Clause → List Token
  | [] => [.semicolon]
  | [c] => c.tokens ++ [.semicolon]
  | c :: next :: rest =>
    c.tokens ++ ((if c.needsEnd then [.semicolon] else []) ++ line (next :: rest))

def stmts : List Clause → List Stmt
  | [] => [.empty]
  | [c] => c.stmt :: if c.needsEnd then [] else [.empty]
  | c :: next :: rest => c.stmt :: stmts (next :: rest)

end Clause

namespace Simple

open Grammar

theorem derived {s : Simple} (fits : s.fits = true) {last : Bool} {us : List Token}
    (ends : Ends last us) : Statement last (s.tokens ++ us) s.stmt := by
  cases s with
  | expr e => exact .expr (Phrase.derived fits).expression ends
  | ret value =>
    cases value with
    | none => exact .leave ends
    | some e => exact .ret (Phrase.derived fits).expression ends

theorem derived_joined (ss : List Simple) (fits : ss.all Simple.fits = true) :
    Statements true (joined ss) (ss.map stmt) := by
  induction ss with
  | nil => exact .nil
  | cons s rest ih =>
    rw [List.all_cons, Bool.and_eq_true] at fits
    cases rest with
    | nil =>
      have last := derived fits.1 (.inr ⟨rfl, rfl⟩ : Ends true [])
      rw [List.append_nil] at last
      exact .final last
    | cons next rest =>
      have first := derived fits.1 (.inl rfl : Ends false [.semicolon])
      rw [joined, List.append_cons]
      exact .cons first (ih fits.2)

end Simple

namespace Clause

open Grammar Simple

theorem derived_block {body : List Simple} (fits : body.all Simple.fits = true) {last : Bool} :
    Statement last (.openBrace :: (joined body ++ [.closeBrace])) (.block (body.map Simple.stmt)) :=
  .block (derived_joined body fits)

theorem derived_of_needsEnd {c : Clause} (fits : c.fits = true) (needs : c.needsEnd = true)
    {last : Bool} {us : List Token} (ends : Ends last us) :
    Statement last (c.tokens ++ us) c.stmt := by
  cases c with
  | simple s => exact Simple.derived fits ends
  | when test body =>
    simp only [Clause.fits, Bool.and_eq_true] at fits
    have inner := Statement.when (Phrase.derived fits.1).expression (Simple.derived fits.2 ends)
    simpa [tokens, guard, stmt] using inner
  | whenBlock | loopBlock => cases needs

theorem derived_of_free {c : Clause} (fits : c.fits = true) (free : c.needsEnd = false)
    {last : Bool} : Statement last c.tokens c.stmt := by
  cases c with
  | simple | when => cases free
  | whenBlock test body =>
    simp only [Clause.fits, Bool.and_eq_true] at fits
    exact .when (Phrase.derived fits.1).expression (derived_block fits.2)
  | loopBlock test body =>
    simp only [Clause.fits, Bool.and_eq_true] at fits
    exact .loop (Phrase.derived fits.1).expression (derived_block fits.2)

theorem derived {c : Clause} (fits : c.fits = true) :
    Statement false (c.tokens ++ if c.needsEnd then [.semicolon] else []) c.stmt := by
  cases needs : c.needsEnd with
  | true => exact derived_of_needsEnd fits needs (.inl rfl)
  | false => simpa using derived_of_free fits needs

theorem derived_line (cs : List Clause) (fits : cs.all Clause.fits = true) :
    Statements false (line cs) (stmts cs) := by
  induction cs with
  | nil =>
    show Statements false ([.semicolon] ++ []) [.empty]
    exact .cons .empty .nil
  | cons c rest ih =>
    rw [List.all_cons, Bool.and_eq_true] at fits
    have first := derived fits.1
    cases rest with
    | nil =>
      cases needs : c.needsEnd with
      | true =>
        rw [needs] at first
        simpa [line, stmts, needs] using Statements.cons first .nil
      | false =>
        rw [needs] at first
        simpa [line, stmts, needs] using Statements.cons first (.cons .empty .nil)
    | cons next rest =>
      rw [line, ← List.append_assoc]
      exact .cons first (ih fits.2)

end Clause

namespace Lexeme

open Token

@[simp] theorem token?_token (t : Token) : (token t).token? = some t := rfl

@[simp] theorem token?_blank (c : Char) : (blank c).token? = none := rfl

@[simp] theorem filterMap_token (ts : List Token) : ts.filterMap (token? ∘ token) = ts := by
  simp [Function.comp_def]

def isBracket : Token → Bool
  | .openParen | .closeParen | .openBrace | .closeBrace | .semicolon => true
  | _ => false

theorem follows_bracket {t : Token} (bracket : isBracket t = true) (x : Lexeme) :
    x.Follows (token t).pending := by
  right
  intro c _
  cases t with
  | openParen | closeParen | openBrace | closeBrace | semicolon => exact parts_symbol rfl
  | _ => cases bracket

theorem proper_symbol {t : Token} (symbol : isSymbol t = true) : (token t).Proper := by
  cases t with
  | number | word => cases symbol
  | _ => exact trivial

structure Complete (xs : List Lexeme) : Prop extends Neat xs where
  symbol : ∀ x ∈ xs.getLast?, ∀ t, isSymbol t = true → (token t).Follows x.pending

theorem complete_bracket {t : Token} (bracket : isBracket t = true) : Complete [token t] := by
  have symbol : isSymbol t = true := by
    cases t with
    | number | word => cases bracket
    | _ => rfl
  refine ⟨⟨by simpa using proper_symbol symbol, .singleton _⟩, ?_⟩
  intro x member u _
  obtain rfl : token t = x := by simpa using member
  exact follows_bracket bracket _

theorem Complete.behind {xs ys : List Lexeme} {t : Token} (left : Complete xs)
    (symbol : isSymbol t = true) (right : Complete (token t :: ys)) :
    Complete (xs ++ token t :: ys) := by
  refine ⟨left.toNeat.append right.toNeat ?_, ?_⟩
  · intro x member y first
    obtain rfl : token t = y := by simpa using first
    exact left.symbol x member t symbol
  · intro x member u other
    rw [List.getLast?_append_of_ne_nil _ (by simp)] at member
    exact right.symbol x member u other

theorem Complete.before {xs : List Lexeme} {x : Lexeme} (right : Complete xs) (proper : x.Proper)
    (border : ∀ y ∈ xs.head?, y.Follows x.pending) (some_ : xs ≠ []) : Complete (x :: xs) := by
  refine ⟨right.toNeat.cons proper border, ?_⟩
  intro y member t symbol
  apply right.symbol y ?_ t symbol
  rw [List.getLast?_cons_of_ne_nil some_] at member
  exact member

theorem Complete.bracket {xs : List Lexeme} {t : Token} (right : Complete xs)
    (bracket : isBracket t = true) (some_ : xs ≠ []) : Complete (token t :: xs) :=
  right.before ((complete_bracket bracket).proper _ (by simp)) (fun y _ => follows_bracket bracket y) some_

theorem complete_tokens {e : Phrase} (fits : e.fits = true) : Complete (e.tokens.map token) := by
  have tidy := Phrase.tidy_tokens fits
  refine ⟨neat_map_token (Phrase.proper_tokens fits) tidy.chain, ?_⟩
  intro x member t symbol
  rw [List.getLast?_map, Option.mem_def, Option.map_eq_some_iff] at member
  obtain ⟨last, ending, rfl⟩ := member
  exact follows_of_not_joins (proper_symbol symbol)
    (Phrase.not_joins_of_endsExpr (tidy.last last ending) symbol)

end Lexeme

namespace Simple

open Lexeme

def lexemes : Simple → List Lexeme
  | expr e => e.tokens.map token
  | ret none => [token (.word "return")]
  | ret (some e) => token (.word "return") :: blank ' ' :: e.tokens.map token

def joinedLexemes : List Simple → List Lexeme
  | [] => []
  | [s] => s.lexemes
  | s :: next :: rest => s.lexemes ++ token .semicolon :: joinedLexemes (next :: rest)

theorem filterMap_lexemes (s : Simple) : s.lexemes.filterMap token? = s.tokens := by
  cases s with
  | expr e => simp [lexemes, tokens]
  | ret value => cases value <;> simp [lexemes, tokens, List.filterMap_cons]

theorem filterMap_joined (ss : List Simple) :
    (joinedLexemes ss).filterMap token? = joined ss := by
  induction ss with
  | nil => rfl
  | cons s rest ih =>
    cases rest with
    | nil => exact s.filterMap_lexemes
    | cons next rest => simp [joinedLexemes, joined, filterMap_lexemes, ih]

theorem sameLine_lexemes (s : Simple) : s.lexemes.all sameLine = true := by
  cases s with
  | expr e => simp [lexemes, sameLine]
  | ret value => cases value <;> simp [lexemes, sameLine, endsLine]

theorem sameLine_joined (ss : List Simple) : (joinedLexemes ss).all sameLine = true := by
  induction ss with
  | nil => rfl
  | cons s rest ih =>
    cases rest with
    | nil => exact s.sameLine_lexemes
    | cons next rest =>
      simp only [joinedLexemes, List.all_append, List.all_cons, s.sameLine_lexemes, ih, Bool.and_true]
      rfl

theorem lexemes_ne_nil (s : Simple) : s.lexemes ≠ [] := by
  cases s with
  | expr e =>
    obtain ⟨tail, shape⟩ := e.exists_tail
    simp [lexemes, shape]
  | ret value => cases value <;> simp [lexemes]

theorem complete_lexemes {s : Simple} (fits : s.fits = true) : Complete s.lexemes := by
  have word : (token (.word "return")).Proper := (by decide : Token.isName "return" = true)
  cases s with
  | expr e => exact complete_tokens fits
  | ret value =>
    cases value with
    | none =>
      refine ⟨⟨by simpa [lexemes] using word, .singleton _⟩, ?_⟩
      intro x member t symbol
      obtain rfl : token (.word "return") = x := by simpa [lexemes] using member
      exact follows_of_not_joins (proper_symbol symbol)
        (Phrase.not_joins_of_endsExpr (show Token.endsExpr (.word "return") = true from rfl) symbol)
    | some e =>
      obtain ⟨tail, shape⟩ := e.exists_tail
      refine ((complete_tokens fits).before (x := blank ' ') rfl (fun _ _ => .inl rfl)
        (by simp [shape])).before word ?_ (by simp)
      intro y first
      obtain rfl : blank ' ' = y := by simpa using first
      exact follows_word "return"

theorem complete_braced (ss : List Simple) (fits : ss.all Simple.fits = true) :
    Complete (token .openBrace :: (joinedLexemes ss ++ [token .closeBrace])) := by
  have closing : Complete [token .closeBrace] := complete_bracket rfl
  refine Complete.bracket ?_ rfl (by simp)
  induction ss with
  | nil => exact closing
  | cons s rest ih =>
    rw [List.all_cons, Bool.and_eq_true] at fits
    cases rest with
    | nil => exact (complete_lexemes fits.1).behind rfl closing
    | cons next rest =>
      rw [joinedLexemes, List.append_assoc, List.cons_append]
      exact (complete_lexemes fits.1).behind rfl
        ((ih fits.2).bracket rfl (by simp))

end Simple

namespace Clause

open Lexeme Simple

def guardLexemes (word : String) (test : Phrase) (rest : List Lexeme) : List Lexeme :=
  token (.word word) :: token .openParen :: (test.tokens.map token ++ token .closeParen :: rest)

def lexemes : Clause → List Lexeme
  | simple s => s.lexemes
  | when test body => guardLexemes "if" test body.lexemes
  | whenBlock test body =>
    guardLexemes "if" test (token .openBrace :: (joinedLexemes body ++ [token .closeBrace]))
  | loopBlock test body =>
    guardLexemes "while" test (token .openBrace :: (joinedLexemes body ++ [token .closeBrace]))

def lineLexemes : List Clause → List Lexeme
  | [] => [token .semicolon]
  | [c] => c.lexemes ++ [token .semicolon]
  | c :: next :: rest =>
    c.lexemes ++ ((if c.needsEnd then [token .semicolon] else []) ++ lineLexemes (next :: rest))

theorem filterMap_lexemes (c : Clause) : c.lexemes.filterMap token? = c.tokens := by
  cases c with
  | simple s => exact s.filterMap_lexemes
  | when test body =>
    simp [lexemes, tokens, guardLexemes, guard, Simple.filterMap_lexemes]
  | whenBlock test body | loopBlock test body =>
    simp [lexemes, tokens, guardLexemes, guard, filterMap_joined]

theorem filterMap_line (cs : List Clause) : (lineLexemes cs).filterMap token? = line cs := by
  induction cs with
  | nil => rfl
  | cons c rest ih =>
    cases rest with
    | nil => simp [lineLexemes, line, filterMap_lexemes]
    | cons next rest => cases end_ : c.needsEnd <;>
        simp [lineLexemes, line, filterMap_lexemes, ih, end_]

theorem sameLine_lexemes (c : Clause) : c.lexemes.all sameLine = true := by
  cases c with
  | simple s => exact s.sameLine_lexemes
  | when test body => simp [lexemes, guardLexemes, sameLine, body.sameLine_lexemes]
  | whenBlock test body | loopBlock test body =>
    simp [lexemes, guardLexemes, sameLine, sameLine_joined]

theorem sameLine_line (cs : List Clause) : (lineLexemes cs).all sameLine = true := by
  induction cs with
  | nil => rfl
  | cons c rest ih =>
    cases rest with
    | nil => simp [lineLexemes, c.sameLine_lexemes, sameLine]
    | cons next rest =>
      cases end_ : c.needsEnd <;> simp [lineLexemes, c.sameLine_lexemes, end_, ih, sameLine]

theorem complete_guard {word : String} (name : Token.isName word = true) {test : Phrase}
    (fits : test.fits = true) {rest : List Lexeme} (body : Complete rest) (some_ : rest ≠ []) :
    Complete (guardLexemes word test rest) := by
  have closed : Complete (token .closeParen :: rest) := body.bracket rfl some_
  have tested := (complete_tokens fits).behind rfl closed
  have opened : Complete (token .openParen :: (test.tokens.map token ++ token .closeParen :: rest)) :=
    tested.bracket rfl (by simp)
  refine opened.before name ?_ (by simp)
  intro y first
  obtain rfl : token .openParen = y := by simpa using first
  exact follows_of_not_joins (t := .word word) (proper_symbol rfl) rfl

theorem complete_lexemes {c : Clause} (fits : c.fits = true) : Complete c.lexemes := by
  cases c with
  | simple s => exact Simple.complete_lexemes fits
  | when test body =>
    simp only [Clause.fits, Bool.and_eq_true] at fits
    exact complete_guard (by decide) fits.1 (Simple.complete_lexemes fits.2) body.lexemes_ne_nil
  | whenBlock test body | loopBlock test body =>
    simp only [Clause.fits, Bool.and_eq_true] at fits
    exact complete_guard (by decide) fits.1 (complete_braced body fits.2) (by simp)

theorem lineLexemes_ne_nil (cs : List Clause) : lineLexemes cs ≠ [] := by
  induction cs with
  | nil => simp [lineLexemes]
  | cons c rest ih => cases rest <;> simp_all [lineLexemes]

theorem getLast?_line (cs : List Clause) :
    (lineLexemes cs).getLast? = some (token .semicolon) := by
  induction cs with
  | nil => rfl
  | cons c rest ih =>
    cases rest with
    | nil => simp [lineLexemes]
    | cons next rest =>
      rw [lineLexemes, ← List.append_assoc,
        List.getLast?_append_of_ne_nil _ (lineLexemes_ne_nil _), ih]

theorem follows_lexemes {c : Clause} (free : c.needsEnd = false) (x y : Lexeme)
    (last : x ∈ c.lexemes.getLast?) : y.Follows x.pending := by
  cases c with
  | simple | when => cases free
  | whenBlock test body | loopBlock test body =>
    obtain rfl : token .closeBrace = x := by
      simpa [lexemes, guardLexemes, List.getLast?_cons, List.getLast?_append] using last
    exact follows_bracket rfl y

theorem neat_line (cs : List Clause) (fits : cs.all Clause.fits = true) :
    Neat (lineLexemes cs) := by
  induction cs with
  | nil => exact (complete_bracket rfl).toNeat
  | cons c rest ih =>
    rw [List.all_cons, Bool.and_eq_true] at fits
    have complete := complete_lexemes fits.1
    cases rest with
    | nil => exact (complete.behind rfl (complete_bracket rfl)).toNeat
    | cons next rest =>
      have later := ih fits.2
      rw [lineLexemes]
      cases end_ : c.needsEnd with
      | true =>
        refine complete.toNeat.append
          (later.cons (x := token .semicolon) trivial fun y _ => follows_bracket rfl y) ?_
        intro x last y first
        obtain rfl : token .semicolon = y := by simpa using first
        exact complete.symbol x last _ rfl
      | false => exact complete.toNeat.append later fun x last y _ => follows_lexemes end_ x y last

end Clause

structure Row where
  note : List Char
  clauses : List Clause

namespace Row

open Lexeme

def lexemes (r : Row) : List Lexeme :=
  blank '\n' :: comment r.note :: blank ' ' :: Clause.lineLexemes r.clauses

structure Fits (r : Row) : Prop where
  plain : '*' ∉ r.note
  sameLine : (comment r.note).sameLine = true
  clauses : r.clauses.all Clause.fits = true

theorem neat_lexemes {r : Row} (fits : r.Fits) : Neat r.lexemes :=
  (((Clause.neat_line r.clauses fits.clauses).cons (x := blank ' ') rfl (fun _ _ => .inl rfl)).cons
    (x := comment r.note) (proper_comment fits.plain) (fun _ _ => .inl rfl)).cons (x := blank '\n')
    rfl fun _ _ => .inl rfl

theorem linesClosed_lexemes {r : Row} (fits : r.Fits) : LinesClosed (r.lexemes.flatMap chars) := by
  refine linesClosed_cons '\n' fun c member => not_endsLine_of_sameLine
    (fun x inside => (neat_lexemes fits).proper x (List.mem_cons_of_mem _ inside)) ?_ member
  simp only [List.all_cons, fits.sameLine, Clause.sameLine_line, Bool.and_true]
  rfl

theorem filterMap_lexemes (r : Row) : r.lexemes.filterMap token? = Clause.line r.clauses := by
  rw [← Clause.filterMap_line]
  rfl

end Row

end ZCode.Script
