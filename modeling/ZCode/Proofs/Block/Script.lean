import ZCode.Proofs.Script.Passage
import ZCode.Proofs.Statement.Syntax

set_option autoImplicit false

namespace ZCode.Fragment

open ZCode.Script Lexeme

def prologueTokens : List Token :=
  [.word "l", .assign, .word "e", .dot, .word "l", .comma, .word "s", .assign, .word "e", .dot,
    .word "s", .comma, .word "t", .assign, .number 0, .semicolon]

def prologueLexemes : List Lexeme :=
  token (.word "var") :: blank ' ' :: prologueTokens.map token

theorem chars_prologue : prologueLexemes.flatMap chars = prologue.toList := by
  decide

theorem neat_prologue : Neat prologueLexemes := by
  have keyword : Token.isName "var" = true := by decide
  have names : ∀ w ∈ ["l", "e", "s", "t"], Token.isName w = true := by decide
  have proper : ∀ t ∈ prologueTokens, (token t).Proper := by
    simp [prologueTokens, Proper, names]
  have tokens : Neat (prologueTokens.map token) := by
    refine neat_map_token proper ?_
    simp [prologueTokens, Token.joins]
  refine (tokens.cons (x := blank ' ') rfl fun _ _ => .inl rfl).cons keyword ?_
  rintro _ ⟨⟩
  exact follows_word "var"

def declaration : Stmt :=
  .declare [("l", .member (.name "e") "l"), ("s", .member (.name "e") "s"), ("t", .number 0)]

theorem passage_prologue : Passage prologueLexemes [declaration] where
  neat := neat_prologue
  closed := rfl
  linesClosed := linesClosed_of_sameLine neat_prologue.proper rfl
  derived := (statement_of_read (show Parser.statement 20
    (prologueLexemes.filterMap token? ++ [.semicolon]) = _ from rfl)).alone

def note (i : Instruction) : List Char :=
  ' ' :: ((toString i.addr).toList ++ '/' :: ((toString i.opcode).toList ++ [' ']))

theorem star_notMem_note (i : Instruction) : '*' ∉ note i := by
  have digits (n : Nat) : '*' ∉ Nat.toDigits 10 n := by
    intro member
    exact absurd (Token.isDigit_of_mem_spelling member) (by decide)
  simp [note, Statement.toList_word, Statement.toList_address, digits]

theorem sameLine_note (i : Instruction) : (comment (note i)).sameLine = true := by
  have digits (n : Nat) : ∀ c ∈ Nat.toDigits 10 n, endsLine c = false := fun c member =>
    not_endsLine_of_mem_spelling (t := .number n) trivial member
  simp only [sameLine, note, Statement.toList_word, Statement.toList_address, List.all_cons,
    List.all_append, List.all_nil, Bool.and_true, Bool.and_eq_true, List.all_eq_true,
    Bool.not_eq_true']
  exact ⟨rfl, digits _, rfl, digits _, rfl⟩

def row (p : Profile) (i : Instruction) : Row :=
  ⟨note i, (Statement.clauses p i).getD []⟩

theorem toList_line {p : Profile} {i : Instruction} {statement : String}
    (written : statement.toList ++ [';'] = Statement.lineChars (row p i).clauses) :
    (line i statement).toList = (row p i).lexemes.flatMap chars := by
  simp only [Statement.lineChars, row] at written
  simp [line, Row.lexemes, Lexeme.chars, ← written, Statement.toString_self, row, note]

theorem exists_lines {p : Profile} {is : List Instruction}
    (written : ∀ i ∈ is, (Statement.clauses p i).isSome = true) :
    ∃ statements, is.mapM (Statement.render p) = .ok statements ∧
      (String.join (List.zipWith line is statements)).toList =
        ((is.map (row p)).flatMap Row.lexemes).flatMap chars := by
  induction is with
  | nil => exact ⟨[], rfl, rfl⟩
  | cons i rest ih =>
    obtain ⟨statements, made, text⟩ := ih fun j member => written j (by simp [member])
    obtain ⟨cs, found⟩ := Option.isSome_iff_exists.mp (written i (by simp))
    obtain ⟨s, render, shape⟩ := Statement.exists_render found
    refine ⟨s :: statements, by simp [List.mapM_cons, render, made]; rfl, ?_⟩
    have head : (line i s).toList = (row p i).lexemes.flatMap chars :=
      toList_line (by simpa [row, found] using shape)
    simpa [head] using text

theorem parse?_ofBlock {p : Profile} {b : Block}
    (written : ∀ i ∈ b.instructions, (Statement.clauses p i).isSome = true)
    (unsigned : ∀ i ∈ b.instructions, i.op? = some .sub →
      ∀ op ∈ i.operands, op.kind ≠ .signedConstant) :
    ∃ f, ofBlock p b = .ok f ∧ parse? f.code = some (declaration ::
      b.instructions.flatMap fun i => Clause.stmts ((Statement.clauses p i).getD [])) := by
  obtain ⟨statements, made, text⟩ := exists_lines written
  refine ⟨_, by simp only [ofBlock, made]; rfl, ?_⟩
  have lines : ∀ i ∈ b.instructions, Passage (row p i).lexemes (Clause.stmts (row p i).clauses) := by
    intro i inside
    obtain ⟨cs, found⟩ := Option.isSome_iff_exists.mp (written i inside)
    have fit := Statement.fits_clauses (unsigned i inside) found
    exact Row.passage ⟨star_notMem_note i, sameLine_note i, by simpa [row, found] using fit⟩
  apply (passage_prologue.lines b.instructions lines).parse?_eq_some
  rw [String.toList_append, ← chars_prologue, text, List.flatMap_append, List.flatMap_map]

end ZCode.Fragment
