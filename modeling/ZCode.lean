import ZCode.Main
import ZCode.Proofs.Instruction.Grammar
import ZCode.Proofs.Block.Locality
import ZCode.Proofs.Script.Lexeme
import ZCode.Proofs.Script.Phrase
import ZCode.Proofs.Session.Freshness
import ZCode.Proofs.Script.Spelling
import ZCode.Proofs.Script.Clause
import ZCode.Proofs.Statement.Syntax
import ZCode.Proofs.Block.Script
import ZCode.Proofs.Script.Arithmetic
import ZCode.Proofs.Script.Execution
import ZCode.Proofs.Statement.Execution
import ZCode.Proofs.Statement.Meaning
import ZCode.Proofs.Block.Meaning
import ZCode.Proofs.Block.Outcome
import ZCode.Proofs.Session.Sharing
import ZCode.Proofs.Survey.Reach
import ZCode.Proofs.Script.Frame
import ZCode.Proofs.Script.Passage
import ZCode.Proofs.Block.Compile
import ZCode.Proofs.Block.Flow
import ZCode.Proofs.Block.Shift
import ZCode.Proofs.Block.Balance
import ZCode.Proofs.Block.Counting
import ZCode.Proofs.Store
import ZCode.Proofs.Session.Faults
import ZCode.Proofs.Block.Suspension
import ZCode.Proofs.Block.Linkage
import ZCode.Proofs.Block.Variables
import ZCode.Proofs.Block.Fragment
import ZCode.Proofs.Block.Tail
import ZCode.Proofs.Block.Version
import ZCode.Proofs.Script.Origin
import ZCode.Proofs.Block.Access
import ZCode.Proofs.Block.Resumption
import ZCode.Proofs.Diagnosis
import ZCode.Proofs.Survey.Accounting
import ZCode.Proofs.Session.Cursor
import ZCode.Proofs.Session.Failure
import ZCode.Proofs.Story
import ZCode.Proofs.Views
import ZCode.Proofs.Block.Listing
import ZCode.Proofs.Text
import ZCode.Proofs.Json.Written
import ZCode.Proofs.Dump
