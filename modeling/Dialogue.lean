import Dialogue.Text.Blank
import Dialogue.Text.Quoted
import Dialogue.Text.Hidden
import Dialogue.Report
import Dialogue.Token
import Dialogue.Error
import Dialogue.Token.Lexer
import Dialogue.Script
import Dialogue.Json
import Dialogue.Script.Json
import Dialogue.Log
import Dialogue.Token.Taken
import Dialogue.Script.Offer
import Dialogue.Script.Clause
import Dialogue.Script.Scope
import Dialogue.Script.Parser
import Dialogue.Routine
import Dialogue.Routine.Code
import Dialogue.Compile
import Dialogue.Proofs.LiteralForms
import Dialogue.Proofs.ReadingLiterals
import Dialogue.Proofs.Grammar
import Dialogue.Proofs.Readers
import Dialogue.Proofs.Run
import Dialogue.Proofs.Parsing
import Dialogue.Proofs.Nesting
import Dialogue.Proofs.Contents
import Dialogue.Proofs.Printing
import Dialogue.Proofs.RoundTrip
import Dialogue.Proofs.Meaning
import Dialogue.Proofs.Program
import Dialogue.Proofs.Lowering
import Dialogue.Proofs.Grouping
import Dialogue.Proofs.Denotation
import Dialogue.Proofs.Accepted
import Dialogue.Proofs.ProgramText
import Dialogue.Proofs.JsonReading
import Dialogue.Proofs.ProgramLines
import Dialogue.Proofs.GeneratedLines
import Dialogue.Proofs.ReadingBack
import Dialogue.Proofs.Compilation
import Dialogue.Proofs.Completion
import Dialogue.Proofs.Positions
import Dialogue.Proofs.SourceLines
import Dialogue.Proofs.Composition
import Dialogue.Proofs.Gaps
import Dialogue.Proofs.LayoutEdits
import Dialogue.Proofs.Tiling
import Dialogue.Proofs.Occurrences
import Dialogue.Proofs.ScriptJson
import Dialogue.Proofs.Outline
import Dialogue.Proofs.Indentation
import Dialogue.Proofs.Moves
import Dialogue.Proofs.Menus
import Dialogue.Proofs.JsonLines
import Dialogue.Proofs.Declarations
import Dialogue.Proofs.Rendering
import Dialogue.Proofs.Writing
import Dialogue.Proofs.SpokenOffers
import Dialogue.Proofs.Unfinished
import Dialogue.Proofs.Blame
import Dialogue.Proofs.ScopeLog
import Dialogue.Proofs.ChoiceRuns
import Dialogue.Proofs.MenuRecords
import Dialogue.Proofs.Literals
import Dialogue.Proofs.Recognition
import Dialogue.Proofs.Totality
import Dialogue.Proofs.LineEnds
