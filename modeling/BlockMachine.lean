import BlockMachine.Main
import BlockMachine.Proofs.Block.Redrawing
import BlockMachine.Proofs.Compiler.Arithmetic
import BlockMachine.Proofs.Compiler.Logic
import BlockMachine.Proofs.Compiler.Sharing
import BlockMachine.Proofs.Compiler.Termination
import BlockMachine.Proofs.Machine.Names
import BlockMachine.Proofs.Service.Reports
import BlockMachine.Proofs.Workspace.Defects
import BlockMachine.Proofs.Workspace.Recompiling
import BlockMachine.Proofs.Workspace.Redrawing
import BlockMachine.Proofs.Compiler.Deeds
import BlockMachine.Proofs.Compiler.Schedule
import BlockMachine.Proofs.Compiler.Recording
import BlockMachine.Proofs.Compiler.Declaring
import BlockMachine.Proofs.Script.Identifier
import BlockMachine.Proofs.Workspace.Declarations
import BlockMachine.Proofs.Workspace.Slots
import BlockMachine.Proofs.Number.Leading
import BlockMachine.Proofs.Script.Lexer
import BlockMachine.Proofs.Script.Literals
import BlockMachine.Proofs.Compiler.Unfolding
import BlockMachine.Proofs.Script.Phrase
import BlockMachine.Proofs.Script.Phrasing
import BlockMachine.Proofs.Compiler.Grammatical
import BlockMachine.Proofs.Compiler.Growth
import BlockMachine.Proofs.Compiler.Passage
import BlockMachine.Proofs.Compiler.States
import BlockMachine.Proofs.CommandLine.Agreement
import BlockMachine.Proofs.Compiler.Awaiting
import BlockMachine.Proofs.Compiler.Tiers
import BlockMachine.Proofs.Compiler.Numbering
import BlockMachine.Proofs.Block.Insertion
import BlockMachine.Proofs.Compiler.Relocation
import BlockMachine.Proofs.Machine.Tick
import BlockMachine.Proofs.Compiler.Inserting
import BlockMachine.Proofs.Workspace.EmptyConditions
import BlockMachine.Proofs.Script.Outline
import BlockMachine.Proofs.Script.Survey
import BlockMachine.Proofs.Script.Marks
import BlockMachine.Proofs.Script.Forms
import BlockMachine.Proofs.Compiler.ValueMarks
import BlockMachine.Proofs.Compiler.StatementMarks
import BlockMachine.Proofs.Compiler.Exits
import BlockMachine.Proofs.Compiler.Hygiene
import BlockMachine.Proofs.Compiler.Entries
import BlockMachine.Proofs.Compiler.Release
import BlockMachine.Proofs.Machine.Records
import BlockMachine.Proofs.Compiler.Transitions
import BlockMachine.Proofs.Block.Chain
import BlockMachine.Proofs.Compiler.Interruptions
import BlockMachine.Proofs.Compiler.History
import BlockMachine.Proofs.Compiler.Strays
import BlockMachine.Proofs.Workspace.Rearranging
import BlockMachine.Proofs.Machine.Rereading
import BlockMachine.Proofs.Number.Numeral
import BlockMachine.Proofs.Number.Rounding
import BlockMachine.Proofs.Compiler.Integers
import BlockMachine.Proofs.Text.Quotation
import BlockMachine.Proofs.Script.Naming
import BlockMachine.Proofs.Block.Walk
import BlockMachine.Proofs.Text.Margins
