import SingleTape.Catalogue
import SingleTape.CommandLine.Help
import SingleTape.CommandLine.Job
import SingleTape.CommandLine.Options
import SingleTape.CommandLine.Resolution
import SingleTape.Decimal.Integer
import SingleTape.Decimal.Layout
import SingleTape.Decimal.Reading
import SingleTape.Decimal.Shortest
import SingleTape.Duration
import SingleTape.Error
import SingleTape.Execution
import SingleTape.Files.Loading
import SingleTape.Files.Tree
import SingleTape.General.Lists
import SingleTape.General.Results
import SingleTape.Instruction.Basic
import SingleTape.Instruction.Reader
import SingleTape.Json.Defect
import SingleTape.Json.Number
import SingleTape.Json.Reader
import SingleTape.Json.Shape
import SingleTape.Json.Skip
import SingleTape.Json.Text
import SingleTape.Json.Trace
import SingleTape.Json.Writer
import SingleTape.Machine
import SingleTape.Main
import SingleTape.Proofs.CommandLine.Pacing
import SingleTape.Proofs.Execution.Calls
import SingleTape.Proofs.Execution.Line
import SingleTape.Proofs.Execution.Refinement
import SingleTape.Proofs.Execution.Runs
import SingleTape.Proofs.Execution.Soundness
import SingleTape.Proofs.Instruction.Blocks
import SingleTape.Proofs.Instruction.Forms
import SingleTape.Proofs.Instruction.Grammar
import SingleTape.Proofs.Instruction.Lines
import SingleTape.Proofs.Instruction.Writing
import SingleTape.Proofs.Json.Numbers
import SingleTape.Proofs.Json.Objects
import SingleTape.Proofs.Json.Printed
import SingleTape.Proofs.Json.Reads
import SingleTape.Proofs.Json.Trace
import SingleTape.Proofs.Scheduler.Effects
import SingleTape.Proofs.Scheduler.Elapsed
import SingleTape.Proofs.Scheduler.History
import SingleTape.Proofs.Scheduler.Protocol
import SingleTape.Proofs.Session.Bookkeeping
import SingleTape.Proofs.Session.Coherence
import SingleTape.Proofs.Session.Faultless
import SingleTape.Proofs.Session.History
import SingleTape.Proofs.Session.Pulls
import SingleTape.Proofs.Settings.Export
import SingleTape.Proofs.Table.History
import SingleTape.Proofs.Table.Invariant
import SingleTape.Proofs.Table.Written
import SingleTape.Proofs.Tape.Coordinates
import SingleTape.Proofs.Text.Pieces
import SingleTape.Proofs.Text.Trim
import SingleTape.Record
import SingleTape.Scheduler
import SingleTape.Session.Basic
import SingleTape.Session.Paced
import SingleTape.Settings.Basic
import SingleTape.Settings.Json
import SingleTape.Table
import SingleTape.Tape
import SingleTape.Text.Blank
import SingleTape.Text.Quoted
import SingleTape.Text.Visible
import SingleTape.Proofs.Table.Loading
import SingleTape.Proofs.Instruction.Joining
import SingleTape.Proofs.CommandLine.Transcripts
import SingleTape.Pool
import SingleTape.Proofs.Pool.Sharing
import SingleTape.Proofs.Pool.Histories
import SingleTape.Proofs.Pool.Isolation
import SingleTape.Proofs.Execution.Extent
import SingleTape.Proofs.Execution.Halting
import SingleTape.Proofs.Execution.Focus
import SingleTape.Proofs.Catalogue.Increment
import SingleTape.Proofs.Scheduler.Spacing
import SingleTape.Proofs.Scheduler.Pauses
import SingleTape.Proofs.Scheduler.Rates
import SingleTape.Proofs.Execution.Mirror
import SingleTape.Proofs.Instruction.Edits
import SingleTape.Proofs.Execution.Answers
import SingleTape.Proofs.Execution.Trailing
import SingleTape.Proofs.Execution.Pulling
import SingleTape.Proofs.Execution.Tokens
import SingleTape.Proofs.Session.Tokens
import SingleTape.Proofs.CommandLine.Reseeding
import SingleTape.Proofs.Tape.History
import SingleTape.Proofs.Record.Lines
import SingleTape.Proofs.Json.Glyphs
import SingleTape.Proofs.Decimal.Rounding
import SingleTape.Proofs.Decimal.Doubles
import SingleTape.Proofs.Decimal.Arithmetic
import SingleTape.Proofs.Decimal.Range
import SingleTape.Proofs.Decimal.Shortest
import SingleTape.Proofs.Json.Numerals
import SingleTape.Proofs.Json.Doubles
import SingleTape.Proofs.Settings.Rates
import SingleTape.Proofs.Json.Values
import SingleTape.Proofs.Json.Members
import SingleTape.Proofs.Settings.Import
