import FlexSynth.Editor
import FlexSynth.Main
import FlexSynth.Proofs.Flex.Pattern
import FlexSynth.Proofs.Flex.Reading
import FlexSynth.Proofs.Flex.Spelling
import FlexSynth.Proofs.Flex.Lexing
import FlexSynth.Proofs.Flex.Binding
import FlexSynth.Proofs.Partial
import FlexSynth.Proofs.Regex.Meaning
import FlexSynth.Proofs.Regex.Rendered
import FlexSynth.Proofs.Regex.Refusals
import FlexSynth.Proofs.Scan.Basic
import FlexSynth.Proofs.Scan.Rules
import FlexSynth.Proofs.Scan.Invariant
import FlexSynth.Proofs.Scan.Progress
import FlexSynth.Proofs.Scan.States
import FlexSynth.Proofs.Scan.Winner
import FlexSynth.Proofs.Scan.Priority
import FlexSynth.Proofs.Scan.StringLiteral
import FlexSynth.Proofs.Scan.BlockComment
import FlexSynth.Proofs.Scan.CharLiteral
import FlexSynth.Proofs.Scan.CharErrors
import FlexSynth.Proofs.Symbols
import FlexSynth.Proofs.Symbols.Numbering
import FlexSynth.Proofs.Refusal
import FlexSynth.Proofs.Terminals
import FlexSynth.Proofs.Grammar.Loaded
import FlexSynth.Proofs.Lines.Reading
import FlexSynth.Proofs.Lines.Rules
import FlexSynth.Proofs.Lines.Sections
import FlexSynth.Proofs.Files.Write
import FlexSynth.Proofs.Run.Resolution
import FlexSynth.Proofs.Run.Generation
import FlexSynth.Proofs.Run.Delivery
import FlexSynth.Proofs.Run.Single
import FlexSynth.Proofs.Watch
import FlexSynth.Proofs.Grammar.Places
import FlexSynth.Proofs.Grammar.Violations
import FlexSynth.Proofs.Grammar.Messages
import FlexSynth.Proofs.Grammar.FirstViolation
import FlexSynth.Proofs.Grammar.Nodes
import FlexSynth.Proofs.Run.Reported
import FlexSynth.Proofs.Text.Display
import FlexSynth.Proofs.Text.Utf8
import FlexSynth.Proofs.Text.Position
import FlexSynth.Proofs.Text.Search
import FlexSynth.Proofs.Json.Surrogates
import FlexSynth.Proofs.Json.Depth
import FlexSynth.Proofs.Json.Faults
import FlexSynth.Proofs.Json.Texts
import FlexSynth.Proofs.Json.LineEnds
import FlexSynth.Proofs.Editor
import FlexSynth.Proofs.Editor.Errors
import FlexSynth.Proofs.Editor.Warnings
import FlexSynth.Proofs.Scan.StartStates
import FlexSynth.Proofs.Json.Strings
import FlexSynth.Proofs.Json.Literals
import FlexSynth.Proofs.Json.Printed
import FlexSynth.Proofs.Symbols.Export
import FlexSynth.Proofs.Text.Quoted
import FlexSynth.Proofs.Names.Agreement
import FlexSynth.Proofs.CommandLine.Precedence
import FlexSynth.Proofs.Symbols.Construction
import FlexSynth.Proofs.Flex.Bracket
import FlexSynth.Proofs.Regex.Grouping
import FlexSynth.Proofs.Lines.Notes
import FlexSynth.Proofs.Scan.CategoryOrder
