import PlainPattern.CommandLine.Invocation
import PlainPattern.CommandLine.Report
import PlainPattern.Draft.Basic
import PlainPattern.Draft.CharsetCycle
import PlainPattern.Draft.OpenBlock
import PlainPattern.Draft.Refusal
import PlainPattern.Matching.Evaluator
import PlainPattern.Matching.Scene
import PlainPattern.Matching.Search
import PlainPattern.Matching.State
import PlainPattern.Matching.Template
import PlainPattern.Schema.Basic
import PlainPattern.Schema.CharacterClass
import PlainPattern.Schema.Keyword
import PlainPattern.Schema.Node
import PlainPattern.Schema.Table
import PlainPattern.Source.Compile
import PlainPattern.Source.Complaint
import PlainPattern.Source.Element
import PlainPattern.Source.Lexeme
import PlainPattern.Source.Location
import PlainPattern.Source.Place
import PlainPattern.Source.Progress
import PlainPattern.Source.Reading
import PlainPattern.Source.RepeatBounds
import PlainPattern.Text.Character
import PlainPattern.Text.GraphemeExtender
import PlainPattern.Text.Quoted
import PlainPattern.Text.Unprintable
import PlainPattern.Main
import PlainPattern.Proofs.Consumption
import PlainPattern.Proofs.Rollback
import PlainPattern.Proofs.Leftmost
import PlainPattern.Proofs.Captures
import PlainPattern.Proofs.Enumeration
import PlainPattern.Proofs.Replacement
import PlainPattern.Proofs.CharsetWalk
import PlainPattern.Proofs.TreeRules
import PlainPattern.Proofs.SoundDraft
import PlainPattern.Proofs.LegalTrees
import PlainPattern.Proofs.Printable
import PlainPattern.Proofs.Phrases
import PlainPattern.Proofs.Numbering
import PlainPattern.Proofs.CompiledTrees
import PlainPattern.Proofs.Printer
import PlainPattern.Proofs.Rebuilding
import PlainPattern.Proofs.PrintedLexemes
import PlainPattern.Proofs.PrintedReading
import PlainPattern.Proofs.PrintedSymbols
import PlainPattern.Proofs.RoundTrip
import PlainPattern.Proofs.CycleReports
import PlainPattern.Proofs.Settling
import PlainPattern.Proofs.Termination
import PlainPattern.Proofs.Layout
import PlainPattern.Proofs.BlindReaders
import PlainPattern.Proofs.BlindMoves
import PlainPattern.Proofs.DeclaredNames
import PlainPattern.Proofs.LayoutReading
import PlainPattern.Proofs.Definitions
import PlainPattern.Proofs.Assembly
import PlainPattern.Proofs.Joining
import PlainPattern.Proofs.Composition
import PlainPattern.Proofs.CompletedSymbols
import PlainPattern.Proofs.OrderedChoice
import PlainPattern.Proofs.ItemCount
import PlainPattern.Proofs.Exclusion
import PlainPattern.Proofs.Occurrences
import PlainPattern.Proofs.Flattening
import PlainPattern.Proofs.StrippedSchemas
import PlainPattern.Proofs.Views
import PlainPattern.Proofs.MirroredScenes
import PlainPattern.Proofs.LookingForward
import PlainPattern.Proofs.PassiveCaptures
import PlainPattern.Proofs.VariableValues
import PlainPattern.Proofs.RefusedEdits
import PlainPattern.Proofs.StructuralRefusals
import PlainPattern.Proofs.CompileRefusals
import PlainPattern.Proofs.ElementEnds
import PlainPattern.Proofs.ElementLists
import PlainPattern.Proofs.Placeholders
import PlainPattern.Proofs.OwnCaptures
import PlainPattern.Proofs.FailedCalls
import PlainPattern.Proofs.FaultPlaces
import PlainPattern.Proofs.ErrorPlaces
import PlainPattern.Proofs.Extension
import PlainPattern.Proofs.Depth
import PlainPattern.Proofs.EndlessSearches
import PlainPattern.Proofs.Reachability
import PlainPattern.Proofs.Modes
import PlainPattern.Proofs.Turns
