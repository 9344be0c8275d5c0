import RubyLint.Main
import RubyLint.Proofs.HexDigits
import RubyLint.Proofs.CharacterLiteral
import RubyLint.Proofs.TreeWalk
import RubyLint.Proofs.Utf8RoundTrip
import RubyLint.Proofs.Outcomes
import RubyLint.Proofs.PlainCall
import RubyLint.Proofs.ArgumentValue
import RubyLint.Proofs.AlignedTree
import RubyLint.Proofs.ShortcutClassification
import RubyLint.Proofs.EditSplice
import RubyLint.Proofs.NestedSpans
import RubyLint.Proofs.ShortcutMeaning
import RubyLint.Proofs.GrammaticalTree
import RubyLint.Proofs.ReplacementEdits
import RubyLint.Proofs.FixPasses
import RubyLint.Proofs.FileOutline
import RubyLint.Proofs.ReplacementReports
import RubyLint.Proofs.UnifiedLineEndings
import RubyLint.Proofs.TargetRuns
import RubyLint.Proofs.FixThenLint
import RubyLint.Proofs.PassBudgets
import RubyLint.Proofs.ConfigProblems
import RubyLint.Proofs.UntouchedLines
import RubyLint.Proofs.ControlSequences
import RubyLint.Proofs.LineMatching
import RubyLint.Proofs.PatchHunks
import RubyLint.Proofs.PatchText
import RubyLint.Proofs.PatchEndings
import RubyLint.Proofs.StableSort
import RubyLint.Proofs.RuleOrder
import RubyLint.Proofs.LintPlan
import RubyLint.Proofs.WrittenTargets
import RubyLint.Proofs.DryRun
import RubyLint.Proofs.SeverityIndependence
import RubyLint.Proofs.RunsInStep
import RubyLint.Proofs.Registration
import RubyLint.Proofs.EscapeGrammar
import RubyLint.Proofs.RegexGrammar
import RubyLint.Proofs.SyntaxErrorRegions
import RubyLint.Proofs.PathNames
import RubyLint.Proofs.PathOrder
import RubyLint.Proofs.EditSelection
import RubyLint.Proofs.StringGrammar
import RubyLint.Proofs.SharedBodies
import RubyLint.Proofs.SingleQuoted
import RubyLint.Proofs.LiteralForms
import RubyLint.Proofs.SourcePositions
import RubyLint.Proofs.EditOrder
import RubyLint.Proofs.DirectoryListing
import RubyLint.Proofs.DocumentOrder
import RubyLint.Proofs.ScanPositions
