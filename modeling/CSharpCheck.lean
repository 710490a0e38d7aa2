import CSharpCheck.Main
import CSharpCheck.Validation
import CSharpCheck.Proofs.BareExpressions
import CSharpCheck.Proofs.BlockNesting
import CSharpCheck.Proofs.BraceRecovery
import CSharpCheck.Proofs.BracketSoundness
import CSharpCheck.Proofs.ByteOrderMark
import CSharpCheck.Proofs.CaseLabels
import CSharpCheck.Proofs.ConditionalBlocks
import CSharpCheck.Proofs.ConditionalText
import CSharpCheck.Proofs.ConditionEvaluation
import CSharpCheck.Proofs.CorePrograms
import CSharpCheck.Proofs.DeclarationHeads
import CSharpCheck.Proofs.DirectiveLines
import CSharpCheck.Proofs.DirectivePlacement
import CSharpCheck.Proofs.ErrorOrder
import CSharpCheck.Proofs.ExcludedText
import CSharpCheck.Proofs.FeatureGating
import CSharpCheck.Proofs.GivingUpOnce
import CSharpCheck.Proofs.HoleBraces
import CSharpCheck.Proofs.InterpolatedTwins
import CSharpCheck.Proofs.Layout
import CSharpCheck.Proofs.LineStyles
import CSharpCheck.Proofs.Literals
import CSharpCheck.Proofs.LosslessScanning
import CSharpCheck.Proofs.NumberDots
import CSharpCheck.Proofs.RawStringRules
import CSharpCheck.Proofs.ReadingEnds
import CSharpCheck.Proofs.ScanProgress
import CSharpCheck.Proofs.ScriptMode
import CSharpCheck.Proofs.StatementOrder
import CSharpCheck.Proofs.TokenFeeds
import CSharpCheck.Proofs.TokenGrammar
import CSharpCheck.Proofs.TruePositions
import CSharpCheck.Proofs.TypeFeatures
import CSharpCheck.Proofs.TypePasses
import CSharpCheck.Proofs.VersionChange
import CSharpCheck.Proofs.Core.Decisions
import CSharpCheck.Proofs.Core.Expressions
import CSharpCheck.Proofs.Core.Programs
import CSharpCheck.Proofs.Core.Spelling
import CSharpCheck.Proofs.Reading.Levels
