import AtomicCss.Interchange
import AtomicCss.Proofs.PixelUnits
import AtomicCss.Proofs.ReferenceSpans
import AtomicCss.Proofs.Rescaling
import AtomicCss.Proofs.TokenSurvival
import AtomicCss.Proofs.GeneratedClasses
import AtomicCss.Proofs.ClassPrefix
import AtomicCss.Proofs.RenderedReferences
import AtomicCss.Proofs.Rounding
import AtomicCss.Proofs.ShortestDecimal
import AtomicCss.Proofs.SixPlaces
import AtomicCss.Proofs.DecimalText
import AtomicCss.Proofs.Quarters
import AtomicCss.Proofs.ClassWords
import AtomicCss.Proofs.BorderWidths
import AtomicCss.Proofs.StyleComposition
import AtomicCss.Proofs.ImportantMark
import AtomicCss.Proofs.EmptyFallback
import AtomicCss.Proofs.ColorCalls
import AtomicCss.Proofs.RewrittenFallbacks
import AtomicCss.Proofs.SettingsDocuments
import AtomicCss.Proofs.GuardedReplacement
import AtomicCss.Proofs.RenamedVariables
import AtomicCss.Proofs.Renormalization
import AtomicCss.Proofs.TokenRecognition
import AtomicCss.Proofs.WholeNumbers
import AtomicCss.Proofs.ExactRescaling
import AtomicCss.Proofs.Substitution
import AtomicCss.Proofs.CommentLines
import AtomicCss.Proofs.FirstUse
import AtomicCss.Proofs.TokenFamilies
import AtomicCss.Proofs.TopLevelParts
import AtomicCss.Proofs.BorderLonghands
import AtomicCss.Proofs.GridSearch
import AtomicCss.Proofs.RoundedDecimals
import AtomicCss.Proofs.SpellingStarts
import AtomicCss.Proofs.FallbackScan
