import FieldQuery.Main
import FieldQuery.Proofs.CanonicalText
import FieldQuery.Proofs.CompileCases
import FieldQuery.Proofs.CompiledMeaning
import FieldQuery.Proofs.TokenSpelling
import FieldQuery.Proofs.TokenSequence
import FieldQuery.Proofs.TighterLimits
import FieldQuery.Proofs.CompileFailures
import FieldQuery.Proofs.CompiledAtoms
import FieldQuery.Proofs.LoadFaults
import FieldQuery.Proofs.LoadedSettings
import FieldQuery.Proofs.Lineage
import FieldQuery.Proofs.RootIsolation
import FieldQuery.Proofs.QuotedTexts
import FieldQuery.Proofs.WrittenDocuments
import FieldQuery.Proofs.SettingsReadBack
import FieldQuery.Proofs.MergedRanges
import FieldQuery.Proofs.TableHistories
import FieldQuery.Proofs.CommandAgreement
import FieldQuery.Proofs.TokenLayout
import FieldQuery.Proofs.PairedBounds
import FieldQuery.Proofs.KeptConditions
import FieldQuery.Proofs.CompiledForm
import FieldQuery.Proofs.ErrorPlaces
import FieldQuery.Proofs.FieldLookups
import FieldQuery.Proofs.ClosestLayers
import FieldQuery.Proofs.DiscoveredFiles
import FieldQuery.Proofs.OperandCounts
import FieldQuery.Proofs.GluedQueries
import FieldQuery.Proofs.LiteralTyping
import FieldQuery.Proofs.PredicateTexts
import FieldQuery.Proofs.ReaderCalls
import FieldQuery.Proofs.NestingCounter
import FieldQuery.Proofs.ErrorFragments
import FieldQuery.Proofs.CaretLines
import FieldQuery.Proofs.OutlineLines
