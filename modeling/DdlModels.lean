import DdlModels.Main
import DdlModels.Files.Memory
import DdlModels.Proofs.DraftWalk
import DdlModels.Proofs.TreeReading
import DdlModels.Proofs.Lookahead
import DdlModels.Proofs.Longer
import DdlModels.Proofs.Layout
import DdlModels.Proofs.Quoting
import DdlModels.Proofs.Written
import DdlModels.Proofs.WrittenValues
import DdlModels.Proofs.WrittenColumns
import DdlModels.Proofs.WrittenTables
import DdlModels.Proofs.Separated
import DdlModels.Proofs.Blanks
import DdlModels.Proofs.ColumnEnds
import DdlModels.Proofs.Continued
import DdlModels.Proofs.Composition
import DdlModels.Proofs.Stopping
import DdlModels.Proofs.Comments
import DdlModels.Proofs.Stripped
import DdlModels.Proofs.Undisturbed
import DdlModels.Proofs.CaseBlind
import DdlModels.Proofs.Recased
import DdlModels.Proofs.Faults
import DdlModels.Proofs.Occurrences
import DdlModels.Proofs.GoLines
import DdlModels.Proofs.PassedOver
import DdlModels.Proofs.LeadingComments
import DdlModels.Proofs.Identifiers
import DdlModels.Proofs.QualifiedNames
import DdlModels.Proofs.WordSearch
import DdlModels.Proofs.SpreadTypes
import DdlModels.Proofs.ColumnPlaces
import DdlModels.Proofs.SpreadColumns
import DdlModels.Proofs.WalkOrder
import DdlModels.Proofs.LineEndings
import DdlModels.Proofs.WindowsLines
import DdlModels.Proofs.WordDefaults
import DdlModels.Proofs.RuleOrder
import DdlModels.Proofs.QuotedNames
import DdlModels.Proofs.Listings
import DdlModels.Proofs.InsertedAttributes
import DdlModels.Proofs.RecoveredPackages
import DdlModels.Proofs.AllOrNothing
import DdlModels.Proofs.OnePass
import DdlModels.Proofs.Progress
