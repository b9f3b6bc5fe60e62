import Schemata.Proofs.Inflection.Restored
import Schemata.Proofs.Literals
import Schemata.Proofs.Relation.Lines
import Schemata.Proofs.Resolution.Endings
import Schemata.Proofs.Resolved.Additions
import Schemata.Proofs.Resolved.Arguments
import Schemata.Proofs.Resolved.Attributes
import Schemata.Proofs.Resolved.ClassNames
import Schemata.Proofs.Resolved.Columns
import Schemata.Proofs.Resolved.Completion
import Schemata.Proofs.Resolved.Declarations
import Schemata.Proofs.Resolved.Descriptors
import Schemata.Proofs.Resolved.Factories
import Schemata.Proofs.Resolved.Guesses
import Schemata.Proofs.Resolved.Intermediates
import Schemata.Proofs.Resolved.Inverses
import Schemata.Proofs.Resolved.KeyBuilders
import Schemata.Proofs.Resolved.KeyColumns
import Schemata.Proofs.Resolved.MorphNames
import Schemata.Proofs.Resolved.Normalized
import Schemata.Proofs.Resolved.Orders
import Schemata.Proofs.Resolved.Parents
import Schemata.Proofs.Resolved.PivotKeys
import Schemata.Proofs.Resolved.PivotTables
import Schemata.Proofs.Resolved.PluralNames
import Schemata.Proofs.Resolved.Pointers
import Schemata.Proofs.Resolved.Qualifiers
import Schemata.Proofs.Resolved.QuickKeys
import Schemata.Proofs.Resolved.QuickModels
import Schemata.Proofs.Resolved.Reciprocal
import Schemata.Proofs.Resolved.References
import Schemata.Proofs.Resolved.Reorderings
import Schemata.Proofs.Resolved.Secrets
import Schemata.Proofs.Resolved.SnakeCase
import Schemata.Proofs.Resolved.TableForms
import Schemata.Proofs.Resolved.Tables
import Schemata.Proofs.Settings.Sources
import Schemata.Proofs.Shorthand.Separators
import Schemata.Proofs.Shorthand.Spelling
import Schemata.Proofs.Slots.History
import Schemata.Proofs.Table.Lines
import Schemata.Proofs.Table.PhysicalNames
import Schemata.Resolved.Call
import Schemata.Resolved.Reading
import Schemata.Resolved.Writing
