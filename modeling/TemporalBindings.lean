import TemporalBindings.Main
import TemporalBindings.Proofs.Hygiene
import TemporalBindings.Proofs.References
import TemporalBindings.Proofs.ImportBlock
import TemporalBindings.Proofs.Interface
import TemporalBindings.Proofs.CodeLines
import TemporalBindings.Proofs.Tokens
import TemporalBindings.Proofs.BareLines
import TemporalBindings.Proofs.Comments
import TemporalBindings.Proofs.Results
import TemporalBindings.Proofs.Selection
import TemporalBindings.Proofs.FileNames
import TemporalBindings.Proofs.PackageClause
import TemporalBindings.Proofs.Settings
import TemporalBindings.Proofs.Projection
import TemporalBindings.Proofs.FirstFault
import TemporalBindings.Proofs.Roles
import TemporalBindings.Proofs.Marked
import TemporalBindings.Proofs.Clashes
import TemporalBindings.Proofs.Serialized
import TemporalBindings.Proofs.Durations
import TemporalBindings.Proofs.Operations
import TemporalBindings.Proofs.Aliases
import TemporalBindings.Proofs.NormalForm
import TemporalBindings.Proofs.Quotes
import TemporalBindings.Proofs.Words
import TemporalBindings.Proofs.Brackets
import TemporalBindings.Proofs.Laid
import TemporalBindings.Proofs.Indentation
import TemporalBindings.Proofs.FloatTexts
import TemporalBindings.Proofs.OptionsLiteral
import TemporalBindings.Proofs.Independence
import TemporalBindings.Proofs.OptionFaults
import TemporalBindings.Proofs.ParameterText
import TemporalBindings.Proofs.PackageNames
import TemporalBindings.Proofs.Mirrored
import TemporalBindings.Proofs.Attached
import TemporalBindings.Proofs.MessageNames
