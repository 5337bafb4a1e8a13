import ApiContract.Main
import ApiContract.Proofs.Catalog
import ApiContract.Proofs.Pipeline
import ApiContract.Proofs.ReferenceCycle
import ApiContract.Proofs.Declarations
import ApiContract.Proofs.Modifiers
import ApiContract.Proofs.Acceptance
import ApiContract.Proofs.TypeAlias
import ApiContract.Proofs.References
import ApiContract.Proofs.BareReferences
import ApiContract.Proofs.CatalogFaults
import ApiContract.Proofs.DeclarationNames
import ApiContract.Proofs.Operations
import ApiContract.Proofs.DerivedNames
import ApiContract.Proofs.ModuleDeclarations
import ApiContract.Proofs.Identifiers
import ApiContract.Proofs.SchemaMisfits
import ApiContract.Proofs.DocumentMisfits
import ApiContract.Proofs.SchemaSource
import ApiContract.Proofs.DocumentSource
import ApiContract.Proofs.ObjectProperties
import ApiContract.Proofs.WellFormed
import ApiContract.Proofs.Rendering
import ApiContract.Proofs.CatalogSound
import ApiContract.Proofs.Layout
import ApiContract.Proofs.Comments
import ApiContract.Proofs.Drafts
import ApiContract.Proofs.Summaries
import ApiContract.Proofs.Undocumented
import ApiContract.Proofs.Printing
import ApiContract.Proofs.Imports
import ApiContract.Proofs.DeclaredLines
import ApiContract.Proofs.Inertness
import ApiContract.Proofs.Run
import ApiContract.Proofs.Agreement
import ApiContract.Proofs.ReadingAgreement
import ApiContract.Proofs.Reordering
import ApiContract.Proofs.ReorderedDocument
import ApiContract.Proofs.OrderIndependence
import ApiContract.Proofs.Replacement
import ApiContract.Proofs.ReferenceTransparency
import ApiContract.Proofs.MergedParameters
import ApiContract.Proofs.ParameterObject
import ApiContract.Proofs.StringLiterals
import ApiContract.Proofs.JsonReading
import ApiContract.Proofs.DefaultTexts
import ApiContract.Proofs.FormattedLines
import ApiContract.Proofs.Reindentation
import ApiContract.Proofs.SchemaVisits
import ApiContract.Proofs.UniqueReading
import ApiContract.Proofs.Extensions
import ApiContract.Proofs.ExtendedEntries
import ApiContract.Proofs.ExtendedDocument
import ApiContract.Proofs.Pointers
import ApiContract.Proofs.StageBrackets
import ApiContract.Proofs.DefaultLeaves
import ApiContract.Proofs.NameCollisions
