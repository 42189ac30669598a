import SearchQuery.Binary64
import SearchQuery.Binary64.Shortest
import SearchQuery.Datum
import SearchQuery.Datum.Record
import SearchQuery.Draft
import SearchQuery.Draft.Equivalence
import SearchQuery.Draft.Render
import SearchQuery.Draft.Slot
import SearchQuery.Draft.Step
import SearchQuery.DraftError
import SearchQuery.Grouping
import SearchQuery.Json
import SearchQuery.Json.Layout
import SearchQuery.Json.Literal
import SearchQuery.Keyed
import SearchQuery.Numeral
import SearchQuery.Proofs.Accumulation
import SearchQuery.Proofs.Additions
import SearchQuery.Proofs.Alike
import SearchQuery.Proofs.Assembly
import SearchQuery.Proofs.ClauseBody
import SearchQuery.Proofs.Commenting
import SearchQuery.Proofs.Conflict
import SearchQuery.Proofs.Contexts
import SearchQuery.Proofs.Decimals
import SearchQuery.Proofs.Declaration
import SearchQuery.Proofs.Drafting
import SearchQuery.Proofs.Entries
import SearchQuery.Proofs.Failure
import SearchQuery.Proofs.Inert
import SearchQuery.Proofs.JsonLayouts
import SearchQuery.Proofs.JsonReading
import SearchQuery.Proofs.JsonTokens
import SearchQuery.Proofs.Lasting
import SearchQuery.Proofs.Meaning
import SearchQuery.Proofs.Merging
import SearchQuery.Proofs.Nesting
import SearchQuery.Proofs.Notations
import SearchQuery.Proofs.NullValues
import SearchQuery.Proofs.Occurrence
import SearchQuery.Proofs.OneOrMany
import SearchQuery.Proofs.Outline
import SearchQuery.Proofs.Parts
import SearchQuery.Proofs.Placement
import SearchQuery.Proofs.RecordChanges
import SearchQuery.Proofs.RecordKeys
import SearchQuery.Proofs.Records
import SearchQuery.Proofs.Rerendering
import SearchQuery.Proofs.RootEntries
import SearchQuery.Proofs.Runs
import SearchQuery.Proofs.SameDrafts
import SearchQuery.Proofs.SameWriting
import SearchQuery.Proofs.SortSettings
import SearchQuery.Proofs.SpecReading
import SearchQuery.Proofs.Stages
import SearchQuery.Proofs.TextEdits
import SearchQuery.Proofs.Thresholds
import SearchQuery.Proofs.ToldApart
import SearchQuery.Proofs.TomlTables
import SearchQuery.Proofs.Tree
import SearchQuery.Proofs.Truth
import SearchQuery.Proofs.ValueData
import SearchQuery.Proofs.WellFormed
import SearchQuery.Proofs.Writing
import SearchQuery.SortOrder
import SearchQuery.Spec
import SearchQuery.Spec.Drafting
import SearchQuery.Spec.Example
import SearchQuery.Spec.File
import SearchQuery.Spec.KeySorted
import SearchQuery.Spec.OfDraft
import SearchQuery.Spec.Schema
import SearchQuery.Spec.Written
import SearchQuery.Toml.Blank
import SearchQuery.Toml.DateTime
import SearchQuery.Toml.Quoted
import SearchQuery.Toml.Scalar
import SearchQuery.Toml.Statement
import SearchQuery.Toml.Table
import SearchQuery.Toml.Written
import SearchQuery.Value
import SearchQuery.Value.Compact
import SearchQuery.Value.Equivalence
