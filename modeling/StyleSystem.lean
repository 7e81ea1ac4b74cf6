import StyleSystem.Entries
import StyleSystem.Number.Binary64
import StyleSystem.Number.Decimal
import StyleSystem.Number.Numeral
import StyleSystem.Property
import StyleSystem.Spec.Resolution
import StyleSystem.Spec.Summary
import StyleSystem.Style.Arrival
import StyleSystem.Style.Basic
import StyleSystem.Style.Compiled
import StyleSystem.Style.Normal
import StyleSystem.Style.Path
import StyleSystem.Style.Shorthand
import StyleSystem.Text.Basic
import StyleSystem.Text.Bytes
import StyleSystem.Theme.Basic
import StyleSystem.Theme.Config
import StyleSystem.Theme.Document
import StyleSystem.Theme.Order
import StyleSystem.Theme.Summary
import StyleSystem.Token
import StyleSystem.Value
import StyleSystem.Yaml.Key
import StyleSystem.Yaml.Node
import StyleSystem.Yaml.Place
import StyleSystem.Yaml.Scalar
import StyleSystem.Proofs.Absence
import StyleSystem.Proofs.BlockMappings
import StyleSystem.Proofs.BlockNames
import StyleSystem.Proofs.BlockOrder
import StyleSystem.Proofs.BlockTiers
import StyleSystem.Proofs.Compilation
import StyleSystem.Proofs.Configuration
import StyleSystem.Proofs.DeclarationOrder
import StyleSystem.Proofs.DeepMerge
import StyleSystem.Proofs.Documents
import StyleSystem.Proofs.EntryLines
import StyleSystem.Proofs.Expansion
import StyleSystem.Proofs.FlatStyles
import StyleSystem.Proofs.Leaves
import StyleSystem.Proofs.Level
import StyleSystem.Proofs.MergeByKey
import StyleSystem.Proofs.MergeLaws
import StyleSystem.Proofs.Nesting
import StyleSystem.Proofs.NormalForm
import StyleSystem.Proofs.Numerals
import StyleSystem.Proofs.Parts
import StyleSystem.Proofs.PlainWords
import StyleSystem.Proofs.Precedence
import StyleSystem.Proofs.Provenance
import StyleSystem.Proofs.Rounding
import StyleSystem.Proofs.ScalarValues
import StyleSystem.Proofs.Settings
import StyleSystem.Proofs.Spelling
import StyleSystem.Proofs.TierLayers
import StyleSystem.Proofs.TierOrder
import StyleSystem.Proofs.WholePixels
