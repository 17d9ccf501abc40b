import LearningStore.Main
import LearningStore.Files.Tree
import LearningStore.Proofs.Schema.Checked
import LearningStore.Proofs.Schema.Identifier
import LearningStore.Proofs.Schema.Soundness
import LearningStore.Proofs.Schema.Reading
import LearningStore.Proofs.Schema.Merging
import LearningStore.Proofs.Schema.Registry
import LearningStore.Proofs.Compile.Generation
import LearningStore.Proofs.Script.Creation
import LearningStore.Proofs.Script.Passages
import LearningStore.Proofs.Script.Tables
import LearningStore.Proofs.Script.Recording
import LearningStore.Proofs.Xml.Tag
import LearningStore.Proofs.Xml.Content
import LearningStore.Proofs.Script.Records
import LearningStore.Proofs.Script.Evaluation
import LearningStore.Proofs.Script.Assembly
import LearningStore.Proofs.Script.StoredSchema
import LearningStore.Proofs.Script.Change
import LearningStore.Proofs.Script.Database
import LearningStore.Proofs.Script.Guarding
import LearningStore.Proofs.Script.StoredNames
import LearningStore.Proofs.Script.Upgrading
import LearningStore.Proofs.Script.Evolution
import LearningStore.Proofs.Schema.Derivation
import LearningStore.Proofs.Helper.Outline
import LearningStore.Proofs.Helper.References
import LearningStore.Proofs.Script.ObjectNames
import LearningStore.Proofs.Script.KeyNames
import LearningStore.Proofs.Script.ColumnNames
import LearningStore.Proofs.Script.ParameterNames
import LearningStore.Proofs.Schema.Growth
import LearningStore.Proofs.Schema.Splitting
import LearningStore.Proofs.Schema.Demands
import LearningStore.Proofs.Schema.Sifting
import LearningStore.Proofs.Schema.ReferenceMerge
import LearningStore.Proofs.Helper.MemberNames
import LearningStore.Proofs.Text.SourceLines
import LearningStore.Proofs.Value.OneLine
import LearningStore.Proofs.Helper.CommentLines
import LearningStore.Proofs.Helper.CommentTexts
import LearningStore.Proofs.Schema.Entries
import LearningStore.Proofs.Files.Writing
import LearningStore.Proofs.Compile.Endings
import LearningStore.Proofs.Compile.Outputs
import LearningStore.Proofs.Compile.Independence
import LearningStore.Proofs.Script.Capacity
import LearningStore.Proofs.Script.CommandLength
import LearningStore.Proofs.Script.TableAgreement
import LearningStore.Proofs.Script.EnumRows
import LearningStore.Proofs.Value.Constant
import LearningStore.Proofs.Script.ParameterDefaults
import LearningStore.Proofs.Script.Batches
import LearningStore.Proofs.Value.ReadBack
import LearningStore.Proofs.Value.Instant
import LearningStore.Proofs.Value.LexicalSpace
import LearningStore.Proofs.Schema.CapturedMarkup
import LearningStore.Proofs.Text.Literals
import LearningStore.Proofs.Script.FragmentTails
import LearningStore.Proofs.Schema.MissedFlaws
import LearningStore.Proofs.Helper.WellFormedComments
import LearningStore.Proofs.Compile.Decoding
import LearningStore.Proofs.Script.FilledScripts
import LearningStore.Proofs.Script.NameWidths
import LearningStore.Proofs.Script.PrefixedScripts
import LearningStore.Proofs.Text.StringLiterals
import LearningStore.Proofs.Text.TrimmedLines
import LearningStore.Proofs.CommandLine.RoundTrip
import LearningStore.Proofs.CommandLine.Diagnostics
import LearningStore.Proofs.Script.FiringGuards
