import GraphQuery.Compile.Compiled
import GraphQuery.Proofs.Binding
import GraphQuery.Proofs.ClientPaging
import GraphQuery.Proofs.CompileErrors
import GraphQuery.Proofs.Conditions
import GraphQuery.Proofs.Demands
import GraphQuery.Proofs.Layout
import GraphQuery.Proofs.Nodes
import GraphQuery.Proofs.OperatorTrees
import GraphQuery.Proofs.OutputNames
import GraphQuery.Proofs.Paging
import GraphQuery.Proofs.Payloads
import GraphQuery.Proofs.Placeholders
import GraphQuery.Proofs.Promotions
import GraphQuery.Proofs.RenamedQueries
import GraphQuery.Proofs.Rows
import GraphQuery.Proofs.Runs
import GraphQuery.Proofs.Scoping
import GraphQuery.Proofs.ServerExpr
import GraphQuery.Proofs.ServerRead
import GraphQuery.Proofs.Vocabulary
import GraphQuery.Settings.Document
import GraphQuery.Proofs.CheckedReads
import GraphQuery.Proofs.FailedLowering
import GraphQuery.Proofs.InitialScope
import GraphQuery.Proofs.ComparedTypes
import GraphQuery.Proofs.Tuples
import GraphQuery.Proofs.StructuralEquality
import GraphQuery.Proofs.ReturnItems
import GraphQuery.Proofs.ReturnedEntity
import GraphQuery.Proofs.PredicateTexts
import GraphQuery.Proofs.SourceFaults
import GraphQuery.Proofs.Modes
import GraphQuery.Proofs.Orderings
import GraphQuery.Proofs.SelectedItems
import GraphQuery.Proofs.Lines
import GraphQuery.Proofs.Directions
import GraphQuery.Proofs.NameSearch
import GraphQuery.Proofs.ReturnedValues
import GraphQuery.Proofs.TupleValues
import GraphQuery.Proofs.NullGuards
import GraphQuery.Proofs.PatternTexts
import GraphQuery.Proofs.QuotedTexts
import GraphQuery.Proofs.KeyComparisons
import GraphQuery.Proofs.WrittenExprs
import GraphQuery.Proofs.ConstantLiterals
import GraphQuery.Proofs.Conversions
import GraphQuery.Proofs.NumberedConstants
import GraphQuery.Proofs.LayoutSettings
import GraphQuery.Proofs.LineTexts
import GraphQuery.Proofs.Indentation
import GraphQuery.Proofs.StepwiseWriting
