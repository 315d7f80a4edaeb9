import DirectoryQuery.Assertion
import DirectoryQuery.Command.Run
import DirectoryQuery.Cursor.Operand
import DirectoryQuery.Evaluator.Basic
import DirectoryQuery.Filter.Json
import DirectoryQuery.Log.Line
import DirectoryQuery.Main
import DirectoryQuery.Schema.Core
import DirectoryQuery.Search.Basic
import DirectoryQuery.Store.Basic
import DirectoryQuery.Proofs.Histories
import DirectoryQuery.Proofs.Normalization
import DirectoryQuery.Proofs.Parity
import DirectoryQuery.Proofs.Union
import DirectoryQuery.Proofs.Refinement
import DirectoryQuery.Proofs.Emissions
import DirectoryQuery.Proofs.Endings
import DirectoryQuery.Proofs.Estimates
import DirectoryQuery.Proofs.Intersections
import DirectoryQuery.Proofs.Lookups
import DirectoryQuery.Proofs.Mirrors
import DirectoryQuery.Proofs.Orders
import DirectoryQuery.Proofs.Answers
import DirectoryQuery.Proofs.Thrift
import DirectoryQuery.Proofs.References
import DirectoryQuery.Proofs.Spellings
import DirectoryQuery.Proofs.Reports
import DirectoryQuery.Proofs.Wildcards
import DirectoryQuery.Proofs.LeastKeys
import DirectoryQuery.Proofs.Tokens
import DirectoryQuery.Proofs.Renderings
import DirectoryQuery.Proofs.Encodings
import DirectoryQuery.Proofs.Squeezing
import DirectoryQuery.Proofs.Casing
import DirectoryQuery.Proofs.Fragments
import DirectoryQuery.Proofs.Postings
import DirectoryQuery.Proofs.ExactKeys
import DirectoryQuery.Proofs.Failures
import DirectoryQuery.Proofs.Descendants
import DirectoryQuery.Proofs.Lineages
import DirectoryQuery.Proofs.Superiors
import DirectoryQuery.Proofs.Rearrangements
import DirectoryQuery.Proofs.Names
import DirectoryQuery.Proofs.Comparators
import DirectoryQuery.Proofs.Integers
import DirectoryQuery.Proofs.Standstill
import DirectoryQuery.Proofs.Provenance
import DirectoryQuery.Proofs.NormalForms
import DirectoryQuery.Proofs.Transcripts
import DirectoryQuery.Proofs.Accounts
import DirectoryQuery.Proofs.Observations
import DirectoryQuery.Proofs.LogLines
import DirectoryQuery.Proofs.Offsets
import DirectoryQuery.Proofs.CodePoints
