import Mamuth.Main
import Mamuth.Proofs.Tiling
import Mamuth.Proofs.Layout
import Mamuth.Proofs.Checking
import Mamuth.Proofs.NestedScopes
import Mamuth.Proofs.Derivation
import Mamuth.Proofs.Lookahead
import Mamuth.Proofs.Reading
import Mamuth.Proofs.Productions
import Mamuth.Proofs.WordLines
import Mamuth.Proofs.Printing
import Mamuth.Proofs.Places
import Mamuth.Proofs.Scoping
import Mamuth.Proofs.LookUps
import Mamuth.Proofs.ScopeStack
import Mamuth.Proofs.Patterns
import Mamuth.Proofs.ReadAhead
import Mamuth.Proofs.ViablePrefixes
import Mamuth.Proofs.TypeRules
import Mamuth.Proofs.KnownTypes
import Mamuth.Proofs.Untyped
import Mamuth.Proofs.Soundness
import Mamuth.Proofs.TwoRuns
import Mamuth.Proofs.Decorations
import Mamuth.Proofs.Rechecking
import Mamuth.Proofs.Failures
import Mamuth.Proofs.Operands
import Mamuth.Proofs.Lines
import Mamuth.Proofs.ByteOffsets
import Mamuth.Proofs.Cursor
import Mamuth.Proofs.Safety
import Mamuth.Proofs.Messages
import Mamuth.Proofs.Origins
import Mamuth.Proofs.Diagnostics
import Mamuth.Proofs.TokenYield
import Mamuth.Proofs.Gaps
import Mamuth.Proofs.JoinedLines
import Mamuth.Proofs.Relabelling
import Mamuth.Proofs.MovedTokens
import Mamuth.Proofs.SameWords
import Mamuth.Proofs.Renaming
import Mamuth.Proofs.Globals
import Mamuth.Proofs.BlockTrace
import Mamuth.Proofs.RunLog
import Mamuth.Proofs.StrictTests
import Mamuth.Proofs.Numbering
import Mamuth.Proofs.Respacing
import Mamuth.Proofs.Ways
import Mamuth.Proofs.Unfinished
import Mamuth.Proofs.Bystanders
import Mamuth.Proofs.Replacing
import Mamuth.Proofs.ErrorIndex
import Mamuth.Proofs.EntryPoints
import Mamuth.Proofs.Delimiters
import Mamuth.Proofs.Outlines
import Mamuth.Proofs.Unused
import Mamuth.Proofs.Listings
import Mamuth.Proofs.Trailers
import Mamuth.Proofs.GluedWords
import Mamuth.Proofs.ScopeDiscipline
import Mamuth.Proofs.Descent
import Mamuth.Proofs.Progress
import Mamuth.Proofs.InPlace
import Mamuth.Proofs.Mirror
