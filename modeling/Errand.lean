import Errand.Text.Basic
import Errand.Text.Case
import Errand.Text.Alphabet
import Errand.Text.Display
import Errand.Number.Double
import Errand.Number.Shortest
import Errand.Number.Numeral
import Errand.Value
import Errand.Entity.Kind
import Errand.Text.Reader
import Errand.Text.Bracket
import Errand.Where.Token
import Errand.Where.Clause
import Errand.Where.Meaning
import Errand.Entity.Record
import Errand.Entity.Store
import Errand.Entity.Loading
import Errand.Yaml.Cursor
import Errand.Yaml.Scalar
import Errand.Yaml.Token
import Errand.Yaml.Data
import Errand.Files.Path
import Errand.Files.Disk
import Errand.Bundled
import Errand.Entity.Source
import Errand.Random.Source
import Errand.Random.Twister
import Errand.Random.Seeded
import Errand.Grammar.Rule
import Errand.Log
import Errand.Grammar.Expansion
import Errand.Grammar.Sentence
import Errand.Grammar.Stack
import Errand.Grammar.Directive
import Errand.Grammar.Folder
import Errand.Wildcard.Marker
import Errand.Wildcard.Group
import Errand.Task.Basic
import Errand.Task.Pool
import Errand.Task.Resolver
import Errand.Fault
import Errand.Node
import Errand.Bytes
import Errand.Calendar
import Errand.Proofs.Run
import Errand.Proofs.Text.Balance
import Errand.Proofs.Text.Decimal
import Errand.Proofs.Text.Readers
import Errand.Proofs.Text.Runs
import Errand.Proofs.Text.Trimming
import Errand.Proofs.Text.Numerals
import Errand.Proofs.Text.Lines
import Errand.Proofs.Random.Script
import Errand.Proofs.Random.Tally
import Errand.Proofs.Random.Shuffle
import Errand.Proofs.Number.Rounding
import Errand.Proofs.Where.Conjunction
import Errand.Proofs.Where.Tokens
import Errand.Proofs.Where.Chains
import Errand.Proofs.Where.Rereading
import Errand.Proofs.Where.Folding
import Errand.Proofs.Where.Locality
import Errand.Proofs.Where.Spacing
import Errand.Proofs.Where.Shapes
import Errand.Proofs.Where.Comparing
import Errand.Proofs.Files.Paths
import Errand.Proofs.Entity.Names
import Errand.Proofs.Entity.Shown
import Errand.Proofs.Entity.Records
import Errand.Proofs.Entity.Integrity
import Errand.Proofs.Entity.Loaded
import Errand.Proofs.Entity.Legible
import Errand.Proofs.Entity.Reporting
import Errand.Proofs.Entity.Merging
import Errand.Proofs.Entity.Replaying
import Errand.Proofs.Entity.Reloading
import Errand.Proofs.Grammar.Names
import Errand.Proofs.Grammar.Merging
import Errand.Proofs.Grammar.Inclusions
import Errand.Proofs.Grammar.Folders
import Errand.Proofs.Grammar.Language
import Errand.Proofs.Grammar.Drawing
import Errand.Proofs.Grammar.Stacking
import Errand.Proofs.Grammar.Splicing
import Errand.Proofs.Grammar.Reading
import Errand.Proofs.Grammar.Preservation
import Errand.Proofs.Grammar.Settling
import Errand.Proofs.Text.Splitting
import Errand.Proofs.Grammar.Segments
import Errand.Proofs.Grammar.Alternatives
import Errand.Proofs.Grammar.Lines
import Errand.Proofs.Grammar.Comments
import Errand.Proofs.Grammar.Escaping
import Errand.Proofs.Wildcard.Grouping
import Errand.Proofs.Wildcard.References
import Errand.Proofs.Wildcard.Keycodes
import Errand.Proofs.Wildcard.Plain
import Errand.Proofs.Wildcard.Numbering
import Errand.Proofs.Wildcard.Identity
import Errand.Proofs.Wildcard.Clauses
import Errand.Proofs.Wildcard.Printing
import Errand.Proofs.Wildcard.Nesting
import Errand.Proofs.Wildcard.Notices
import Errand.Proofs.Grammar.Placeholders
import Errand.Proofs.Grammar.Mounting
import Errand.Proofs.Wildcard.Refusing
import Errand.Proofs.Wildcard.Spans
import Errand.Proofs.Wildcard.Numerals
import Errand.Proofs.Wildcard.Locality
import Errand.Proofs.Wildcard.Insertion
import Errand.Proofs.Wildcard.Naming
import Errand.Proofs.Wildcard.Covering
import Errand.Proofs.Wildcard.Replacing
import Errand.Proofs.Where.Quoting
import Errand.Proofs.Where.Filling
import Errand.Proofs.Where.Testing
import Errand.Proofs.Task.Taking
import Errand.Proofs.Task.Binding
import Errand.Proofs.Task.History
import Errand.Proofs.Task.Constraints
import Errand.Proofs.Task.Conservation
import Errand.Proofs.Task.Dependence
import Errand.Proofs.Task.Numbers
import Errand.Proofs.Task.Relations
import Errand.Proofs.Task.Weaving
import Errand.Proofs.Task.Pronouns
import Errand.Proofs.Task.StandIns
import Errand.Proofs.Task.Failing
import Errand.Proofs.Task.Requests
import Errand.Proofs.Task.Hiding
import Errand.Proofs.Task.Ceiling
import Errand.Proofs.Task.Candidates
import Errand.Proofs.Task.Substitution
import Errand.Proofs.Task.Tidying
