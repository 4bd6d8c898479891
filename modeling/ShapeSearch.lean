import ShapeSearch.Text
import ShapeSearch.Tree
import ShapeSearch.Tree.Node
import ShapeSearch.Tree.Parts
import ShapeSearch.Literal
import ShapeSearch.Unicode.Classes
import ShapeSearch.Unicode.CaseFolding
import ShapeSearch.Regex.CharSet
import ShapeSearch.Regex
import ShapeSearch.Regex.Bracket
import ShapeSearch.Regex.Token
import ShapeSearch.Regex.Reading
import ShapeSearch.Template.Segment
import ShapeSearch.Template
import ShapeSearch.Json.Written
import ShapeSearch.Json.Reading
import ShapeSearch.Pattern
import ShapeSearch.Matching.Lists
import ShapeSearch.Matching.Wildcard
import ShapeSearch.Matching.Strategy
import ShapeSearch.Matching.Compare
import ShapeSearch.Search
import ShapeSearch.Tree.Forest
import ShapeSearch.CommandLine.Options
import ShapeSearch.CommandLine.Run
import ShapeSearch.Main
import ShapeSearch.Proofs.Attempt
import ShapeSearch.Proofs.Relation
import ShapeSearch.Proofs.Lists
import ShapeSearch.Proofs.Places
import ShapeSearch.Proofs.Descendants
import ShapeSearch.Proofs.Correspondence
import ShapeSearch.Proofs.Compilation
import ShapeSearch.Proofs.Bindings
import ShapeSearch.Proofs.Soundness
import ShapeSearch.Proofs.Preorder
import ShapeSearch.Proofs.RootAttributes
import ShapeSearch.Proofs.Agreement
import ShapeSearch.Proofs.Alternatives
import ShapeSearch.Proofs.Tightening
import ShapeSearch.Proofs.Choices
import ShapeSearch.Proofs.Independence
import ShapeSearch.Proofs.Pairing
import ShapeSearch.Proofs.MatchedNodes
import ShapeSearch.Proofs.Depth
import ShapeSearch.Proofs.Extras
import ShapeSearch.Proofs.Faults
import ShapeSearch.Proofs.Comments
import ShapeSearch.Proofs.Gaps
import ShapeSearch.Proofs.WellBound
import ShapeSearch.Proofs.Coverage
import ShapeSearch.Proofs.Exposed
import ShapeSearch.Proofs.SelfMatch
import ShapeSearch.Proofs.Wrapping
import ShapeSearch.Proofs.Slices
import ShapeSearch.Proofs.Hanging
import ShapeSearch.Proofs.Relocation
import ShapeSearch.Proofs.Repeating
import ShapeSearch.Proofs.Renaming
import ShapeSearch.Proofs.Echoes
import ShapeSearch.Proofs.Looks
import ShapeSearch.Proofs.Decorations
import ShapeSearch.Proofs.Erasure
import ShapeSearch.Proofs.Scanning
import ShapeSearch.Proofs.Numerals
import ShapeSearch.Proofs.Rendering
import ShapeSearch.Proofs.Respelling
import ShapeSearch.Proofs.Naming
import ShapeSearch.Proofs.Placeholders
import ShapeSearch.Proofs.Emission
import ShapeSearch.Proofs.Hygiene
import ShapeSearch.Proofs.Outcomes
import ShapeSearch.Proofs.Arguments
import ShapeSearch.Proofs.Runs
import ShapeSearch.Proofs.Segmentation
import ShapeSearch.Proofs.Distribution
import ShapeSearch.Proofs.Commuting
import ShapeSearch.Proofs.Interchange
import ShapeSearch.Proofs.Unordered
import ShapeSearch.Proofs.Settling
import ShapeSearch.Proofs.Brackets
import ShapeSearch.Proofs.Lexing
import ShapeSearch.Proofs.Grouping
import ShapeSearch.Proofs.Matches
import ShapeSearch.Proofs.Counts
import ShapeSearch.Proofs.Anchoring
import ShapeSearch.Proofs.Progress
import ShapeSearch.Proofs.Trials
import ShapeSearch.Proofs.Counted
import ShapeSearch.Proofs.AttributeRuns
import ShapeSearch.Proofs.Spellings
import ShapeSearch.Proofs.LiteralValues
import ShapeSearch.Proofs.IntegerSpellings
import ShapeSearch.Proofs.TextSpellings
import ShapeSearch.Proofs.JsonRoundTrip
import ShapeSearch.Proofs.RecordLines
import ShapeSearch.Proofs.Scanned
import ShapeSearch.Proofs.Merging
import ShapeSearch.Proofs.Regrouping
import ShapeSearch.Proofs.Handlers
import ShapeSearch.Proofs.Lookups
