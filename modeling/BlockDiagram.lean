import BlockDiagram.CommandLine.Folder
import BlockDiagram.Main
import BlockDiagram.Proofs.Except
import BlockDiagram.Proofs.Grammar.Derivation
import BlockDiagram.Proofs.Grammar.Validity
import BlockDiagram.Proofs.Parser.Completeness
import BlockDiagram.Proofs.Grammar.Gathering
import BlockDiagram.Proofs.Parser.Soundness
import BlockDiagram.Proofs.Lexer.Matching
import BlockDiagram.Proofs.Lexer.Greedy
import BlockDiagram.Proofs.Lexer.Rules
import BlockDiagram.Proofs.Lexer.Longest
import BlockDiagram.Proofs.Lexer.Origin
import BlockDiagram.Proofs.Lexer.Pieces
import BlockDiagram.Proofs.Lexer.Modes
import BlockDiagram.Proofs.Grammar.Numbers
import BlockDiagram.Proofs.Grammar.Evaluation
import BlockDiagram.Proofs.Parser.Statements
import BlockDiagram.Proofs.Parser.Leftmost
import BlockDiagram.Proofs.Parser.Endings
import BlockDiagram.Proofs.Parser.Names
import BlockDiagram.Proofs.Grammar.Parts
import BlockDiagram.Proofs.Document.Blocks
import BlockDiagram.Proofs.Document.Building
import BlockDiagram.Proofs.Document.Mentions
import BlockDiagram.Proofs.Document.Performing
import BlockDiagram.Proofs.Document.Tree
import BlockDiagram.Proofs.Document.Walk
import BlockDiagram.Proofs.Document.Acyclic
import BlockDiagram.Proofs.Document.Parsed
import BlockDiagram.Proofs.Document.Nesting
import BlockDiagram.Proofs.Document.Carrying
import BlockDiagram.Proofs.Document.Labels
import BlockDiagram.Proofs.Document.Freshness
import BlockDiagram.Proofs.Layout.Grid
import BlockDiagram.Proofs.Layout.Sizing
import BlockDiagram.Proofs.Layout.Placement
import BlockDiagram.Proofs.Layout.Exact
import BlockDiagram.Proofs.Layout.Separation
import BlockDiagram.Proofs.Diagram
import BlockDiagram.Proofs.Grammar.Grounding
import BlockDiagram.Proofs.Grammar.Beginnings
import BlockDiagram.Proofs.Grammar.Followers
import BlockDiagram.Proofs.Grammar.Faults
import BlockDiagram.Proofs.Parser.Stacks
import BlockDiagram.Proofs.Parser.Prefixes
import BlockDiagram.Proofs.Parser.Expected
import BlockDiagram.Proofs.Document.Program
import BlockDiagram.Proofs.Document.Limit
import BlockDiagram.Proofs.Document.Appending
import BlockDiagram.Proofs.Document.Placeholders
import BlockDiagram.Proofs.Document.Revisions
import BlockDiagram.Proofs.Document.Replaying
import BlockDiagram.Proofs.Layout.Cells
import BlockDiagram.Proofs.Layout.Spacers
import BlockDiagram.Proofs.Shape.Outline
import BlockDiagram.Proofs.Svg.Cylinder
import BlockDiagram.Proofs.Shape.Crossing
import BlockDiagram.Proofs.Parser.Termination
import BlockDiagram.Proofs.Parser.OnDemand
import BlockDiagram.Proofs.Parser.Places
import BlockDiagram.Proofs.Document.Invariants
import BlockDiagram.Proofs.Document.Diagnostics
import BlockDiagram.Proofs.Document.Connecting
import BlockDiagram.Proofs.Svg.Identifiers
import BlockDiagram.Proofs.Layout.Rows
import BlockDiagram.Proofs.Layout.Packing
import BlockDiagram.Proofs.Layout.Gaps
import BlockDiagram.Proofs.Layout.Growth
import BlockDiagram.Proofs.Layout.Columns
import BlockDiagram.Proofs.Shape.Sides
import BlockDiagram.Proofs.Shape.Border
import BlockDiagram.Proofs.Document.Edges
import BlockDiagram.Proofs.Parser.Chains
import BlockDiagram.Proofs.Document.Directions
import BlockDiagram.Proofs.Text.Cutting
import BlockDiagram.Proofs.Lexer.Links
import BlockDiagram.Proofs.Parser.Phrases
import BlockDiagram.Proofs.Parser.Readings
import BlockDiagram.Proofs.Parser.Nesting
import BlockDiagram.Proofs.Document.Endpoints
import BlockDiagram.Proofs.Document.Declarations
import BlockDiagram.Proofs.Source.Position
import BlockDiagram.Proofs.Source.Excerpt
import BlockDiagram.Proofs.Svg.Markers
import BlockDiagram.Proofs.Svg.Frame
import BlockDiagram.Proofs.Lexer.Depth
import BlockDiagram.Proofs.Document.Numbering
import BlockDiagram.Proofs.Document.Preorder
