import CodeGraph.Main
import CodeGraph.Proofs.Graph.Nodes
import CodeGraph.Proofs.Graph.Edges
import CodeGraph.Proofs.Graph.History
import CodeGraph.Proofs.Graph.Document
import CodeGraph.Proofs.Reference.Walk
import CodeGraph.Proofs.Index.References
import CodeGraph.Proofs.Index.Occurrences
import CodeGraph.Proofs.Files.Paths
import CodeGraph.Proofs.Graph.Symbols
import CodeGraph.Proofs.Index.Listing
import CodeGraph.Proofs.Reference.Cache
import CodeGraph.Proofs.Index.FileOrder
import CodeGraph.Proofs.Graph.Levels
import CodeGraph.Proofs.Graph.PathSearch
import CodeGraph.Proofs.Graph.DistanceSearch
import CodeGraph.Proofs.Graph.Traversals
import CodeGraph.Proofs.Graph.Exploration
import CodeGraph.Proofs.Graph.Components
import CodeGraph.Proofs.Graph.Condensation
import CodeGraph.Proofs.Subgraph.Order
import CodeGraph.Proofs.Reference.Sharing
import CodeGraph.Proofs.Community.Partition
import CodeGraph.Proofs.Community.Numbering
import CodeGraph.Proofs.Community.Weights
import CodeGraph.Proofs.Community.Arrangement
import CodeGraph.Proofs.Community.Links
import CodeGraph.Proofs.Community.Contraction
import CodeGraph.Proofs.Community.Tracking
import CodeGraph.Proofs.Community.Gain
import CodeGraph.Proofs.Community.Ascent
import CodeGraph.Proofs.Graph.Paths
import CodeGraph.Proofs.Index.Report
import CodeGraph.Proofs.Files.Trees
import CodeGraph.Proofs.Files.Writing
import CodeGraph.Proofs.Index.Saved
import CodeGraph.Proofs.Syntax.Grammatical
import CodeGraph.Proofs.Syntax.Tokens
import CodeGraph.Proofs.Syntax.Rules
import CodeGraph.Proofs.Syntax.Expressions
import CodeGraph.Proofs.Syntax.DottedNames
import CodeGraph.Proofs.Syntax.Parse
import CodeGraph.Proofs.Names.Imports
import CodeGraph.Proofs.Reference.Sites
import CodeGraph.Proofs.Chunk.Calls
import CodeGraph.Proofs.Graph.Distances
import CodeGraph.Proofs.Graph.Neighborhoods
import CodeGraph.Proofs.Community.Ties
import CodeGraph.Proofs.Subgraph.Boundary
import CodeGraph.Proofs.Community.Connected
import CodeGraph.Proofs.Reference.Arrival
import CodeGraph.Proofs.Reference.SelfCalls
import CodeGraph.Proofs.Names.Outline
import CodeGraph.Proofs.Reference.PlainNames
import CodeGraph.Proofs.Community.Cliques
import CodeGraph.Proofs.Community.TwoCliques
import CodeGraph.Proofs.Reference.Attributes
import CodeGraph.Proofs.Reference.Constructions
import CodeGraph.Proofs.Reference.Headers
import CodeGraph.Proofs.Reference.SuperCalls
import CodeGraph.Proofs.Syntax.Placement
import CodeGraph.Proofs.Chunk.Layout
import CodeGraph.Proofs.Chunk.Outdent
import CodeGraph.Proofs.Reference.ImportedPaths
import CodeGraph.Proofs.Reference.Lines
import CodeGraph.Proofs.Names.Respacing
import CodeGraph.Proofs.Chunk.Copies
import CodeGraph.Proofs.Reference.Copies
import CodeGraph.Proofs.Reference.MethodChunks
import CodeGraph.Proofs.Text.Pieces
import CodeGraph.Proofs.Chunk.Ids
import CodeGraph.Proofs.TypeHint.Scanning
import CodeGraph.Proofs.TypeHint.Grammar
import CodeGraph.Proofs.TypeHint.Reading
import CodeGraph.Proofs.TypeHint.ClassNames
import CodeGraph.Proofs.Graph.Resolution
import CodeGraph.Proofs.Graph.Adjacency
import CodeGraph.Proofs.Graph.Checked
import CodeGraph.Proofs.Graph.Closeness
import CodeGraph.Proofs.Graph.ShortestPaths
import CodeGraph.Proofs.Graph.Accumulation
import CodeGraph.Proofs.Graph.PathTallies
import CodeGraph.Proofs.Graph.PathCounts
import CodeGraph.Proofs.Graph.Betweenness
import CodeGraph.Proofs.Files.Names
import CodeGraph.Proofs.Index.Places
import CodeGraph.Proofs.Index.Sources
import CodeGraph.Proofs.Community.Descent
import CodeGraph.Proofs.Graph.Ranks
