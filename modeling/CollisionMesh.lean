import CollisionMesh.AreaMap
import CollisionMesh.Command
import CollisionMesh.Document
import CollisionMesh.Editor
import CollisionMesh.Editor.Recorder
import CollisionMesh.Editor.Scene
import CollisionMesh.Error
import CollisionMesh.Files
import CollisionMesh.Files.Json
import CollisionMesh.Files.Tree
import CollisionMesh.Geometry.Point
import CollisionMesh.Geometry.Scalar
import CollisionMesh.Main
import CollisionMesh.Mesh
import CollisionMesh.Mesh.Crease
import CollisionMesh.Mesh.EarClip
import CollisionMesh.Mesh.Edges
import CollisionMesh.Mesh.LeastForest
import CollisionMesh.Mesh.Pass
import CollisionMesh.Mesh.Region
import CollisionMesh.Mesh.Straighten
import CollisionMesh.Mesh.Triangulate
import CollisionMesh.Mesh.Weld
import CollisionMesh.Number.Binary64
import CollisionMesh.Number.Decimal
import CollisionMesh.Number.Natural
import CollisionMesh.Number.Shortest
import CollisionMesh.Processing
import CollisionMesh.Proofs.Binary64
import CollisionMesh.Proofs.Compact
import CollisionMesh.Proofs.Counts
import CollisionMesh.Proofs.Crease
import CollisionMesh.Proofs.Cycle
import CollisionMesh.Proofs.FirstUse
import CollisionMesh.Proofs.Flood
import CollisionMesh.Proofs.Group
import CollisionMesh.Proofs.HalfTurn
import CollisionMesh.Proofs.Independence
import CollisionMesh.Proofs.LeastForest
import CollisionMesh.Proofs.Loose
import CollisionMesh.Proofs.Merge
import CollisionMesh.Proofs.Numerals
import CollisionMesh.Proofs.Offences
import CollisionMesh.Proofs.Outline
import CollisionMesh.Proofs.Passes
import CollisionMesh.Proofs.Provenance
import CollisionMesh.Proofs.Proximity
import CollisionMesh.Proofs.Reading
import CollisionMesh.Proofs.Refusal
import CollisionMesh.Proofs.Rewriting
import CollisionMesh.Proofs.Scene
import CollisionMesh.Proofs.Shrinking
import CollisionMesh.Proofs.Signs
import CollisionMesh.Proofs.Straighten
import CollisionMesh.Proofs.Telling
import CollisionMesh.Proofs.Text
import CollisionMesh.Proofs.Triangulate
import CollisionMesh.Proofs.Weld
import CollisionMesh.Record
import CollisionMesh.Record.Line
import CollisionMesh.Run
import CollisionMesh.Settings
import CollisionMesh.Settings.Toml
import CollisionMesh.Simplified
import CollisionMesh.Text.Blank
import CollisionMesh.Text.Json
import CollisionMesh.Toml
import CollisionMesh.Toml.Reader
import CollisionMesh.Proofs.WrittenRecord
import CollisionMesh.Proofs.Blocks
import CollisionMesh.Proofs.Again
import CollisionMesh.Proofs.Requests
import CollisionMesh.Proofs.History
import CollisionMesh.Proofs.Recording
import CollisionMesh.Proofs.Sessions
import CollisionMesh.Proofs.ReadBack
import CollisionMesh.Proofs.AreaIndex
import CollisionMesh.Proofs.Areas
import CollisionMesh.Proofs.Items
import CollisionMesh.Proofs.Balance
import CollisionMesh.Proofs.Writers
import CollisionMesh.Proofs.Regrouping
import CollisionMesh.Proofs.Keeping
import CollisionMesh.Proofs.Passages
import CollisionMesh.Proofs.Idempotence
import CollisionMesh.Run.Accumulator
import CollisionMesh.Proofs.Accumulator
import CollisionMesh.Proofs.Feeding
import CollisionMesh.Proofs.Values
import CollisionMesh.Proofs.RoundTrip
import CollisionMesh.Proofs.Trimming
import CollisionMesh.Proofs.AreaReading
import CollisionMesh.Proofs.Legibility
import CollisionMesh.Proofs.Strictness
import CollisionMesh.Proofs.Paths
import CollisionMesh.Proofs.Outputs
import CollisionMesh.Proofs.Neighbours
import CollisionMesh.Proofs.Oriented
import CollisionMesh.Proofs.EdgeUses
import CollisionMesh.Proofs.SurfaceBoundary
import CollisionMesh.Proofs.Sharpness
import CollisionMesh.Proofs.Fans
import CollisionMesh.Proofs.Splitting
import CollisionMesh.Proofs.SideBySide
import CollisionMesh.Proofs.Cutting
import CollisionMesh.Proofs.Resplitting
import CollisionMesh.Proofs.Stretches
import CollisionMesh.Proofs.Rewelding
import CollisionMesh.Proofs.Quotient
import CollisionMesh.Proofs.Collapse
import CollisionMesh.Proofs.Circuits
import CollisionMesh.Proofs.Seams
import CollisionMesh.Proofs.Rounding
import CollisionMesh.Proofs.Nearest
import CollisionMesh.Proofs.Literals
import CollisionMesh.Proofs.Grammar
import CollisionMesh.Proofs.WholeRegion
import CollisionMesh.Proofs.Corners
import CollisionMesh.Proofs.ExactSpace
import CollisionMesh.Proofs.Lattice
import CollisionMesh.Proofs.Halving
import CollisionMesh.Proofs.LatticeMesh
import CollisionMesh.Proofs.Tiling
import CollisionMesh.Proofs.Grid
import CollisionMesh.Proofs.Runs
import CollisionMesh.Proofs.Errands
import CollisionMesh.Proofs.Renumbering
import CollisionMesh.Proofs.Seeds
