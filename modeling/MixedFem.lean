import MixedFem.Float.Binary
import MixedFem.Float.Fused
import MixedFem.Float.Binary64
import MixedFem.Float.Compensated
import MixedFem.Float.Hypot
import MixedFem.Decimal.Shortest
import MixedFem.Decimal.Text
import MixedFem.Decimal.Scientific
import MixedFem.Json.Value
import MixedFem.Json.Read
import MixedFem.Violation
import MixedFem.Quadrature.Rule
import MixedFem.Quadrature.Gauss
import MixedFem.Quadrature.Triangle
import MixedFem.Scalar
import MixedFem.Complex
import MixedFem.Matrix.Basic
import MixedFem.Matrix.Product
import MixedFem.Matrix.Lu
import MixedFem.Condensation
import MixedFem.Geometry.Vec2
import MixedFem.Geometry.Triangle
import MixedFem.Element.Lagrange
import MixedFem.Material
import MixedFem.Kernel.Basic
import MixedFem.Kernel.Elasticity
import MixedFem.Mesh.Basic
import MixedFem.Mesh.Grid
import MixedFem.Mesh.Topology
import MixedFem.Mesh.Markers
import MixedFem.Mesh.Tags
import MixedFem.Space
import MixedFem.Quote
import MixedFem.Decimal.Rounded
import MixedFem.Matrix.Dot
import MixedFem.Sparse.Pattern
import MixedFem.Sparse.Csr
import MixedFem.Sparse.Cg
import MixedFem.Sparse.Dirichlet
import MixedFem.Kernel.Registry
import MixedFem.Kernel.Scratch
import MixedFem.Assembly.Matrix
import MixedFem.Report
import MixedFem.Assembly.Form
import MixedFem.Assembly.Facet
import MixedFem.Evaluate
import MixedFem.Parameters.Basic
import MixedFem.Parameters.Read
import MixedFem.Cook
import MixedFem.Main
import MixedFem.Proofs.Exact
import MixedFem.Proofs.Loop
import MixedFem.Proofs.Matrix.Accumulate
import MixedFem.Proofs.Matrix.Entries
import MixedFem.Proofs.Kernel.Tensors
import MixedFem.Proofs.Matrix.Eliminate
import MixedFem.Proofs.Matrix.Factor
import MixedFem.Proofs.Matrix.Solve
import MixedFem.Proofs.Matrix.Scale
import MixedFem.Proofs.Matrix.Product
import MixedFem.Proofs.Condensation
import MixedFem.Proofs.Kernel.Reference
import MixedFem.Proofs.Kernel.Pointwise
import MixedFem.Proofs.Kernel.Condensed
import MixedFem.Proofs.Sparse.Rows
import MixedFem.Proofs.Sparse.Coordinates
import MixedFem.Proofs.Assembly.Scatter
import MixedFem.Proofs.Assembly.Global
import MixedFem.Proofs.Matrix.Columns
import MixedFem.Proofs.CondensationOutcome
import MixedFem.Proofs.Sparse.Dirichlet
import MixedFem.Proofs.Sparse.Operator
import MixedFem.Proofs.Sparse.Cg
import MixedFem.Proofs.Float.Rounding
import MixedFem.Proofs.Float.Reading
import MixedFem.Proofs.Float.Shortest
import MixedFem.Proofs.Json.Run
import MixedFem.Proofs.Json.Strings
import MixedFem.Proofs.Mesh.Topology
import MixedFem.Proofs.Kernel.Scratch
import MixedFem.Proofs.Sparse.Conjugacy
import MixedFem.Proofs.Sparse.Termination
import MixedFem.Proofs.Kernel.Energy
import MixedFem.Proofs.Geometry.Plane
import MixedFem.Proofs.Kernel.Rigid
import MixedFem.Proofs.Space.Conforming
import MixedFem.Proofs.Evaluate
import MixedFem.Proofs.Parameters.Keys
import MixedFem.Proofs.Sparse.Distance
import MixedFem.Proofs.Mesh.Counting
import MixedFem.Proofs.Mesh.Structured
import MixedFem.Proofs.Mesh.Rectangle
import MixedFem.Proofs.Json.Numbers
import MixedFem.Proofs.Json.Floats
import MixedFem.Proofs.Json.Pretty
import MixedFem.Proofs.Json.Containers
import MixedFem.Proofs.Parameters.Stored
import MixedFem.Proofs.Parameters.Refused
import MixedFem.Proofs.Cook.Settings
import MixedFem.Proofs.Mesh.Tags
import MixedFem.Proofs.Mesh.Cook
import MixedFem.Proofs.Sparse.Scaling
import MixedFem.Proofs.Sparse.Clamped
import MixedFem.Proofs.Material.Stress
import MixedFem.Proofs.Geometry.Affine
import MixedFem.Proofs.Kernel.Registry
import MixedFem.Proofs.Assembly.Facet
import MixedFem.Proofs.Element.Lagrange
import MixedFem.Proofs.Sparse.Definite
import MixedFem.Proofs.Assembly.Quadratic
import MixedFem.Proofs.Mesh.Spreading
import MixedFem.Proofs.Assembly.Stiffness
import MixedFem.Proofs.Cook.System
