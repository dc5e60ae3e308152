import CapabilityAtlas.Calendar.Date
import CapabilityAtlas.Calendar.IsoText
import CapabilityAtlas.Calendar.Stamp
import CapabilityAtlas.Engine
import CapabilityAtlas.Fault
import CapabilityAtlas.Geometry.Component
import CapabilityAtlas.Geometry.Drawing
import CapabilityAtlas.Geometry.Hull
import CapabilityAtlas.Geometry.HullGroup
import CapabilityAtlas.Geometry.Point
import CapabilityAtlas.Hierarchy.Assembly
import CapabilityAtlas.Hierarchy.Build
import CapabilityAtlas.Hierarchy.Containment
import CapabilityAtlas.Hierarchy.Membership
import CapabilityAtlas.Hierarchy.Tree
import CapabilityAtlas.Keyed
import CapabilityAtlas.Layout.Radial
import CapabilityAtlas.Layout.Ring
import CapabilityAtlas.Layout.Timeline
import CapabilityAtlas.Neighborhood
import CapabilityAtlas.Numeral.Binary
import CapabilityAtlas.Numeral.Decimal
import CapabilityAtlas.Numeral.Reading
import CapabilityAtlas.Numeral.Shortest
import CapabilityAtlas.Palette
import CapabilityAtlas.Payload
import CapabilityAtlas.Payload.Conversion
import CapabilityAtlas.Payload.Text
import CapabilityAtlas.Proofs.Calendar.IsoText
import CapabilityAtlas.Proofs.Calendar.Stamp
import CapabilityAtlas.Proofs.Community
import CapabilityAtlas.Proofs.Geometry.Capsule
import CapabilityAtlas.Proofs.Geometry.Component
import CapabilityAtlas.Proofs.Geometry.Convex
import CapabilityAtlas.Proofs.Geometry.ConvexHull
import CapabilityAtlas.Proofs.Geometry.Crossing
import CapabilityAtlas.Proofs.Geometry.Cycle
import CapabilityAtlas.Proofs.Geometry.DisjointSets
import CapabilityAtlas.Proofs.Geometry.Drawing
import CapabilityAtlas.Proofs.Geometry.Exact
import CapabilityAtlas.Proofs.Geometry.ExpandHull
import CapabilityAtlas.Proofs.Geometry.Extreme
import CapabilityAtlas.Proofs.Geometry.Interior
import CapabilityAtlas.Proofs.Geometry.Merge
import CapabilityAtlas.Proofs.Geometry.MergeParts
import CapabilityAtlas.Proofs.Geometry.MovedSide
import CapabilityAtlas.Proofs.Geometry.Offset
import CapabilityAtlas.Proofs.Geometry.Outline
import CapabilityAtlas.Proofs.Geometry.Overlap
import CapabilityAtlas.Proofs.Geometry.Plane
import CapabilityAtlas.Proofs.Geometry.Smooth
import CapabilityAtlas.Proofs.Geometry.Spline
import CapabilityAtlas.Proofs.Geometry.Straighten
import CapabilityAtlas.Proofs.Geometry.Stroke
import CapabilityAtlas.Proofs.Hierarchy.Ascent
import CapabilityAtlas.Proofs.Hierarchy.Assembly
import CapabilityAtlas.Proofs.Hierarchy.Cut
import CapabilityAtlas.Proofs.Hierarchy.Distribution
import CapabilityAtlas.Proofs.Hierarchy.Essential
import CapabilityAtlas.Proofs.Hierarchy.Forest
import CapabilityAtlas.Proofs.Hierarchy.Growth
import CapabilityAtlas.Proofs.Hierarchy.Instance
import CapabilityAtlas.Proofs.Hierarchy.Level
import CapabilityAtlas.Proofs.Hierarchy.LevelTable
import CapabilityAtlas.Proofs.Hierarchy.Lineage
import CapabilityAtlas.Proofs.Hierarchy.Membership
import CapabilityAtlas.Proofs.Hierarchy.Nesting
import CapabilityAtlas.Proofs.Hierarchy.Preorder
import CapabilityAtlas.Proofs.Hierarchy.Rearrangement
import CapabilityAtlas.Proofs.Hierarchy.TreeLevel
import CapabilityAtlas.Proofs.Keyed
import CapabilityAtlas.Proofs.Layout.Arc
import CapabilityAtlas.Proofs.Layout.Band
import CapabilityAtlas.Proofs.Layout.Buckets
import CapabilityAtlas.Proofs.Layout.Bundle
import CapabilityAtlas.Proofs.Layout.Canvas
import CapabilityAtlas.Proofs.Layout.Coverage
import CapabilityAtlas.Proofs.Layout.Grid
import CapabilityAtlas.Proofs.Layout.Rearrangement
import CapabilityAtlas.Proofs.Layout.Recency
import CapabilityAtlas.Proofs.Layout.Ring
import CapabilityAtlas.Proofs.Layout.RingOrder
import CapabilityAtlas.Proofs.Layout.Route
import CapabilityAtlas.Proofs.Layout.RoutePath
import CapabilityAtlas.Proofs.Layout.Timeline
import CapabilityAtlas.Proofs.Neighborhood
import CapabilityAtlas.Proofs.Numeral.Binary
import CapabilityAtlas.Proofs.Numeral.Decimal
import CapabilityAtlas.Proofs.Numeral.Rounding
import CapabilityAtlas.Proofs.Order
import CapabilityAtlas.Proofs.Outcome
import CapabilityAtlas.Proofs.Overlay
import CapabilityAtlas.Proofs.Payload.Conversion
import CapabilityAtlas.Proofs.Payload.Moment
import CapabilityAtlas.Proofs.Record.DistinctIds
import CapabilityAtlas.Proofs.Record.FirstRecords
import CapabilityAtlas.Proofs.Record.Legible
import CapabilityAtlas.Proofs.Record.Reading
import CapabilityAtlas.Proofs.Record.Rearrangement
import CapabilityAtlas.Proofs.Record.Rejection
import CapabilityAtlas.Proofs.Record.Validation
import CapabilityAtlas.Proofs.Resolution
import CapabilityAtlas.Proofs.Search.Match
import CapabilityAtlas.Proofs.Search.Ranking
import CapabilityAtlas.Proofs.Search.Score
import CapabilityAtlas.Proofs.Search.Searchable
import CapabilityAtlas.Proofs.ServerColors
import CapabilityAtlas.Proofs.Session
import CapabilityAtlas.Proofs.Settings
import CapabilityAtlas.Record.Edge
import CapabilityAtlas.Record.Node
import CapabilityAtlas.Record.Snapshot
import CapabilityAtlas.Scalar
import CapabilityAtlas.Search.Match
import CapabilityAtlas.Search.Ranking
import CapabilityAtlas.Settings.Default
import CapabilityAtlas.Settings.Source
import CapabilityAtlas.Text.Casing
import CapabilityAtlas.Text.Character
import CapabilityAtlas.Text.Cluster
import CapabilityAtlas.Text.ClusterBreak
import CapabilityAtlas.Text.Printable
