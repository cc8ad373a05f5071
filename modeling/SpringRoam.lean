import SpringRoam.Node
import SpringRoam.Split
import SpringRoam.Tessellate
import SpringRoam.Grid
import SpringRoam.Geometry
import SpringRoam.Variance
import SpringRoam.Indices
import SpringRoam.SplitSpec
import SpringRoam.Traversal
import SpringRoam.Pools
import SpringRoam.Border
import SpringRoam.Bintree
import SpringRoam.SplitForest
import SpringRoam.Lod
import SpringRoam.Frame
import SpringRoam.Triangulation
import SpringRoam.Skirts
import SpringRoam.Reset
