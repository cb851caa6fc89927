import MixedFem.Geometry.Vec2

/-!
# Axis-aligned boxes of a point index

* `Box ρ` : the corners `lower` and `upper` of a closed axis-aligned box;
* `Box.ofCorners p q` : the box spanned by two corners, componentwise `lesser` below and
  `greater` above;
* `Box.empty`, `Box.merge` : the box that holds nothing (lower corner at the largest `Float`,
  upper corner at the most negative one) and the smallest box around two boxes, both by
  `lesser` and `greater`;
* `Box.holds` : `lower ≤ x ≤ upper` in both coordinates;
* `Box.hasOrderedLower` : whether each coordinate of the lower corner compares with itself.

`lesser a b` is `a` when `a < b` and `b` otherwise, and `greater a b` is `a` when `b < a` and
`b` otherwise. On ordered values they are the minimum and the maximum. A NaN in the first place
gives way to the second value, and one in the second place is kept. So a box merged with a NaN
corner may lose the NaN again in a later merge, and a box whose corner keeps a NaN holds no
point. A box from `ofCorners` with a NaN in its upper corner has one in its lower corner too.
A NaN is the only value that does not compare with itself.
-/

namespace MixedFem

variable {ρ : Type} [RealScalar ρ]

/-- `a` if `a < b`, else `b`. -/
def lesser (a b : ρ) : ρ := if a < b then a else b

/-- `a` if `b < a`, else `b`. -/
def greater (a b : ρ) : ρ := if b < a then a else b

/-- A closed axis-aligned box. -/
structure Box (ρ : Type) where
  lower : Vec2 ρ
  upper : Vec2 ρ
  deriving Inhabited

namespace Box

/-- The box spanned by two opposite corners. -/
def ofCorners (p q : Vec2 ρ) : Box ρ :=
  ⟨⟨lesser p.x q.x, lesser p.y q.y⟩, ⟨greater p.x q.x, greater p.y q.y⟩⟩

/-- The largest finite `Float`, the lower corner of the empty box. -/
def largest : ρ := RealScalar.ofFloat 1.7976931348623157e308

/-- The box that holds nothing. -/
def empty : Box ρ := ⟨⟨largest, largest⟩, ⟨-largest, -largest⟩⟩

/-- The smallest box around two boxes. -/
def merge (b c : Box ρ) : Box ρ :=
  ⟨⟨lesser b.lower.x c.lower.x, lesser b.lower.y c.lower.y⟩,
   ⟨greater b.upper.x c.upper.x, greater b.upper.y c.upper.y⟩⟩

/-- Whether the closed box holds the point. -/
def holds (b : Box ρ) (x : Vec2 ρ) : Bool :=
  decide (b.lower.x ≤ x.x) && decide (b.lower.y ≤ x.y) && decide (x.x ≤ b.upper.x) &&
    decide (x.y ≤ b.upper.y)

/-- Whether both coordinates of the lower corner compare with themselves. -/
def hasOrderedLower (b : Box ρ) : Bool := decide (b.lower.x ≤ b.lower.x) && decide (b.lower.y ≤ b.lower.y)

end Box

end MixedFem
