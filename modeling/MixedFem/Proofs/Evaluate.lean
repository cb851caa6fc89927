import Mathlib.Data.List.Find
import Mathlib.Tactic.Linarith
import MixedFem.Proofs.Space.Conforming

/-!
# Finding cells and evaluating fields

`FunctionEvaluator.findCell` asks the bounding-volume index for the cells whose enlarged boxes
hold a point, keeps those whose triangle contains the point up to the barycentric tolerance, and
takes the lowest. Read in exact arithmetic the evaluator is always built, the box around all
cells holds every cell box, and so the index returns exactly the cells whose boxes hold the
point: `findCell` is the lowest cell passing both tests. A point of a closed cell passes both
for that cell, so a cell is found. A point the barycentric test accepts near a vertex can lie
`2 τ₀ w` outside the box of the vertices of a cell of side `w`, beyond the margin `τ₀ (1 + w)`
once `w > 1`: only on cells no larger than that is `findCell` the lowest cell that contains the
point.

The value of a field on the cell found is its expansion there. When the field interpolates a
quadratic polynomial at the nodes, the nodes of every cell sit at the images of the reference
nodes, so the expansion on a cell of nonzero determinant is the quadratic interpolant of the
polynomial pulled back by the reference map, which is the polynomial itself: evaluation
reproduces quadratic fields, also at points accepted slightly outside a cell.

* `lesser_val`, `greater_val`, `Box.holds_iff`, `Box.holds_foldl_merge` : boxes in the field;
* `Triangle.Covers` : a point of the closed triangle;
* `combination_ge`, `combination_mem_widened` : combinations of three values with weights of
  at least `-τ`;
* `FunctionEvaluator.cellBox_holds_of_weights`, `cellBox_holds_of_covers`,
  `contains_of_covers` : the two tests at a point of a cell;
* `FunctionEvaluator.make_eq_ok`, `findCell_eq_scan`, `findCell_eq_lowest_boxed` : the evaluator
  and the cell it finds; `findCell_misses_wideCell_corner` : a point of a wide cell it misses;
* `FunctionEvaluator.cellBox_holds_of_contains`, `findCell_eq_lowest_of_small` : on small cells
  the boxes drop nothing;
* `Quadratic`, `interpolant` : quadratic polynomials and their nodal values;
* `Quadratic.sum_eval_p2Nodes`, `VectorP2Space.cellValue?_interpolant` : reproduction on one
  cell;
* `FunctionEvaluator.evaluate_reproduces_quadratics` : reproduction at every point.
-/

namespace MixedFem

/-- A polynomial of total degree at most two in the plane,
`c₀ + c₁ x + c₂ y + c₃ x² + c₄ x y + c₅ y²`. -/
structure Quadratic (K : Type) where
  c0 : K
  c1 : K
  c2 : K
  c3 : K
  c4 : K
  c5 : K

variable {K : Type} [Field K] [LinearOrder K]

/-- The value of a quadratic at a point. -/
def Quadratic.eval (p : Quadratic K) (z : Vec2 (Exact K)) : K :=
  p.c0 + p.c1 * z.x.val + p.c2 * z.y.val + p.c3 * z.x.val ^ 2 + p.c4 * z.x.val * z.y.val +
    p.c5 * z.y.val ^ 2

section Boxes

theorem lesser_val (a b : Exact K) : (lesser a b).val = min a.val b.val := by
  unfold lesser
  split_ifs with h
  · exact (min_eq_left (le_of_lt ((Exact.lt_iff _ _).1 h))).symm
  · exact (min_eq_right (not_lt.1 (mt (Exact.lt_iff _ _).2 h))).symm

theorem greater_val (a b : Exact K) : (greater a b).val = max a.val b.val := by
  unfold greater
  split_ifs with h
  · exact (max_eq_left (le_of_lt ((Exact.lt_iff _ _).1 h))).symm
  · exact (max_eq_right (not_lt.1 (mt (Exact.lt_iff _ _).2 h))).symm

theorem Vec2.inf_x_val (a b : Vec2 (Exact K)) : (a.inf b).x.val = min a.x.val b.x.val := by
  simp only [Vec2.inf, Exact.le_iff, min_def]
  split_ifs <;> rfl

theorem Vec2.inf_y_val (a b : Vec2 (Exact K)) : (a.inf b).y.val = min a.y.val b.y.val := by
  simp only [Vec2.inf, Exact.le_iff, min_def]
  split_ifs <;> rfl

theorem Vec2.sup_x_val (a b : Vec2 (Exact K)) : (a.sup b).x.val = max a.x.val b.x.val := by
  rw [max_comm]
  simp only [Vec2.sup, Exact.le_iff, max_def]
  split_ifs <;> rfl

theorem Vec2.sup_y_val (a b : Vec2 (Exact K)) : (a.sup b).y.val = max a.y.val b.y.val := by
  rw [max_comm]
  simp only [Vec2.sup, Exact.le_iff, max_def]
  split_ifs <;> rfl

theorem Box.holds_iff {b : Box (Exact K)} {x : Vec2 (Exact K)} :
    b.holds x = true ↔ b.lower.x.val ≤ x.x.val ∧ b.lower.y.val ≤ x.y.val ∧
      x.x.val ≤ b.upper.x.val ∧ x.y.val ≤ b.upper.y.val := by
  simp [Box.holds, and_assoc]

/-- The merge of two boxes holds what either of them holds. -/
theorem Box.holds_merge {b c : Box (Exact K)} {x : Vec2 (Exact K)}
    (h : b.holds x = true ∨ c.holds x = true) : (b.merge c).holds x = true := by
  rw [Box.holds_iff]
  simp only [Box.merge, lesser_val, greater_val, min_le_iff, le_max_iff]
  rcases h with h | h <;> rw [Box.holds_iff] at h
  · exact ⟨Or.inl h.1, Or.inl h.2.1, Or.inl h.2.2.1, Or.inl h.2.2.2⟩
  · exact ⟨Or.inr h.1, Or.inr h.2.1, Or.inr h.2.2.1, Or.inr h.2.2.2⟩

/-- Merging boxes one after another keeps holding what any of them holds. -/
theorem Box.holds_foldl_merge {x : Vec2 (Exact K)} :
    ∀ (bs : List (Box (Exact K))) (init : Box (Exact K)),
      (init.holds x = true ∨ ∃ b ∈ bs, b.holds x = true) → (bs.foldl Box.merge init).holds x = true
  | [], init, h => by simpa using h
  | b :: bs, init, h => by
    rw [List.foldl_cons]
    apply Box.holds_foldl_merge bs
    rcases h with h | ⟨b', hb', h⟩
    · exact Or.inl (Box.holds_merge (Or.inl h))
    · rcases List.mem_cons.1 hb' with rfl | hb'
      · exact Or.inl (Box.holds_merge (Or.inr h))
      · exact Or.inr ⟨b', hb', h⟩

end Boxes

variable [IsStrictOrderedRing K]

namespace Triangle

/-- `x` lies in the closed triangle: it is a convex combination of the vertices. -/
def Covers (t : Triangle (Exact K)) (x : Vec2 (Exact K)) : Prop :=
  ∃ a b c : K, 0 ≤ a ∧ 0 ≤ b ∧ 0 ≤ c ∧ a + b + c = 1 ∧
    x.x.val = a * t.v0.x.val + b * t.v1.x.val + c * t.v2.x.val ∧
    x.y.val = a * t.v0.y.val + b * t.v1.y.val + c * t.v2.y.val

omit [IsStrictOrderedRing K] in
/-- A convex combination of the vertices is the image of the reference point of its last two
weights. -/
theorem toPhysical_weights (t : Triangle (Exact K)) {a b c : K} (hs : a + b + c = 1) :
    (t.toPhysical ⟨Exact.mk b, Exact.mk c⟩).x.val =
        a * t.v0.x.val + b * t.v1.x.val + c * t.v2.x.val ∧
      (t.toPhysical ⟨Exact.mk b, Exact.mk c⟩).y.val =
        a * t.v0.y.val + b * t.v1.y.val + c * t.v2.y.val := by
  obtain rfl : a = 1 - b - c := by linear_combination hs
  constructor <;> simp <;> ring

end Triangle

section Weights

variable {a b c u v w : K}

/-- Weights of at least `-τ` summing to one put a combination of three values at most `2 τ W`
below `l`, when `l` is one of the values and the values are at most `W` above it. -/
theorem combination_ge {τ l W : K} (hτ : 0 ≤ τ) (ha : -τ ≤ a) (hb : -τ ≤ b) (hc : -τ ≤ c)
    (hs : a + b + c = 1) (hl : l = u ∨ l = v ∨ l = w) (hu : l ≤ u ∧ u ≤ l + W)
    (hv : l ≤ v ∧ v ≤ l + W) (hw : l ≤ w ∧ w ≤ l + W) :
    l - 2 * τ * W ≤ a * u + b * v + c * w := by
  have hexp : a * u + b * v + c * w = l + (a * (u - l) + b * (v - l) + c * (w - l)) := by
    linear_combination l * hs
  -- a weight loses at most `τ` times the height of its value above `l`
  have hau : -τ * (u - l) ≤ a * (u - l) := mul_le_mul_of_nonneg_right ha (by linarith)
  have hbv : -τ * (v - l) ≤ b * (v - l) := mul_le_mul_of_nonneg_right hb (by linarith)
  have hcw : -τ * (w - l) ≤ c * (w - l) := mul_le_mul_of_nonneg_right hc (by linarith)
  -- one of the heights is zero, so they add up to at most `2 W`
  have hsum : (u - l) + (v - l) + (w - l) ≤ 2 * W := by
    rcases hl with rfl | rfl | rfl <;> linarith
  have hτs : τ * ((u - l) + (v - l) + (w - l)) ≤ τ * (2 * W) := mul_le_mul_of_nonneg_left hsum hτ
  linarith

/-- Weights of at least `-τ` summing to one keep a combination of three values within `2 τ W` of
the interval they span, `W` bounding its length. -/
theorem combination_mem_widened {τ W : K} (hτ : 0 ≤ τ) (ha : -τ ≤ a) (hb : -τ ≤ b)
    (hc : -τ ≤ c) (hs : a + b + c = 1) (hW : max (max u v) w - min (min u v) w ≤ W) :
    min (min u v) w - 2 * τ * W ≤ a * u + b * v + c * w ∧
      a * u + b * v + c * w ≤ max (max u v) w + 2 * τ * W := by
  have hlu : min (min u v) w ≤ u := (min_le_left _ _).trans (min_le_left _ _)
  have hlv : min (min u v) w ≤ v := (min_le_left _ _).trans (min_le_right _ _)
  have hlw : min (min u v) w ≤ w := min_le_right _ _
  have hhu : u ≤ max (max u v) w := (le_max_left _ _).trans (le_max_left _ _)
  have hhv : v ≤ max (max u v) w := (le_max_right _ _).trans (le_max_left _ _)
  have hhw : w ≤ max (max u v) w := le_max_right _ _
  constructor
  · refine combination_ge hτ ha hb hc hs ?_ ⟨hlu, by linarith⟩ ⟨hlv, by linarith⟩
      ⟨hlw, by linarith⟩
    rcases min_choice (min u v) w with h | h
    · rcases min_choice u v with h' | h'
      · exact Or.inl (h.trans h')
      · exact Or.inr (Or.inl (h.trans h'))
    · exact Or.inr (Or.inr h)
  · -- the same bound for the negated values, below the negated greatest
    have h := combination_ge (u := -u) (v := -v) (w := -w) (l := -max (max u v) w) (W := W) hτ
      ha hb hc hs ?_ ⟨by linarith, by linarith⟩ ⟨by linarith, by linarith⟩
      ⟨by linarith, by linarith⟩
    · linarith
    rcases max_choice (max u v) w with h | h
    · rcases max_choice u v with h' | h'
      · exact Or.inl (by rw [h, h'])
      · exact Or.inr (Or.inl (by rw [h, h']))
    · exact Or.inr (Or.inr (by rw [h]))

end Weights

namespace FunctionEvaluator

theorem containmentTolerance_pos : 0 < (containmentTolerance : Exact K).val := by
  have h : (0 : ℚ) < floatValue 1e-10 := by decide +kernel
  simpa [containmentTolerance] using h

theorem absMax_nonneg (v : Vec2 (Exact K)) : 0 ≤ (absMax v).val := by
  dsimp only [absMax]
  split_ifs <;> simp

omit [IsStrictOrderedRing K] in
/-- A box spanned by two corners moved apart by `M` holds every point within `M` of the box of
the corners. -/
theorem ofCorners_widened_holds {lo hi x : Vec2 (Exact K)} {M : Exact K}
    (hlo : lo.x.val - M.val ≤ x.x.val ∧ lo.y.val - M.val ≤ x.y.val)
    (hhi : x.x.val ≤ hi.x.val + M.val ∧ x.y.val ≤ hi.y.val + M.val) :
    (Box.ofCorners ⟨lo.x - M, lo.y - M⟩ ⟨hi.x + M, hi.y + M⟩).holds x = true := by
  rw [Box.holds_iff]
  simp only [Box.ofCorners, lesser_val, greater_val, Exact.val_sub, Exact.val_add]
  exact ⟨min_le_of_left_le hlo.1, min_le_of_left_le hlo.2, le_max_of_le_right hhi.1,
    le_max_of_le_right hhi.2⟩

/-- `absMax` bounds both components. -/
theorem le_absMax (v : Vec2 (Exact K)) : v.x.val ≤ (absMax v).val ∧ v.y.val ≤ (absMax v).val := by
  dsimp only [absMax]
  split_ifs with h <;> simp only [Exact.le_iff, Exact.val_abs] at h ⊢ <;>
    constructor <;> linarith [le_abs_self v.x.val, le_abs_self v.y.val]

/-- The enlarged box of a triangle holds the point that weights of at least `-τ` summing to one
make of the vertices, when `2 τ w` is within the margin `τ₀ (1 + w)`, `w` the larger side of the
box of the vertices: the point is within `2 τ w` of that box. -/
theorem cellBox_holds_of_weights {t : Triangle (Exact K)} {x : Vec2 (Exact K)} {a b c τ : K}
    (hτ : 0 ≤ τ) (ha : -τ ≤ a) (hb : -τ ≤ b) (hc : -τ ≤ c) (hs : a + b + c = 1)
    (hx : x.x.val = a * t.v0.x.val + b * t.v1.x.val + c * t.v2.x.val)
    (hy : x.y.val = a * t.v0.y.val + b * t.v1.y.val + c * t.v2.y.val)
    (hM : 2 * τ * (absMax (t.boundingBox.2 - t.boundingBox.1)).val ≤
      (containmentTolerance : Exact K).val * (1 + (absMax (t.boundingBox.2 - t.boundingBox.1)).val)) :
    (cellBox t).holds x = true := by
  obtain ⟨hWx, hWy⟩ := le_absMax (t.boundingBox.2 - t.boundingBox.1)
  simp only [Triangle.boundingBox, Vec2.sub_x, Vec2.sub_y, Exact.val_sub, Vec2.inf_x_val,
    Vec2.inf_y_val, Vec2.sup_x_val, Vec2.sup_y_val] at hWx hWy hM
  obtain ⟨hxl, hxu⟩ := combination_mem_widened hτ ha hb hc hs hWx
  obtain ⟨hyl, hyu⟩ := combination_mem_widened hτ ha hb hc hs hWy
  refine ofCorners_widened_holds ⟨?_, ?_⟩ ⟨?_, ?_⟩
  all_goals
    simp only [Vec2.inf_x_val, Vec2.inf_y_val, Vec2.sup_x_val, Vec2.sup_y_val, Exact.val_mul,
      Exact.val_add, Exact.val_ofFloat, floatValue_one, Rat.cast_one]
    linarith

/-- The enlarged box of a triangle holds every point of the triangle. -/
theorem cellBox_holds_of_covers {t : Triangle (Exact K)} {x : Vec2 (Exact K)} (h : t.Covers x) :
    (cellBox t).holds x = true := by
  obtain ⟨a, b, c, ha, hb, hc, hs, hx, hy⟩ := h
  have hW := absMax_nonneg (t.boundingBox.2 - t.boundingBox.1)
  -- weights that are not negative: `τ = 0`, and the margin is not negative
  refine cellBox_holds_of_weights le_rfl (by rwa [neg_zero]) (by rwa [neg_zero])
    (by rwa [neg_zero]) hs hx hy ?_
  rw [mul_zero, zero_mul]
  exact mul_nonneg containmentTolerance_pos.le (by linarith)

/-- A triangle of nonzero determinant contains every point of it, at any tolerance that is not
negative. -/
theorem contains_of_covers {t : Triangle (Exact K)} {x : Vec2 (Exact K)} (h : t.Covers x)
    (hdet : t.determinant.val ≠ 0) {tol : Exact K} (htol : 0 ≤ tol.val) :
    t.contains x tol = true := by
  obtain ⟨a, b, c, ha, hb, hc, hs, hx, hy⟩ := h
  obtain ⟨hx', hy'⟩ := t.toPhysical_weights hs
  have hpt : t.toPhysical ⟨Exact.mk b, Exact.mk c⟩ = x :=
    Vec2.ext_val (hx'.trans hx.symm) (hy'.trans hy.symm)
  rw [Triangle.contains_iff]
  refine ⟨_, hpt ▸ t.toReference?_toPhysical hdet _, ?_, ?_, ?_⟩ <;> simp only [Exact.val_mk] <;>
    linarith

section Index

omit [IsStrictOrderedRing K]

variable (m : Mesh (Exact K)) (s : VectorP2Space)

/-- In exact arithmetic every lower corner is ordered, so the evaluator is always built: the box
of each cell, and their merge. -/
theorem make_eq_ok : make m s = .ok ⟨m, s, (Array.range m.numCells).map fun c =>
    cellBox (m.cellTriangle c), ((Array.range m.numCells).map fun c =>
    cellBox (m.cellTriangle c)).foldl Box.merge Box.empty⟩ := by
  have hall : ((Array.range m.numCells).map fun c => cellBox (m.cellTriangle c)).all
      Box.hasOrderedLower = true := by
    rw [Array.all_eq_true]
    intro i _
    simp [Box.hasOrderedLower]
  simp only [make, hall, Bool.not_true, Bool.and_false]
  rfl

/-- The index filters nothing: since the merged box holds every cell box, a point outside it is
in no cell box, and `findCell` is the scan over the cells in order. -/
theorem findCell_eq_scan (boxes : Array (Box (Exact K))) (x : Vec2 (Exact K)) :
    (⟨m, s, boxes, boxes.foldl Box.merge Box.empty⟩ : FunctionEvaluator (Exact K)).findCell x =
      (List.range boxes.size).find? fun c =>
        boxes[c]!.holds x && (m.cellTriangle c).contains x containmentTolerance := by
  unfold findCell
  split_ifs with hb
  · rfl
  · symm
    rw [List.find?_eq_none]
    intro c hc hfound
    simp only [Bool.and_eq_true] at hfound
    apply hb
    rw [← Array.foldl_toList]
    refine Box.holds_foldl_merge _ _ (Or.inr ⟨boxes[c]!, ?_, hfound.1⟩)
    rw [getElem!_pos boxes c (List.mem_range.1 hc)]
    exact Array.getElem_mem_toList _

/-- `evaluate` checks the length of the coefficient vector, then expands the field on the cell
that `findCell` gives. -/
theorem evaluate_eq (e : FunctionEvaluator (Exact K)) {U : Array (Exact K)}
    (hU : U.size = 2 * e.space.numNodes) (x : Vec2 (Exact K)) :
    e.evaluate U x = .ok ((e.findCell x).bind fun c => e.space.cellValue? e.mesh U c x) := by
  simp [evaluate, Violation.requireEq, hU, bind, Except.bind, pure, Except.pure]

/-- The cell the evaluator of a mesh finds is the lowest cell whose enlarged box holds the point
and whose triangle contains it up to the tolerance. The index drops exactly the cells whose
boxes miss the point, and near a vertex of a large cell the barycentric test accepts points
outside the box. -/
theorem findCell_eq_lowest_boxed :
    ∃ e, make m s = .ok e ∧ ∀ x, e.findCell x = (List.range m.numCells).find? fun c =>
      (cellBox (m.cellTriangle c)).holds x && (m.cellTriangle c).contains x containmentTolerance := by
  refine ⟨_, make_eq_ok m s, fun x => ?_⟩
  rw [findCell_eq_scan, Array.size_map, Array.size_range]
  refine List.find?_congr fun c hc => ?_
  rw [getElem!_pos _ c (by simpa using hc)]
  simp

/-- One cell 1024 wide and high, over the rationals. -/
def wideCell : Mesh (Exact ℚ) :=
  ⟨#[⟨Exact.mk 0, Exact.mk 0⟩, ⟨Exact.mk 1024, Exact.mk 0⟩, ⟨Exact.mk 1024, Exact.mk 1024⟩],
    #[⟨0, 1, 2⟩], by decide⟩

/-- At `(-2·10⁻⁷, -10⁻⁷)`, just outside the corner at the origin, the barycentric coordinates of
the wide cell are about `-0.98·10⁻¹⁰`, which the test accepts, but its box reaches only to
`-1.025·10⁻⁷`: `findCell` finds no cell where the scan finds cell 0. -/
theorem findCell_misses_wideCell_corner :
    ∃ e, make wideCell (VectorP2Space.make wideCell (Topology.ofMesh wideCell)) = .ok e ∧
      e.findCell ⟨Exact.mk (-1 / 5000000), Exact.mk (-1 / 10000000)⟩ = none ∧
      (wideCell.cellTriangle 0).contains ⟨Exact.mk (-1 / 5000000), Exact.mk (-1 / 10000000)⟩
        containmentTolerance = true :=
  ⟨_, make_eq_ok _ _, by decide +kernel, by decide +kernel⟩

end Index

section Found

variable {m : Mesh (Exact K)} {s : VectorP2Space} {x : Vec2 (Exact K)}

omit [IsStrictOrderedRing K] in
/-- The cell that the evaluator of a mesh finds is a cell of the mesh. -/
theorem findCell_make_lt {e : FunctionEvaluator (Exact K)} (he : make m s = .ok e) {c : Nat}
    (h : e.findCell x = some c) : c < m.numCells := by
  rw [make_eq_ok] at he
  cases he
  rw [findCell_eq_scan] at h
  simpa using List.mem_of_find?_eq_some h

/-- The evaluator of a mesh finds a cell at every point of a cell of nonzero determinant. -/
theorem findCell_make_isSome {e : FunctionEvaluator (Exact K)} (he : make m s = .ok e) {c : Nat}
    (hc : c < m.numCells) (hx : (m.cellTriangle c).Covers x)
    (hdet : (m.cellTriangle c).determinant.val ≠ 0) : (e.findCell x).isSome := by
  rw [make_eq_ok] at he
  cases he
  rw [findCell_eq_scan, List.find?_isSome]
  refine ⟨c, List.mem_range.2 (by simpa using hc), ?_⟩
  have hbox : ((Array.range m.numCells).map fun c => cellBox (m.cellTriangle c))[c]! =
      cellBox (m.cellTriangle c) := by
    rw [getElem!_pos _ c (by simpa using hc)]
    simp
  rw [hbox, cellBox_holds_of_covers hx,
    contains_of_covers hx hdet containmentTolerance_pos.le, Bool.and_self]

section Small

/-- On a cell no wider and no taller than one, every point the barycentric test accepts lies in
the enlarged box: the margin `τ₀ (1 + w)` covers the `2 τ₀ w` by which an accepted point can
leave the box of the vertices, `w` the larger side of that box. -/
theorem cellBox_holds_of_contains {t : Triangle (Exact K)}
    (hsmall : (absMax (t.boundingBox.2 - t.boundingBox.1)).val ≤ 1) {x : Vec2 (Exact K)}
    (h : t.contains x containmentTolerance = true) : (cellBox t).holds x = true := by
  obtain ⟨xi, hxi, h0, h1, h2⟩ := (Triangle.contains_iff t).1 h
  have hpt := t.toPhysical_of_toReference? hxi
  have hτ := (containmentTolerance_pos (K := K)).le
  -- the reference point gives the weights `1 - ξ - η, ξ, η` of the vertices
  refine cellBox_holds_of_weights hτ h0 h1 h2 (by ring) ?_ ?_ ?_
  · rw [← hpt, Triangle.toPhysical_x]
    ring
  · rw [← hpt, Triangle.toPhysical_y]
    ring
  · have := mul_nonneg hτ (sub_nonneg.2 hsmall)
    linarith

/-- On a mesh of cells no wider and no taller than one, the index drops no cell the barycentric
test accepts: `findCell` is the lowest cell that contains the point. -/
theorem findCell_eq_lowest_of_small (m : Mesh (Exact K)) (s : VectorP2Space)
    (hsmall : ∀ c < m.numCells,
      (absMax ((m.cellTriangle c).boundingBox.2 - (m.cellTriangle c).boundingBox.1)).val ≤ 1) :
    ∃ e, make m s = .ok e ∧ ∀ x, e.findCell x = (List.range m.numCells).find? fun c =>
      (m.cellTriangle c).contains x containmentTolerance := by
  refine ⟨_, make_eq_ok m s, fun x => ?_⟩
  rw [findCell_eq_scan, Array.size_map, Array.size_range]
  refine List.find?_congr fun c hc => ?_
  have hc' := List.mem_range.1 hc
  rw [getElem!_pos _ c (by simpa using hc'), Array.getElem_map, Array.getElem_range]
  cases hcont : (m.cellTriangle c).contains x containmentTolerance
  · simp
  · simp [cellBox_holds_of_contains (hsmall c hc') hcont]

end Small

end Found

end FunctionEvaluator

section Interpolation

omit [IsStrictOrderedRing K]

/-- The coefficient vector of the field `(p, q)` of a space: at dof `2 n + l` the value of
component `l` at node `n`. -/
noncomputable def interpolant (s : VectorP2Space) (m : Mesh (Exact K)) (p q : Quadratic K) :
    Array (Exact K) :=
  (Array.range (2 * s.numNodes)).map fun i => Exact.mk
    (if i % 2 = 0 then p.eval (s.nodeCoordinates m)[i / 2]! else q.eval (s.nodeCoordinates m)[i / 2]!)

variable (s : VectorP2Space) (m : Mesh (Exact K)) (p q : Quadratic K)

@[simp] theorem interpolant_size : (interpolant s m p q).size = 2 * s.numNodes := by
  simp [interpolant]

theorem interpolant_first {n : Nat} (hn : n < s.numNodes) :
    ((interpolant s m p q)[2 * n]!).val = p.eval (s.nodeCoordinates m)[n]! := by
  rw [getElem!_pos _ (2 * n) (by simp; omega)]
  simp [interpolant]

theorem interpolant_second {n : Nat} (hn : n < s.numNodes) :
    ((interpolant s m p q)[2 * n + 1]!).val = q.eval (s.nodeCoordinates m)[n]! := by
  rw [getElem!_pos _ (2 * n + 1) (by simp; omega)]
  simp [interpolant, Nat.add_mod, show (2 * n + 1) / 2 = n by omega]

end Interpolation

/-- The quadratic shape functions reproduce quadratics: the values of `p` at the images of the
six reference nodes, weighted by the shape functions at `ξ`, sum to its value at the image of
`ξ`, on every triangle and at every `ξ`. -/
theorem Quadratic.sum_eval_p2Nodes (p : Quadratic K) (t : Triangle (Exact K))
    (xi : Vec2 (Exact K)) :
    ∑ k ∈ Finset.range 6, p.eval (t.toPhysical ((p2Nodes : Array (Vec2 (Exact K)))[k]!)) *
      ((p2Values xi)[k]!).val = p.eval (t.toPhysical xi) := by
  simp [Finset.sum_range_succ, p2Nodes, p2Values, refBarycentric, Quadratic.eval, floatValue_two,
    floatValue_four]
  ring

namespace VectorP2Space

variable {m : Mesh (Exact K)} {t : Topology}

/-- On a cell of nonzero determinant, the field that interpolates `(p, q)` at the nodes is
`(p, q)` itself, at every point, inside the cell or not. -/
theorem cellValue?_interpolant (hD : t.Incidence m) {c : Nat} (hc : c < m.numCells)
    (hdet : (m.cellTriangle c).determinant.val ≠ 0) (p q : Quadratic K)
    (x : Vec2 (Exact K)) : (make m t).cellValue? m (interpolant (make m t) m p q) c x =
      some ⟨Exact.mk (p.eval x), Exact.mk (q.eval x)⟩ := by
  obtain ⟨xi, hxi⟩ : ∃ xi, (m.cellTriangle c).toReference? x = some xi :=
    Option.ne_none_iff_exists'.1 (mt (Triangle.toReference?_eq_none_iff _).1 hdet)
  have hsize : ((make m t).cellNodes[c]!).size = 6 := by
    rw [make_cellNodes hc hD.numCells_eq]
    rfl
  -- each coefficient is the polynomial at the image of a reference node
  have hnode (r : Quadratic K) (k : Nat) (hk : k < 6) :
      r.eval ((make m t).nodeCoordinates m)[((make m t).cellNodes[c]!)[k]!]! =
        r.eval ((m.cellTriangle c).toPhysical ((p2Nodes : Array (Vec2 (Exact K)))[k]!)) := by
    rw [nodeCoordinates_cellNode hD hc hk]
  rw [cellValue?_eq _ _ hsize hxi, ← (m.cellTriangle c).toPhysical_of_toReference? hxi]
  congr 1
  refine Vec2.ext_val ?_ ?_
  · rw [Exact.val_mk, Exact.val_mk, ← Quadratic.sum_eval_p2Nodes]
    refine Finset.sum_congr rfl fun k hk => ?_
    have hk6 := Finset.mem_range.1 hk
    rw [interpolant_first _ _ _ _ (make_cellNode_lt hD hc hk6), hnode p k hk6]
  · rw [Exact.val_mk, Exact.val_mk, ← Quadratic.sum_eval_p2Nodes]
    refine Finset.sum_congr rfl fun k hk => ?_
    have hk6 := Finset.mem_range.1 hk
    rw [interpolant_second _ _ _ _ (make_cellNode_lt hD hc hk6), hnode q k hk6]

end VectorP2Space

namespace FunctionEvaluator

/-- Evaluation reproduces quadratic fields. On a mesh whose cells name vertices of it and have
nonzero determinants, the evaluator of its quadratic space is built; for the field that
interpolates a pair of quadratics `(p, q)` at the nodes, evaluation at any point gives nothing
or `(p, q)` there, and it gives a value at every point of every closed cell. -/
theorem evaluate_reproduces_quadratics (m : Mesh (Exact K))
    (hdet : ∀ c < m.numCells, (m.cellTriangle c).determinant.val ≠ 0) (p q : Quadratic K) :
    ∃ e, make m (VectorP2Space.make m (Topology.ofMesh m)) = .ok e ∧ ∀ x, ∃ r,
      e.evaluate (interpolant (VectorP2Space.make m (Topology.ofMesh m)) m p q) x = .ok r ∧
      (∀ v ∈ r, v = ⟨Exact.mk (p.eval x), Exact.mk (q.eval x)⟩) ∧
      ((∃ c < m.numCells, (m.cellTriangle c).Covers x) → r.isSome) := by
  have hD := Topology.incidence_ofMesh m
  refine ⟨_, make_eq_ok _ _, fun x => ⟨_, evaluate_eq _ (interpolant_size _ _ _ _) x, ?_, ?_⟩⟩
  · intro v hv
    obtain ⟨c, hc, hv⟩ := Option.mem_bind_iff.1 hv
    have hlt := findCell_make_lt (make_eq_ok _ _) hc
    rw [VectorP2Space.cellValue?_interpolant hD hlt (hdet c hlt)] at hv
    exact (Option.mem_some_iff.1 hv).symm
  · rintro ⟨c, hc, hx⟩
    obtain ⟨c', hc'⟩ :=
      Option.isSome_iff_exists.1 (findCell_make_isSome (make_eq_ok _ _) hc hx (hdet c hc))
    have hlt := findCell_make_lt (make_eq_ok _ _) hc'
    rw [hc', Option.bind_some, VectorP2Space.cellValue?_interpolant hD hlt (hdet c' hlt)]
    rfl

theorem evaluate_reproduces_quadratics_on_unitSquare :
    (∀ c < VectorP2Space.unitSquare.numCells,
        (VectorP2Space.unitSquare.cellTriangle c).determinant.val ≠ 0) ∧
      ∃ e, make VectorP2Space.unitSquare (VectorP2Space.make VectorP2Space.unitSquare
        (Topology.ofMesh VectorP2Space.unitSquare)) = .ok e ∧ ∀ x, ∃ r,
        e.evaluate (interpolant (VectorP2Space.make VectorP2Space.unitSquare
          (Topology.ofMesh VectorP2Space.unitSquare)) VectorP2Space.unitSquare
          ⟨0, 1, 0, 0, 0, 1⟩ ⟨1, 0, 0, 0, 1, 0⟩) x = .ok r ∧
        (∀ v ∈ r, v = ⟨Exact.mk (Quadratic.eval ⟨0, 1, 0, 0, 0, 1⟩ x),
          Exact.mk (Quadratic.eval ⟨1, 0, 0, 0, 1, 0⟩ x)⟩) ∧
        ((∃ c < VectorP2Space.unitSquare.numCells,
          (VectorP2Space.unitSquare.cellTriangle c).Covers x) → r.isSome) :=
  ⟨by decide +kernel, evaluate_reproduces_quadratics VectorP2Space.unitSquare (by decide +kernel)
    ⟨0, 1, 0, 0, 0, 1⟩ ⟨1, 0, 0, 0, 1, 0⟩⟩

end FunctionEvaluator

end MixedFem
