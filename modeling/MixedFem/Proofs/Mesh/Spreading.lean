import MixedFem.Proofs.Mesh.Structured

/-!
# Spreading over the cells of a grid

The cells of a grid are joined along their edges: the two cells of a square share its diagonal,
and a square shares its right side with the square to its right and its top side with the square
above. So a property of the grid points that passes, in every cell, from two corners to the third
spreads from one side of a corner cell to the whole grid.

This is how rigid motions glue: a rigid motion is fixed by its values at two distinct points,
so a field that is rigid on every cell and vanishes at two corners of one cell vanishes at every
grid point.

* `Spreads Z cv` : whenever `Z` holds at two corners of the cell `cv`, it holds at all three;
* `spreads_right`, `spreads_up` : one square, from its left side or its bottom side;
* `grid_spreads` : from the first vertical side of the grid to every grid point;
* `exists_gridIndex` : every vertex of the grid is a grid point.
-/

namespace MixedFem

namespace Mesh

variable {nx ny : Nat}

/-- Whenever `Z` holds at two corners of the cell `cv`, it holds at all three. -/
def Spreads (Z : Nat → Prop) (cv : CellVertices) : Prop :=
  ∀ a < 3, ∀ b < 3, a ≠ b → Z (cv.get a) → Z (cv.get b) → ∀ k < 3, Z (cv.get k)

/-- Every vertex of the grid is a grid point. -/
theorem exists_gridIndex {v : Nat} (hv : v < (nx + 1) * (ny + 1)) :
    ∃ i ≤ nx, ∃ j ≤ ny, gridIndex nx i j = v := by
  refine ⟨v % (nx + 1), Nat.le_of_lt_succ (Nat.mod_lt _ (Nat.succ_pos nx)), v / (nx + 1), ?_, ?_⟩
  · rw [Nat.mul_comm] at hv
    exact Nat.le_of_lt_succ ((Nat.div_lt_iff_lt_mul (Nat.succ_pos nx)).2 hv)
  · exact Nat.div_add_mod v (nx + 1)

variable {Z : Nat → Prop}

/-- From the left side of square `(i, j)` to its right side: through the upper cell, which holds
the left side and the lower right corner, then through the lower cell. -/
theorem spreads_right {i j : Nat} (hl : Spreads Z (lowerCell nx (i, j)))
    (hu : Spreads Z (upperCell nx (i, j))) (h₀ : Z (gridIndex nx i j))
    (h₁ : Z (gridIndex nx i (j + 1))) :
    Z (gridIndex nx (i + 1) j) ∧ Z (gridIndex nx (i + 1) (j + 1)) := by
  have hr : Z (gridIndex nx (i + 1) j) := hu 0 (by omega) 2 (by omega) (by omega) h₁ h₀ 1 (by omega)
  exact ⟨hr, hl 0 (by omega) 2 (by omega) (by omega) h₁ hr 1 (by omega)⟩

/-- From the bottom side of square `(i, j)` to its top side. -/
theorem spreads_up {i j : Nat} (hl : Spreads Z (lowerCell nx (i, j)))
    (hu : Spreads Z (upperCell nx (i, j))) (h₀ : Z (gridIndex nx i j))
    (h₁ : Z (gridIndex nx (i + 1) j)) :
    Z (gridIndex nx i (j + 1)) ∧ Z (gridIndex nx (i + 1) (j + 1)) := by
  have ht : Z (gridIndex nx i (j + 1)) := hu 1 (by omega) 2 (by omega) (by omega) h₁ h₀ 0 (by omega)
  exact ⟨ht, (spreads_right hl hu h₀ ht).2⟩

/-- What passes from two corners to the third in every cell of the grid spreads from the first
side of the first column to every grid point. -/
theorem grid_spreads (hnx : 0 < nx) (hny : 0 < ny)
    (hcells : ∀ p ∈ squares nx ny, Spreads Z (lowerCell nx p) ∧ Spreads Z (upperCell nx p))
    (h₀ : Z (gridIndex nx 0 0)) (h₁ : Z (gridIndex nx 0 1)) :
    ∀ i ≤ nx, ∀ j ≤ ny, Z (gridIndex nx i j) := by
  have hsq : ∀ i j, i < nx → j < ny →
      Spreads Z (lowerCell nx (i, j)) ∧ Spreads Z (upperCell nx (i, j)) :=
    fun i j hi hj => hcells (i, j) (mem_squares.2 ⟨hi, hj⟩)
  -- up the first column, one side at a time
  have hcol : ∀ j < ny, Z (gridIndex nx 0 j) ∧ Z (gridIndex nx 0 (j + 1)) := by
    intro j hj
    induction j with
    | zero => exact ⟨h₀, h₁⟩
    | succ j ih =>
      obtain ⟨hj₀, hj₁⟩ := ih (by omega)
      have hr := (spreads_right (hsq 0 j hnx (by omega)).1 (hsq 0 j hnx (by omega)).2 hj₀ hj₁).2
      exact ⟨hj₁, (spreads_up (hsq 0 (j + 1) hnx hj).1 (hsq 0 (j + 1) hnx hj).2 hj₁ hr).1⟩
  -- then column after column, to the right
  intro i hi
  induction i with
  | zero =>
    intro j hj
    rcases Nat.lt_or_ge j ny with hj' | hj'
    · exact (hcol j hj').1
    · obtain rfl : j = ny := by omega
      simpa [Nat.sub_add_cancel hny] using (hcol (j - 1) (by omega)).2
  | succ i ih =>
    intro j hj
    have hprev := ih (by omega)
    rcases Nat.lt_or_ge j ny with hj' | hj'
    · exact (spreads_right (hsq i j (by omega) hj').1 (hsq i j (by omega) hj').2 (hprev j hj'.le)
        (hprev (j + 1) hj')).1
    · obtain rfl : j = ny := by omega
      have h := (spreads_right (hsq i (j - 1) (by omega) (by omega)).1
        (hsq i (j - 1) (by omega) (by omega)).2 (hprev (j - 1) (by omega))
        (by simpa [Nat.sub_add_cancel hny] using hprev j le_rfl)).2
      simpa [Nat.sub_add_cancel hny] using h

end Mesh

end MixedFem
