import MixedFem.Proofs.Parameters.Stored
import MixedFem.Cook

/-!
# The settings of Cook's membrane as parameters

`CookConfig.toParameters` stores the material and load at the top level and the solver settings
in a nested `solver` collection; `CookConfig.fromParameters` reads them back. The counts go
through signed 64-bit integers, so a count past `2^63 - 1` wraps to a negative integer and reads
back as zero; everything else comes back as it was, directly and through the JSON text as long
as the reals are finite.

* `CookConfig.toParameters_eq` : the stored layout;
* `CookConfig.countOf_signedCount` : a count through a signed 64-bit integer;
* `CookConfig.fromParameters_toParameters` : the settings read back from their parameters;
* `CookConfig.toParameters_storable`, `CookConfig.depth_toJson_toParameters` : the layout
  reads back from its text;
* `CookConfig.fromParameters_round_trip` : all of it.
-/

namespace MixedFem.CookConfig

open ParameterValue

theorem toParameters_eq (c : CookConfig) : c.toParameters = ⟨"cook_membrane",
    [("young", .real c.young), ("poisson", .real c.poisson), ("traction_x", .real c.traction.1),
      ("traction_y", .real c.traction.2), ("cells_per_side", .int (signedCount c.cellsPerSide)),
      ("solver", .nested "solver" [("tolerance", .real c.cgTolerance),
        ("max_iter", .int (signedCount c.cgMaxIter)),
        ("monitor_convergence", .bool c.monitorConvergence)])]⟩ := rfl

theorem signedCount_bounds {n : Nat} (hn : n < 2 ^ 64) :
    -2 ^ 63 ≤ signedCount n ∧ signedCount n < 2 ^ 63 := by
  unfold signedCount
  split_ifs with h <;> simp only [Nat.pow_eq] at h ⊢ <;> omega

theorem countOf_signedCount {n : Nat} (hn : n < 2 ^ 64) :
    countOf (signedCount n) = if n < 2 ^ 63 then n else 0 := by
  unfold countOf signedCount
  split_ifs with h <;> simp only [Nat.pow_eq] at h ⊢ <;> omega

theorem fromParameters_toParameters (c : CookConfig) :
    fromParameters c.toParameters = .ok { c with
      cellsPerSide := countOf (signedCount c.cellsPerSide)
      cgMaxIter := countOf (signedCount c.cgMaxIter) } := by
  rw [toParameters_eq]
  -- the lookups compare literal keys, which the kernel decides
  simp only [fromParameters, readIfPresent, Parameters.getReal, Parameters.getInt,
    Parameters.getBool, Parameters.nested, Parameters.typedValue, Parameters.value,
    Parameters.contains, bind, Except.bind, asReal?, asInt?, asBool?, asParameters?, pure,
    Except.pure]
  rfl

theorem toParameters_storable {c : CookConfig} (hcells : c.cellsPerSide < 2 ^ 64)
    (hiter : c.cgMaxIter < 2 ^ 64)
    (hfin : c.young.isFinite = true ∧ c.poisson.isFinite = true ∧ c.traction.1.isFinite = true ∧
      c.traction.2.isFinite = true ∧ c.cgTolerance.isFinite = true) :
    EntriesStorable c.toParameters.entries := by
  rw [toParameters_eq]
  simp only [EntriesStorable, Storable]
  exact ⟨hfin.1, hfin.2.1, hfin.2.2.1, hfin.2.2.2.1, signedCount_bounds hcells,
    ⟨hfin.2.2.2.2, signedCount_bounds hiter, trivial, trivial⟩, trivial⟩

theorem depth_toJson_toParameters (c : CookConfig) : c.toParameters.toJson.depth = 8 := by
  rw [toParameters_eq]
  simp only [Parameters.toJson, entriesToJson, toJson, Json.depth, Json.listDepth,
    Json.fieldsDepth]
  rfl

/-- The settings come back from their parameters, directly and through the JSON text when their
reals are finite, with a count past `2^63 - 1` read as zero; so they come back unchanged exactly
when both counts fit in a signed 64-bit integer. -/
theorem fromParameters_round_trip (c : CookConfig) (hcells : c.cellsPerSide < 2 ^ 64)
    (hiter : c.cgMaxIter < 2 ^ 64)
    (hfin : c.young.isFinite = true ∧ c.poisson.isFinite = true ∧ c.traction.1.isFinite = true ∧
      c.traction.2.isFinite = true ∧ c.cgTolerance.isFinite = true) :
    let back : CookConfig := { c with
      cellsPerSide := if c.cellsPerSide < 2 ^ 63 then c.cellsPerSide else 0
      cgMaxIter := if c.cgMaxIter < 2 ^ 63 then c.cgMaxIter else 0 }
    fromParameters c.toParameters = .ok back ∧
      (Parameters.fromJsonText c.toParameters.toJsonText >>= fromParameters) = .ok back ∧
      (back = c ↔ c.cellsPerSide < 2 ^ 63 ∧ c.cgMaxIter < 2 ^ 63) := by
  intro back
  have hread : fromParameters c.toParameters = .ok back := by
    rw [fromParameters_toParameters, countOf_signedCount hcells, countOf_signedCount hiter]
  have htext : Parameters.fromJsonText c.toParameters.toJsonText = .ok c.toParameters :=
    Parameters.fromJsonText_toJsonText (p := c.toParameters)
      (toParameters_storable (c := c) hcells hiter hfin)
      (by rw [depth_toJson_toParameters]; omega)
  refine ⟨hread, ?_, ?_⟩
  · simp only [htext, bind, Except.bind]
    exact hread
  constructor
  · -- a count that wrapped reads as zero, below where it started
    intro h
    have hc := congrArg CookConfig.cellsPerSide h
    have hi := congrArg CookConfig.cgMaxIter h
    simp only [back] at hc hi
    constructor
    · split_ifs at hc <;> omega
    · split_ifs at hi <;> omega
  · rintro ⟨h₁, h₂⟩
    simp only [back, h₁, h₂, if_true]

/-- The settings of the round-trip test of the source: every count fits, so they come back as
they were. -/
theorem fromParameters_round_trip_on_test :
    let c : CookConfig := ⟨2.5, 0.25, (0.1, -0.2), 8, 1e-8, 500, true⟩
    c.cellsPerSide < 2 ^ 64 ∧ c.cgMaxIter < 2 ^ 64 ∧
      (c.young.isFinite = true ∧ c.poisson.isFinite = true ∧ c.traction.1.isFinite = true ∧
        c.traction.2.isFinite = true ∧ c.cgTolerance.isFinite = true) ∧
      (Parameters.fromJsonText c.toParameters.toJsonText >>= fromParameters) = .ok c :=
  ⟨by decide, by decide, by decide,
    (fromParameters_round_trip ⟨2.5, 0.25, (0.1, -0.2), 8, 1e-8, 500, true⟩ (by decide) (by decide)
      (by decide)).2.1⟩

end MixedFem.CookConfig
