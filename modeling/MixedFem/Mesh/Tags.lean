import MixedFem.Mesh.Basic

/-!
# Mesh tags

* `MeshTags` : sorted distinct entity indices of one dimension, each with a value;
* `MeshTags.new` : the indices sorted and deduplicated, all with one value;
* `MeshTags.merge` : the union of two tag sets of the same dimension, an index in both taking
  the value of the second;
* `MeshTags.find` : the indices with a value.
-/

namespace MixedFem

/-- Values attached to entities of one dimension. -/
structure MeshTags where
  dim : EntityDim
  entries : List (Nat × Int32)

namespace MeshTags

/-- Inserts `x` into a sorted list without duplicates. -/
def insertSorted (x : Nat) : List Nat → List Nat
  | [] => [x]
  | y :: ys => if x < y then x :: y :: ys else if x = y then y :: ys else y :: insertSorted x ys

/-- Tags with one value on the given indices. -/
def new (dim : EntityDim) (indices : List Nat) (value : Int32) : MeshTags :=
  ⟨dim, (indices.foldl (fun acc i => insertSorted i acc) []).map (·, value)⟩

/-- The sorted union of two entry lists; the second wins on a shared index. -/
def mergeEntries : List (Nat × Int32) → List (Nat × Int32) → List (Nat × Int32)
  | [], ys => ys
  | xs, [] => xs
  | x :: xs, y :: ys =>
      if x.1 < y.1 then x :: mergeEntries xs (y :: ys)
      else if y.1 < x.1 then y :: mergeEntries (x :: xs) ys
      else y :: mergeEntries xs ys

/-- The union of two tag sets of one dimension. -/
def merge (a b : MeshTags) : Except Violation MeshTags :=
  if a.dim = b.dim then .ok ⟨a.dim, mergeEntries a.entries b.entries⟩
  else .error (.unequal "Cannot merge tags of different dimensions")

/-- The indices. -/
def indices (t : MeshTags) : List Nat := t.entries.map (·.1)

/-- The values. -/
def values (t : MeshTags) : List Int32 := t.entries.map (·.2)

/-- The indices with a value. -/
def find (t : MeshTags) (value : Int32) : List Nat := (t.entries.filter (·.2 == value)).map (·.1)

end MeshTags

end MixedFem
