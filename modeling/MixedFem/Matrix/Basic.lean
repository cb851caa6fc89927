import MixedFem.Scalar

/-!
# Dense matrices

* `Matrix α` : a `rows × cols` matrix stored column by column;
* `Matrix.get`, `Matrix.set`, `Matrix.ofFn`, `Matrix.zeros`, `Matrix.fill` : entries;
* `Matrix.ofRows`, `Matrix.toRows` : from and to lists of rows;
* `Matrix.addAt`, `Matrix.subAt` : one entry updated by a sum or a difference;
* `Matrix.resize` : a new shape keeping the entries inside both shapes;
* `Matrix.swapRows`, `Matrix.transpose`, `Matrix.map`, `Matrix.allFinite`.
-/

namespace MixedFem

/-- A dense matrix, entries stored column by column. -/
structure Matrix (α : Type) where
  rows : Nat
  cols : Nat
  data : Array α
  deriving Inhabited

namespace Matrix

variable {α : Type}

/-- The shape `(rows, cols)`. -/
def shape (m : Matrix α) : Nat × Nat := (m.rows, m.cols)

/-- The matrix with entries `f i j`. -/
def ofFn (r c : Nat) (f : Nat → Nat → α) : Matrix α :=
  ⟨r, c, Array.ofFn (n := r * c) fun k => f (k.val % r) (k.val / r)⟩

/-- The `r × c` matrix with every entry `v`. -/
def fill (r c : Nat) (v : α) : Matrix α := ⟨r, c, Array.replicate (r * c) v⟩

/-- Entrywise image. -/
def map {β : Type} (f : α → β) (m : Matrix α) : Matrix β := ⟨m.rows, m.cols, m.data.map f⟩

/-- The transpose. -/
def transpose [Inhabited α] (m : Matrix α) : Matrix α :=
  ofFn m.cols m.rows fun i j => m.data[i * m.rows + j]!

/-- The matrix with the given rows, all of length `c`. -/
def ofRows [Inhabited α] (r c : Nat) (rows : Array (Array α)) : Matrix α :=
  ofFn r c fun i j => (rows[i]!)[j]!

variable [Scalar α]

/-- The entry in row `i` and column `j`; zero outside the matrix. -/
def get (m : Matrix α) (i j : Nat) : α := m.data.getD (j * m.rows + i) Scalar.zero

/-- The matrix with the entry in row `i` and column `j` replaced. -/
def set (m : Matrix α) (i j : Nat) (v : α) : Matrix α :=
  { m with data := m.data.set! (j * m.rows + i) v }

/-- The `r × c` zero matrix. -/
def zeros (r c : Nat) : Matrix α := fill r c Scalar.zero

/-- The matrix resized to `r × c` in place: the entries inside both shapes are kept, the new ones
are `v`. -/
def resize (m : Matrix α) (r c : Nat) (v : α) : Matrix α :=
  ofFn r c fun i j => if i < m.rows ∧ j < m.cols then m.get i j else v

/-- The rows as lists. -/
def toRows (m : Matrix α) : List (List α) :=
  (List.range m.rows).map fun i => (List.range m.cols).map fun j => m.get i j

/-- Column `j`. -/
def column (m : Matrix α) (j : Nat) : Array α := m.data.extract (j * m.rows) ((j + 1) * m.rows)

/-- Rows `i` and `k` exchanged in every column. -/
def swapRows (m : Matrix α) (i k : Nat) : Matrix α :=
  (List.range m.cols).foldl (fun m j =>
    let a := m.get i j
    let b := m.get k j
    (m.set i j b).set k j a) m

/-- The matrix with `x` added to the entry in row `i` and column `j`. -/
def addAt (m : Matrix α) (i j : Nat) (x : α) : Matrix α := m.set i j (m.get i j + x)

/-- The matrix with `x` subtracted from the entry in row `i` and column `j`. -/
def subAt (m : Matrix α) (i j : Nat) (x : α) : Matrix α := m.set i j (m.get i j - x)

/-- Every entry is finite. -/
def allFinite (m : Matrix α) : Bool := m.data.all Scalar.isFinite

end Matrix

end MixedFem
