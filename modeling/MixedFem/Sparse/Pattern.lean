import MixedFem.Violation

/-!
# Sparsity patterns

* `SparsityPattern` : the shape, the offsets of each row in the column list, and the columns;
* `WordVec` : a growing array of machine words with the room reserved for it; a push into a
  full array grows the room, and room for `2^60` words or more does not fit in memory;
* `SparsityPattern.make` : a pattern from offsets and columns, if there are `nrows + 1` offsets
  (counted modulo `2^64`, as machine sizes are), the offsets start at zero,
  never decrease and end at the number of columns listed, and each row lists columns in range in
  strictly increasing order; otherwise the first `PatternError` found;
* `SparsityPattern.ofCoordinates` : the pattern of a list of `(row, column)` positions. The
  positions are sorted and freed of repeats (`sortedPositions`); room is reserved for
  `nrows + 1` offsets (a machine size, taken modulo `2^64`) and for the columns; then each
  position is checked against the shape, the rows before it are closed at the current column
  count, and its column is listed (`visit`); the rows after the last position are closed, and the
  offsets and columns go through `make`, whose refusal is a broken promise of the pass;
* `SparsityPattern.row` : the columns of a row and where they start.
-/

namespace MixedFem

/-- The positions of the stored entries of a sparse matrix, row by row. -/
structure SparsityPattern where
  nrows : Nat
  ncols : Nat
  rowOffsets : Array Nat
  colIndices : Array Nat
  deriving Inhabited

/-- Why offsets and columns do not describe a pattern, in the order the checks run. -/
inductive PatternError where
  /-- There are not `nrows + 1` offsets. -/
  | offsetCount
  /-- The first offset is not zero or the last is not the number of columns listed. -/
  | offsetEnds
  /-- A row ends before it starts. -/
  | offsetsDecrease
  /-- A column is not below `ncols`. -/
  | columnOutOfBounds
  /-- A row lists a column after a larger one. -/
  | columnsUnsorted
  /-- A row lists a column twice in a row. -/
  | duplicateColumn
  deriving DecidableEq, Repr

/-- The name under which a format error is shown. -/
def PatternError.name : PatternError → String
  | .offsetCount => "InvalidOffsetArrayLength"
  | .offsetEnds => "InvalidOffsetFirstLast"
  | .offsetsDecrease => "NonmonotonicOffsets"
  | .columnOutOfBounds => "MinorIndexOutOfBounds"
  | .columnsUnsorted => "NonmonotonicMinorIndices"
  | .duplicateColumn => "DuplicateEntry"

/-- A growing array of machine words and the room reserved for it. -/
structure WordVec where
  data : Array Nat
  room : Nat

namespace WordVec

/-- An empty array with room for `n` words. A word takes 8 bytes and the byte count must stay
below `2^63`, so room for `2^60` words or more cannot be reserved. -/
def withRoom (n : Nat) : Except Violation WordVec := do
  Violation.require (n < Nat.pow 2 60) "capacity overflow"
  return ⟨#[], n⟩

/-- Appends `x`. A full array first grows its room to twice its size, at least one more word and
at least 4 words. -/
def push (v : WordVec) (x : Nat) : Except Violation WordVec :=
  if v.data.size < v.room then .ok ⟨v.data.push x, v.room⟩
  else
    let room := max (max (2 * v.room) (v.data.size + 1)) 4
    if room < Nat.pow 2 60 then .ok ⟨v.data.push x, room⟩
    else .error (.unmet "capacity overflow")

/-- Appends `x` `k` times, one push after the other. -/
def pushN (v : WordVec) (x : Nat) : Nat → Except Violation WordVec
  | 0 => .ok v
  | k + 1 => do (← v.push x).pushN x k

end WordVec

namespace SparsityPattern

/-- Number of stored positions. -/
def nnz (p : SparsityPattern) : Nat := p.colIndices.size

/-- The start and end of row `i` in the column list. -/
def rowRange (p : SparsityPattern) (i : Nat) : Nat × Nat := (p.rowOffsets.getD i 0, p.rowOffsets.getD (i + 1) 0)

/-- The columns of row `i`. -/
def rowCols (p : SparsityPattern) (i : Nat) : Array Nat :=
  let (s, e) := p.rowRange i
  p.colIndices.extract s e

/-- Lexicographic order on positions. -/
def posLt (a b : Nat × Nat) : Bool := a.1 < b.1 || (a.1 == b.1 && a.2 < b.2)

/-- Drops repeats from a sorted array. -/
def dedupSorted (xs : Array (Nat × Nat)) : Array (Nat × Nat) :=
  xs.foldl (fun acc x => if acc.back? == some x then acc else acc.push x) #[]

/-- The positions in lexicographic order, without repeats. Positions that the order does not
separate are equal, so every sort gives this array. -/
def sortedPositions (coords : Array (Nat × Nat)) : Array (Nat × Nat) :=
  dedupSorted (coords.toList.mergeSort fun a b => !posLt b a).toArray

/-- Checks the columns of one row, left to right: each is in range, and each is larger than the
one before it. The first failing column decides the error, a range error first. -/
def checkRow (ncols : Nat) : List Nat → Option Nat → Except PatternError Unit
  | [], _ => pure ()
  | c :: rest, prev =>
      if ncols ≤ c then throw .columnOutOfBounds
      else match prev with
        | some p =>
            if c < p then throw .columnsUnsorted
            else if p = c then throw .duplicateColumn
            else checkRow ncols rest (some c)
        | none => checkRow ncols rest (some c)

/-- Checks rows `i, i+1, ...` below `nrows`. A row that ends past the column list, which the
end checks allow when a later offset is smaller, is an out-of-range slice. -/
def checkRows (ncols : Nat) (offsets cols : Array Nat) :
    Nat → Nat → Except (Failure PatternError) Unit
  | 0, _ => pure ()
  | n + 1, i => do
      let s := offsets.getD i 0
      let e := offsets.getD (i + 1) 0
      if e < s then throw (.error .offsetsDecrease)
      if cols.size < e then
        throw (.violation (.rangeEnd cols.size e))
      (checkRow ncols (cols.extract s e).toList none).mapError .error
      checkRows ncols offsets cols n (i + 1)

/-- A pattern from offsets and columns: the offsets number `nrows + 1`, start at zero and end at
the number of columns; then row by row, the row does not end before it starts and its columns
are in range and strictly increasing. -/
def make (nrows ncols : Nat) (offsets cols : Array Nat) :
    Except (Failure PatternError) SparsityPattern := do
  if offsets.size ≠ (nrows + 1) % Nat.pow 2 64 then throw (.error .offsetCount)
  if offsets.getD 0 0 ≠ 0 ∨ offsets.back? ≠ some cols.size then throw (.error .offsetEnds)
  checkRows ncols offsets cols nrows 0
  return ⟨nrows, ncols, offsets, cols⟩

/-- The state of the pass over the sorted positions: the offsets and the columns so far, and the
row of the last position. -/
structure CoordPass where
  offsets : WordVec
  cols : WordVec
  row : Nat

/-- One position `(i, j)` of the pass: it must lie inside the shape; every row from the current
one up to row `i` is closed at the current number of columns, and `j` is listed. -/
def visit (nrows ncols : Nat) (s : CoordPass) (ij : Nat × Nat) : Except Violation CoordPass := do
  Violation.require (ij.1 < nrows && ij.2 < ncols) "Coordinates must be in bounds"
  let offsets ← s.offsets.pushN s.cols.data.size (ij.1 - s.row)
  let cols ← s.cols.push ij.2
  return ⟨offsets, cols, s.row + (ij.1 - s.row)⟩

/-- A pattern that the pass built: a refusal of `make` is the panic of a broken promise. -/
def expectValid (r : Except (Failure PatternError) SparsityPattern) :
    Except Violation SparsityPattern :=
  match r with
  | .ok p => .ok p
  | .error (.error e) =>
      .error (.unmet ("Sorted and deduplicated coordinates always form a valid pattern: " ++ e.name))
  | .error (.violation v) => .error v

/-- The pattern of the given positions. -/
def ofCoordinates (nrows ncols : Nat) (coords : Array (Nat × Nat)) :
    Except Violation SparsityPattern := do
  let sorted := sortedPositions coords
  let count := (nrows + 1) % Nat.pow 2 64
  let offsets ← WordVec.withRoom count
  let cols ← WordVec.withRoom sorted.size
  let offsets ← offsets.push 0
  let s ← sorted.foldlM (visit nrows ncols) ⟨offsets, cols, 0⟩
  -- the rows after the last position are empty
  let offsets ← s.offsets.pushN s.cols.data.size (count - s.offsets.data.size)
  expectValid (make nrows ncols offsets.data s.cols.data)

end SparsityPattern

end MixedFem
