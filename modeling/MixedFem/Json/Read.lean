import MixedFem.Json.Value
import MixedFem.Json.Reader

/-!
# Reading JSON values

* `Json.read` : a JSON text to a value, with nothing after it but blanks. A number without
  fraction or exponent is an integer when it fits in 64 bits, unsigned or negative from `-2^63`;
  every other number is a float, rounded to nearest, and one beyond the largest float is refused.
  A member whose key repeats an earlier key replaces the earlier value in its place, and
  containers nest at most 127 deep. An error reads `<what> at line L column C`, placed as
  `Reader` places it.
-/

namespace MixedFem

namespace Json

/-- The value of a number as read: integers stay integers. -/
def ofNumber : Reader.Number → Json
  | .unsigned n => .int n
  | .signed i => .int i
  | .float x => .float x

/-- Puts a member into the members of an object: a key already present keeps its place and takes
the new value, so a later member of a repeated key wins. -/
def putMember (k : String) (v : Json) : List (String × Json) → List (String × Json)
  | [] => [(k, v)]
  | (k', v') :: ms => if k' == k then (k, v) :: ms else (k', v') :: putMember k v ms

end Json

namespace Reader

/-- Reads the members of an object with `value` until it closes; `fuel` bounds their number. -/
def members (value : Reader Json) : Nat → Bool → List (String × Json) → Reader (List (String × Json))
  | 0, _, acc => return acc
  | fuel + 1, first, acc => do
      match ← nextKey first with
      | none => return acc
      | some k =>
          colon
          let v ← value
          members value fuel false (Json.putMember k v acc)

/-- Reads a value whose containers may nest `depth - 1` more levels; `fuel`, at least the number
of bytes left, bounds the recursion. -/
def jsonValue : Nat → Nat → Reader Json
  | 0, _ => failNext "EOF while parsing a value"
  | fuel + 1, depth => do
      match ← skipBlank with
      | none => failNext "EOF while parsing a value"
      | some 110 => eat; ident [117, 108, 108]; return .null
      | some 116 => eat; ident [114, 117, 101]; return .bool true
      | some 102 => eat; ident [97, 108, 115, 101]; return .bool false
      | some 45 => eat; return Json.ofNumber (← number false)
      | some 34 => eat; return .str (← string)
      | some 91 =>
          enter depth
          let xs ← elements (jsonValue fuel (depth - 1)) fuel true []
          closeArray
          return .arr xs
      | some 123 =>
          enter depth
          let ms ← members (jsonValue fuel (depth - 1)) fuel true []
          closeObject
          return .obj ms
      | some c => if isDigit c then return Json.ofNumber (← number true) else failNext "expected value"

/-- Reads a whole text: one value and nothing after it but blanks. -/
def jsonDocument : Reader Json := do
  let v ← jsonValue ((← read).size + 1) 128
  if (← skipBlank).isSome then failNext "trailing characters"
  return v

end Reader

/-- Reads a JSON text, or says where and why it is malformed. -/
def Json.read (s : String) : Except String Json :=
  let b := s.toUTF8
  match ((Reader.jsonDocument.run b).run).run 0 with
  | (.ok v, _) => .ok v
  | (.error e, _) => .error (e.render b)

end MixedFem
