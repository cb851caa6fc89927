import MixedFem.Parameters.Basic
import MixedFem.Json.Reader
import MixedFem.Decimal.Text
import MixedFem.Quote

/-!
# Reading parameter collections from JSON text

`Parameters.fromJsonText` reads the stored layout written by `Parameters.toJsonText`, and reports
malformed text the way a strict streaming JSON reader does: a syntax error is placed at the byte
it was detected at (`at line L column C`, columns counting bytes read on the line), and an error
about a well-formed value of the wrong kind (`invalid type: …, expected …`, a missing or
repeated field, an unknown variant) is placed where the reader stood after reading that value
and closing the container around it.

What is accepted:

* the collection is an object with members `name` (a string) and `entries` (an array), in any
  order, other members being skipped after a full syntax check; or an array `[name, entries]`;
* an entry is an array `[key, value]`, a value an object with one member named `Bool`, `Int`,
  `Real`, `Str` or `Nested` whose payload is a boolean, an integer that fits in 64 bits, a number,
  a string, or a collection;
* numbers are decimal with correct rounding, and one beyond the largest float is refused; an
  exponent past `2^31 - 1` is refused as out of range for a positive exponent and a nonzero
  mantissa, and otherwise gives a signed zero;
* containers may nest at most 127 deep.
-/

namespace MixedFem

namespace Reader

/-- A well-formed value of the wrong kind, as named in messages. -/
inductive Unexpected where
  | null
  | bool (b : Bool)
  | number (n : Number)
  | str (s : String)
  | seq
  | map
  | unitVariant

/-- The description of an unexpected value. -/
def Unexpected.text : Unexpected → String
  | .null => "null"
  | .bool b => s!"boolean `{b}`"
  | .number (.unsigned n) => s!"integer `{n}`"
  | .number (.signed i) => s!"integer `{i}`"
  | .number (.float x) => "floating point `" ++ NumberStyle.data.writeFloat x ++ "`"
  | .str s => "string " ++ debugString s
  | .seq => "sequence"
  | .map => "map"
  | .unitVariant => "unit variant"

/-- The error for a value of the wrong kind. -/
def invalidType {α : Type} (u : Unexpected) (expected : String) : Reader α :=
  failLater s!"invalid type: {u.text}, expected {expected}"

/-- Reads the value at the current byte only to name it in the wrong-kind error. -/
def wrongKind {α : Type} (expected : String) : Reader α := placing do
  let u ← match (← peek).getD 0 with
    | 110 => do eat; ident [117, 108, 108]; pure Unexpected.null
    | 116 => do eat; ident [114, 117, 101]; pure (.bool true)
    | 102 => do eat; ident [97, 108, 115, 101]; pure (.bool false)
    | 45 => do eat; pure (.number (← number false))
    | 34 => do eat; pure (.str (← string))
    | 91 => pure .seq
    | 123 => pure .map
    | c => if isDigit c then do pure (.number (← number true)) else failNext "expected value"
  invalidType u expected

/-- Reads a string value. -/
def readString : Reader String := placing do
  match ← skipBlank with
  | none => failNext "EOF while parsing a value"
  | some 34 => eat; string
  | some _ => wrongKind "a string"

/-- Reads a boolean value. -/
def readBool : Reader Bool := placing do
  match ← skipBlank with
  | none => failNext "EOF while parsing a value"
  | some 116 => eat; ident [114, 117, 101]; return true
  | some 102 => eat; ident [97, 108, 115, 101]; return false
  | some _ => wrongKind "a boolean"

/-- Reads a number value. -/
def readNumber (expected : String) : Reader Number := placing do
  match ← skipBlank with
  | none => failNext "EOF while parsing a value"
  | some 45 => eat; number false
  | some c => if isDigit c then number true else wrongKind expected

/-- Reads an integer that fits in 64 bits. -/
def readInt : Reader Int := placing do
  match ← readNumber "i64" with
  | .unsigned n => if n < Nat.pow 2 63 then return n else failLater s!"invalid value: integer `{n}`, expected i64"
  | .signed i => return i
  | .float x => invalidType (.number (.float x)) "i64"

/-- Reads a number as a float. -/
def readReal : Reader Float := placing do
  match ← readNumber "f64" with
  | .unsigned n => return Decimal.toFloat false n 0
  | .signed i => return Decimal.toFloat (i < 0) i.natAbs 0
  | .float x => return x

mutual

/-- Steps over any value, checking its syntax. -/
def skipValue : Nat → Reader Unit
  | 0 => failNext "EOF while parsing a value"
  | fuel + 1 => do
      match ← skipBlank with
      | none => failNext "EOF while parsing a value"
      | some 110 => eat; ident [117, 108, 108]
      | some 116 => eat; ident [114, 117, 101]
      | some 102 => eat; ident [97, 108, 115, 101]
      | some 45 => eat; skipNumber
      | some 34 => eat; skipStringBody ((← read).size + 1)
      | some 91 =>
          eat
          match ← skipBlank with
          | none => failNext "EOF while parsing a list"
          | some 93 => eat
          | some _ => skipValue fuel; skipArrayRest fuel
      | some 123 =>
          eat
          match ← skipBlank with
          | none => failNext "EOF while parsing an object"
          | some 125 => eat
          | some 34 => skipMember fuel; skipObjectRest fuel
          | some _ => failNext "key must be a string"
      | some c => if isDigit c then skipNumber else failNext "expected value"

/-- Steps over the elements of an array after the first. -/
def skipArrayRest : Nat → Reader Unit
  | 0 => failNext "EOF while parsing a list"
  | fuel + 1 => do
      match ← skipBlank with
      | some 44 => eat; skipValue fuel; skipArrayRest fuel
      | some 93 => eat
      | some _ => failNext "expected `,` or `]`"
      | none => failNext "EOF while parsing a list"

/-- Steps over a member of an object, starting at the quote of its key. -/
def skipMember : Nat → Reader Unit
  | 0 => failNext "EOF while parsing an object"
  | fuel + 1 => do
      eat
      skipStringBody ((← read).size + 1)
      colon
      skipValue fuel

/-- Steps over the members of an object after the first. -/
def skipObjectRest : Nat → Reader Unit
  | 0 => failNext "EOF while parsing an object"
  | fuel + 1 => do
      match ← skipBlank with
      | some 44 =>
          eat
          match ← skipBlank with
          | some 34 => skipMember fuel; skipObjectRest fuel
          | some _ => failNext "key must be a string"
          | none => failNext "EOF while parsing an object"
      | some 125 => eat
      | some _ => failNext "expected `,` or `\x7d`"
      | none => failNext "EOF while parsing an object"

end

/-- The names of the variants of a value. -/
def variantNames : List String := ["Bool", "Int", "Real", "Str", "Nested"]

/-- Reads the name of a variant. -/
def variantName : Reader String := placing do
  match ← skipBlank with
  | none => failNext "EOF while parsing a value"
  | some 34 =>
      eat
      let s ← string
      if variantNames.contains s then return s
      failLater s!"unknown variant `{s}`, expected one of `Bool`, `Int`, `Real`, `Str`, `Nested`"
  | some _ => wrongKind "variant identifier"

/-- The members read so far of a collection stored as an object. -/
structure Fields where
  first : Bool
  name : Option String
  entries : Option (List (String × ParameterValue))

/-- Reads the members of a collection stored as an object, reading the entries with `entries`;
`fuel` bounds the number of members. -/
def readFields (entries : Reader (List (String × ParameterValue))) : Nat → Fields → Reader Fields
  | 0, f => return f
  | fuel + 1, f => do
      match ← nextKey f.first with
      | none => return f
      | some "name" =>
          if f.name.isSome then failLater "duplicate field `name`"
          colon
          readFields entries fuel { f with first := false, name := some (← readString) }
      | some "entries" =>
          if f.entries.isSome then failLater "duplicate field `entries`"
          colon
          readFields entries fuel { f with first := false, entries := some (← entries) }
      | some _ =>
          colon
          skipValue ((← read).size + 1)
          readFields entries fuel { f with first := false }

mutual

/-- Reads a collection. -/
def readParameters : Nat → Reader Parameters
  | 0 => failNext "recursion limit exceeded"
  | d + 1 => placing do
      match ← skipBlank with
      | none => failNext "EOF while parsing a value"
      | some 91 =>
          enter (d + 1)
          closing (do
            if !(← nextElement true) then failLater "invalid length 0, expected struct Parameters with 2 elements"
            let name ← readString
            if !(← nextElement false) then failLater "invalid length 1, expected struct Parameters with 2 elements"
            let entries ← readEntries d
            return ⟨name, entries⟩) closeArray
      | some 123 =>
          enter (d + 1)
          closing (do
            let f ← readFields (readEntries d) ((← read).size + 1) ⟨true, none, none⟩
            match f.name, f.entries with
            | none, _ => failLater "missing field `name`"
            | _, none => failLater "missing field `entries`"
            | some n, some es => return ⟨n, es⟩) closeObject
      | some _ => wrongKind "struct Parameters"

/-- Reads the array of entries. -/
def readEntries : Nat → Reader (List (String × ParameterValue))
  | 0 => failNext "recursion limit exceeded"
  | d + 1 => placing do
      match ← skipBlank with
      | none => failNext "EOF while parsing a value"
      | some 91 =>
          enter (d + 1)
          closing (elements (readEntry d) ((← read).size + 1) true []) closeArray
      | some _ => wrongKind "a sequence"

/-- Reads an entry `[key, value]`. -/
def readEntry : Nat → Reader (String × ParameterValue)
  | 0 => failNext "recursion limit exceeded"
  | d + 1 => placing do
      match ← skipBlank with
      | none => failNext "EOF while parsing a value"
      | some 91 =>
          enter (d + 1)
          closing (do
            if !(← nextElement true) then failLater "invalid length 0, expected a tuple of size 2"
            let key ← readString
            if !(← nextElement false) then failLater "invalid length 1, expected a tuple of size 2"
            return (key, ← readValue d)) closeArray
      | some _ => wrongKind "a tuple of size 2"

/-- Reads a value `{"Variant": payload}`. -/
def readValue : Nat → Reader ParameterValue
  | 0 => failNext "recursion limit exceeded"
  | d + 1 => do
      match ← skipBlank with
      | some 123 =>
          enter (d + 1)
          let name ← variantName
          colon
          let v ← match name with
            | "Bool" => ParameterValue.bool <$> readBool
            | "Int" => ParameterValue.int <$> readInt
            | "Real" => ParameterValue.real <$> readReal
            | "Str" => ParameterValue.str <$> readString
            | _ => ParameterValue.ofParameters <$> readParameters d
          match ← skipBlank with
          | some 125 => eat; return v
          | some _ => failHere "expected value"
          | none => failHere "EOF while parsing an object"
      | some 34 =>
          discard variantName
          invalidType .unitVariant "newtype variant"
      | some _ => failNext "expected value"
      | none => failNext "EOF while parsing a value"

end

/-- Reads a whole text: one collection and nothing after it but blanks. -/
def document : Reader Parameters := do
  let p ← readParameters 128
  if (← skipBlank).isSome then failNext "trailing characters"
  return p

end Reader

/-- Reads a collection from its stored JSON layout. -/
def Parameters.fromJsonText (s : String) : Except ParameterError Parameters :=
  let b := s.toUTF8
  match ((Reader.document.run b).run).run 0 with
  | (.ok p, _) => .ok p
  | (.error e, _) => .error (.json (e.render b))

end MixedFem
