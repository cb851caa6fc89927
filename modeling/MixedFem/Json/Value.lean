import MixedFem.Decimal.Text

/-!
# JSON values and their text

* `Json` : a JSON value; integers and floats are kept apart, and object members keep their
  order;
* `Json.quote` : a string literal, escaping quotes, backslashes and control characters;
* `Json.compact` : the text on one line, non-finite floats written as the strings `"NaN"`,
  `"inf"` and `"-inf"`;
* `Json.pretty` : the text indented by two spaces per level, `"key": value` members, empty
  containers as `[]` and `{}`, non-finite floats written as `null`;
* `Json.compactTo`, `Json.prettyTo` : the same texts appended to a buffer, so that a long
  array is written in time linear in its length.
* `Json.get?`, `Json.field?` : members by key and elements by index.
-/

namespace MixedFem

/-- A JSON value. -/
inductive Json where
  | null
  | bool (b : Bool)
  | int (i : Int)
  | float (x : Float)
  | str (s : String)
  | arr (xs : List Json)
  | obj (fields : List (String × Json))
  deriving Inhabited

namespace Json

/-- The hexadecimal digit of `n < 16`, in lower case. -/
def hexDigit (n : Nat) : Char :=
  if n < 10 then Char.ofNat (48 + n) else Char.ofNat (87 + n)

/-- The escaped form of one character inside a string literal. -/
def escapeChar (c : Char) : String :=
  if c = '"' then "\\\""
  else if c = '\\' then "\\\\"
  else if c = '\n' then "\\n"
  else if c = '\r' then "\\r"
  else if c = '\t' then "\\t"
  else if c.toNat = 8 then "\\b"
  else if c.toNat = 12 then "\\f"
  else if c.toNat < 32 then
    "\\u00" ++ String.singleton (hexDigit (c.toNat / 16)) ++ String.singleton (hexDigit (c.toNat % 16))
  else String.singleton c

/-- A string literal. -/
def quote (s : String) : String :=
  "\"" ++ String.join (s.toList.map escapeChar) ++ "\""

/-- The text of a float inside data: the shortest digits, or for a value that is not finite
the given text. -/
def floatText (x : Float) (nonFinite : String → String) : String :=
  if x.isFinite then NumberStyle.data.writeFloat x else nonFinite (NumberStyle.data.writeFloat x)

mutual

/-- `out` followed by the text of a value on one line. -/
def compactTo (out : String) : Json → String
  | .null => out ++ "null"
  | .bool b => out ++ (if b then "true" else "false")
  | .int i => out ++ toString i
  | .float x => out ++ floatText x quote
  | .str s => out ++ quote s
  | .arr xs => (compactListTo (out.push '[') xs).push ']'
  | .obj fs => (compactFieldsTo (out.push '\x7b') fs).push '\x7d'

/-- `out` followed by elements separated by commas. -/
def compactListTo (out : String) : List Json → String
  | [] => out
  | [x] => compactTo out x
  | x :: xs => compactListTo ((compactTo out x).push ',') xs

/-- `out` followed by members separated by commas. -/
def compactFieldsTo (out : String) : List (String × Json) → String
  | [] => out
  | [(k, v)] => compactTo (out ++ quote k ++ ":") v
  | (k, v) :: fs => compactFieldsTo ((compactTo (out ++ quote k ++ ":") v).push ',') fs

end

/-- The text on one line. -/
def compact (j : Json) : String := compactTo "" j

/-- Two spaces per level. -/
def indent (depth : Nat) : String := String.ofList (List.replicate (2 * depth) ' ')

mutual

/-- `out` followed by the indented text of a value that starts at nesting `depth`. -/
def prettyTo (out : String) (depth : Nat) : Json → String
  | .null => out ++ "null"
  | .bool b => out ++ (if b then "true" else "false")
  | .int i => out ++ toString i
  | .float x => out ++ floatText x (fun _ => "null")
  | .str s => out ++ quote s
  | .arr [] => out ++ "[]"
  | .arr xs => prettyListTo (out ++ "[\n") (depth + 1) xs ++ "\n" ++ indent depth ++ "]"
  | .obj [] => out ++ "\x7b\x7d"
  | .obj fs => prettyFieldsTo (out ++ "\x7b\n") (depth + 1) fs ++ "\n" ++ indent depth ++ "\x7d"

/-- `out` followed by elements, one per line at nesting `depth`. -/
def prettyListTo (out : String) (depth : Nat) : List Json → String
  | [] => out
  | [x] => prettyTo (out ++ indent depth) depth x
  | x :: xs => prettyListTo (prettyTo (out ++ indent depth) depth x ++ ",\n") depth xs

/-- `out` followed by members, one per line at nesting `depth`. -/
def prettyFieldsTo (out : String) (depth : Nat) : List (String × Json) → String
  | [] => out
  | [(k, v)] => prettyTo (out ++ indent depth ++ quote k ++ ": ") depth v
  | (k, v) :: fs =>
      prettyFieldsTo (prettyTo (out ++ indent depth ++ quote k ++ ": ") depth v ++ ",\n") depth fs

end

/-- The indented text of a value that starts at nesting `depth`. -/
def pretty (depth : Nat) (j : Json) : String := prettyTo "" depth j

/-- The member of an object with the given key, the first if several. -/
def field? (j : Json) (key : String) : Option Json :=
  match j with
  | .obj fs => (fs.find? (·.1 == key)).map (·.2)
  | _ => none

/-- The element of an array at index `i`. -/
def get? (j : Json) (i : Nat) : Option Json :=
  match j with
  | .arr xs => xs[i]?
  | _ => none

end Json

end MixedFem
