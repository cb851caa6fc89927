import MixedFem.Decimal.Scientific

/-!
# Reading JSON text byte by byte

`Reader` reads the bytes of a JSON text with the offset of the next byte as its state, and
reports an error the way a strict streaming JSON reader does: a syntax error is placed at the
byte it was found at, and `ReadError.render` writes it as `<what> at line L column C`, lines
counting from one and columns counting the bytes before the place on its line.

* `peek`, `next`, `eat`, `skipBlank` : moving over bytes;
* `failHere`, `failNext`, `failLater`, `placing`, `closing` : where an error is placed;
* `ident`, `string`, `number` : literals, strings with their escapes, and numbers, read as an
  unsigned or negative integer that fits in 64 bits or else as the float nearest to the decimal
  with at most 768 significant digits kept (`significantDigits`);
  `skipStringBody`, `skipNumber` check the same syntax without building a value;
* `colon`, `nextElement`, `nextKey`, `closeArray`, `closeObject`, `enter`, `elements` : the
  steps of arrays and objects, with the trailing-comma and nesting checks made where a step
  starts.

-/

namespace MixedFem

/-- A reading error: its text and the byte offset it is reported at, once known. -/
structure ReadError where
  text : String
  offset : Option Nat

/-- A reader over the bytes of the text, with the offset of the next byte as state. Errors do
not restore the offset. -/
abbrev Reader := ReaderT ByteArray (ExceptT ReadError (StateM Nat))

namespace Reader

/-- The next byte, if any. -/
def peek : Reader (Option UInt8) := do return (← read)[← get]?

/-- Steps over one byte. -/
def eat : Reader Unit := modify (· + 1)

/-- Reads one byte, if any. -/
def next : Reader (Option UInt8) := do
  let b ← peek
  if b.isSome then eat
  return b

/-- Fails at the current offset. -/
def failHere {α : Type} (text : String) : Reader α := do throw ⟨text, some (← get)⟩

/-- Fails at the byte after the current one. -/
def failNext {α : Type} (text : String) : Reader α := do
  throw ⟨text, some (min (← read).size ((← get) + 1))⟩

/-- Fails without a place yet. -/
def failLater {α : Type} (text : String) : Reader α := throw ⟨text, none⟩

/-- Places an error that has no place yet at the current offset. -/
def placing {α : Type} (x : Reader α) : Reader α :=
  tryCatch x fun e => do
    match e.offset with
    | some _ => throw e
    | none => throw { e with offset := some (← get) }

/-- Runs `x` and reports its outcome without failing. -/
def attempt {α : Type} (x : Reader α) : Reader (Except ReadError α) :=
  tryCatch (Except.ok <$> x) fun e => pure (.error e)

/-- Runs `body` and then `close` whatever the outcome of `body`; the first failure wins. -/
def closing {α : Type} (body : Reader α) (close : Reader Unit) : Reader α := do
  let r ← attempt body
  let c ← attempt close
  match r, c with
  | .ok a, .ok () => pure a
  | .error e, _ => throw e
  | .ok _, .error e => throw e

/-- The first offset at or after `i` that is not blank. -/
def blankEnd (b : ByteArray) (i : Nat) : Nat :=
  if h : i < b.size then
    let c := b[i]
    if c == 32 || c == 10 || c == 9 || c == 13 then blankEnd b (i + 1) else i
  else i
termination_by b.size - i

/-- Skips blanks and returns the next byte. -/
def skipBlank : Reader (Option UInt8) := do
  set (blankEnd (← read) (← get))
  peek

/-- Whether a byte is a decimal digit. -/
def isDigit (c : UInt8) : Bool := 48 ≤ c && c ≤ 57

/-- Steps over digits and returns them. -/
def digitsFrom (b : ByteArray) (i : Nat) (acc : Nat) (count : Nat) : Nat × Nat × Nat :=
  if h : i < b.size then
    if isDigit b[i] then digitsFrom b (i + 1) (10 * acc + (b[i].toNat - 48)) (count + 1)
    else (i, acc, count)
  else (i, acc, count)
termination_by b.size - i

/-- The exponent digits from byte `i` on, after the digits worth `acc`: the offset after them
and the exponent, or, once the exponent would pass `2^31 - 1`, the offset just after the digit
that takes it there and `none`. -/
def exponentFrom (b : ByteArray) (i acc : Nat) : Nat × Option Nat :=
  if h : i < b.size then
    if isDigit b[i] then
      let d := b[i].toNat - 48
      if 214748364 < acc ∨ (acc = 214748364 ∧ 7 < d) then (i + 1, none)
      else exponentFrom b (i + 1) (10 * acc + d)
    else (i, some acc)
  else (i, some acc)
termination_by b.size - i

/-- Reads a run of digits: their value and their number. -/
def digits : Reader (Nat × Nat) := do
  let (i, v, n) := digitsFrom (← read) (← get) 0 0
  set i
  return (v, n)

/-- Reads the rest of a literal. -/
def ident (rest : List UInt8) : Reader Unit :=
  rest.forM fun expected => do
    match ← next with
    | none => failHere "EOF while parsing a value"
    | some c => if c != expected then failHere "expected ident"

/-- The value of a hexadecimal digit. -/
def hexValue (c : UInt8) : Option Nat :=
  if 48 ≤ c && c ≤ 57 then some (c.toNat - 48)
  else if 97 ≤ c && c ≤ 102 then some (c.toNat - 87)
  else if 65 ≤ c && c ≤ 70 then some (c.toNat - 55)
  else none

/-- Reads the four hexadecimal digits of an escape. -/
def hexEscape : Reader Nat := do
  let b ← read
  let i ← get
  if i + 4 ≤ b.size then
    set (i + 4)
    match hexValue b[i]!, hexValue b[i + 1]!, hexValue b[i + 2]!, hexValue b[i + 3]! with
    | some p, some q, some r, some s => return ((p * 16 + q) * 16 + r) * 16 + s
    | _, _, _, _ => failHere "invalid escape"
  else
    set b.size
    failHere "EOF while parsing a string"

/-- The byte after a backslash, or the end-of-string error. -/
def escapeByte : Reader UInt8 := do
  match ← next with
  | some c => return c
  | none => failHere "EOF while parsing a string"

/-- The code point of a `\u` escape, a surrogate pair taken together. -/
def unicodeEscape : Reader Nat := do
  let n ← hexEscape
  if 0xDC00 ≤ n && n ≤ 0xDFFF then failHere "lone leading surrogate in hex escape"
  if n < 0xD800 || 0xDBFF < n then return n
  let c ← match ← peek with
    | some c => pure c
    | none => failHere "EOF while parsing a string"
  eat
  if c != 92 then failHere "unexpected end of hex escape"
  let c ← match ← peek with
    | some c => pure c
    | none => failHere "EOF while parsing a string"
  eat
  if c != 117 then failHere "unexpected end of hex escape"
  let n2 ← hexEscape
  if n2 < 0xDC00 || 0xDFFF < n2 then failHere "lone leading surrogate in hex escape"
  return ((n - 0xD800) * 1024 + (n2 - 0xDC00)) + 0x10000

/-- The characters of the escape after a backslash. -/
def escape : Reader String := do
  match ← escapeByte with
  | 34 => return "\""
  | 92 => return "\\"
  | 47 => return "/"
  | 98 => return "\x08"
  | 102 => return "\x0c"
  | 110 => return "\n"
  | 114 => return "\r"
  | 116 => return "\t"
  | 117 => return (Char.ofNat (← unicodeEscape)).toString
  | _ => failHere "invalid escape"

/-- The text of a run of bytes that are valid UTF-8. -/
def utf8 (b : ByteArray) : String := (String.fromUTF8? b).getD ""

/-- Reads the rest of a string after its opening quote. -/
def stringBody : Nat → String → ByteArray → Reader String
  | 0, _, _ => failHere "EOF while parsing a string"
  | fuel + 1, acc, raw => do
      match ← peek with
      | none => failHere "EOF while parsing a string"
      | some 34 => eat; return acc ++ utf8 raw
      | some 92 => eat; stringBody fuel (acc ++ utf8 raw ++ (← escape)) ByteArray.empty
      | some c =>
          eat
          if c < 32 then failHere "control character (\\u0000-\\u001F) found while parsing a string"
          stringBody fuel acc (raw.push c)

/-- Reads a string after its opening quote. -/
def string : Reader String := do stringBody ((← read).size + 1) "" ByteArray.empty

/-- Steps over the rest of a string after its opening quote, checking its escapes. -/
def skipStringBody : Nat → Reader Unit
  | 0 => failHere "EOF while parsing a string"
  | fuel + 1 => do
      match ← peek with
      | none => failHere "EOF while parsing a string"
      | some 34 => eat
      | some 92 =>
          eat
          match ← escapeByte with
          | 34 | 92 | 47 | 98 | 102 | 110 | 114 | 116 => pure ()
          | 117 => discard hexEscape
          | _ => failHere "invalid escape"
          skipStringBody fuel
      | some c =>
          if c < 32 then failHere "control character (\\u0000-\\u001F) found while parsing a string"
          eat
          skipStringBody fuel

/-- A number as read: a non-negative integer below `2^64`, a negative one from `-2^63`, or a
float. -/
inductive Number where
  | unsigned (n : Nat)
  | signed (i : Int)
  | float (x : Float)

/-- The significant digits a number keeps. Zeros that end the fraction do not count; zeros
that end the integer part do. -/
def significantDigits : Nat := 768

/-- Reads a number after its sign: integer digits without a superfluous leading zero, then an
optional fraction with at least one digit, then an optional exponent with at least one digit.
A float is the nearest to the decimal kept by `Decimal.keepDigits significantDigits`, after the
zeros that end the fraction are dropped. -/
def number (positive : Bool) : Reader Number := do
  let c ← match ← next with
    | some c => pure c
    | none => failHere "EOF while parsing a value"
  let intPart ← if c == 48 then do
      if let some d := ← peek then
        if isDigit d then failNext "invalid number"
      pure (0, 0)
    else if isDigit c then do
      let (v, n) ← digits
      pure (v + (c.toNat - 48) * Nat.pow 10 n, n + 1)
    else failHere "invalid number"
  let (intValue, _) := intPart
  let frac ← if (← peek) == some 46 then do
      eat
      let (v, n) ← digits
      if n = 0 then
        match ← peek with
        | some _ => failNext "invalid number"
        | none => failNext "EOF while parsing a value"
      pure (some (v, n))
    else pure none
  let expo ← if (← peek) == some 101 || (← peek) == some 69 then do
      eat
      let negativeExp ← match ← peek with
        | some 43 => do eat; pure false
        | some 45 => do eat; pure true
        | _ => pure false
      let first ← match ← next with
        | some d => pure d
        | none => failHere "EOF while parsing a value"
      if !isDigit first then failHere "invalid number"
      let (i, e?) := exponentFrom (← read) (← get) (first.toNat - 48)
      set i
      match e? with
      | some e => pure (some (if negativeExp then -(e : Int) else e))
      | none =>
          if !negativeExp && (intValue ≠ 0 || (frac.getD (0, 0)).1 ≠ 0) then failHere "number out of range"
          discard digits
          return .float (if positive then 0.0 else -0.0)
    else pure none
  if frac.isNone && expo.isNone && intValue < Nat.pow 2 64 then
    if positive then return .unsigned intValue
    else if intValue = 0 then return .float (-0.0)
    else if intValue ≤ Nat.pow 2 63 then return .signed (-(intValue : Int))
    else return .float (Decimal.toFloat true intValue 0)
  let (fracValue, fracDigits) := frac.getD (0, 0)
  let (m, e) := Decimal.dropZeros fracDigits (intValue * Nat.pow 10 fracDigits + fracValue) (expo.getD 0 - fracDigits)
  let (m, e) := Decimal.keepDigits significantDigits m e
  let x := Decimal.toFloat (!positive) m e
  if x.isFinite then return .float x else failHere "number out of range"

/-- Steps over a number after its sign, checking its syntax only. -/
def skipNumber : Reader Unit := do
  match ← next with
  | some 48 =>
      if let some d := ← peek then
        if isDigit d then failNext "invalid number"
  | some c => if isDigit c then discard digits else failHere "invalid number"
  | none => failHere "invalid number"
  if (← peek) == some 46 then
    eat
    let (_, n) ← digits
    if n = 0 then failNext "invalid number"
  if (← peek) == some 101 || (← peek) == some 69 then
    eat
    if (← peek) == some 43 || (← peek) == some 45 then eat
    match ← next with
    | some d => if isDigit d then discard digits else failHere "invalid number"
    | none => failHere "invalid number"

/-- Reads the colon after a key. -/
def colon : Reader Unit := do
  match ← skipBlank with
  | some 58 => eat
  | some _ => failNext "expected `:`"
  | none => failNext "EOF while parsing an object"

/-- Closes an array. -/
def closeArray : Reader Unit := do
  match ← skipBlank with
  | some 93 => eat
  | some 44 =>
      eat
      if (← skipBlank) == some 93 then failNext "trailing comma" else failNext "trailing characters"
  | some _ => failNext "trailing characters"
  | none => failNext "EOF while parsing a list"

/-- Closes an object. -/
def closeObject : Reader Unit := do
  match ← skipBlank with
  | some 125 => eat
  | some 44 => failNext "trailing comma"
  | some _ => failNext "trailing characters"
  | none => failNext "EOF while parsing an object"

/-- Moves to the next element of an array, if there is one: `first` tells whether none has been
read yet. -/
def nextElement (first : Bool) : Reader Bool := do
  let c ← match ← skipBlank with
    | some 93 => return false
    | some 44 => if first then pure 44 else do
        eat
        match ← skipBlank with
        | some 93 => failNext "trailing comma"
        | some c => pure c
        | none => failNext "EOF while parsing a value"
    | some c => if first then pure c else failNext "expected `,` or `]`"
    | none => failNext "EOF while parsing a list"
  if c == 93 then failNext "trailing comma"
  return true

/-- Reads the next key of an object, if there is one. -/
def nextKey (first : Bool) : Reader (Option String) := do
  let c ← match ← skipBlank with
    | some 125 => return none
    | some 44 => if first then pure (some 44) else do
        eat
        skipBlank
    | some c => if first then pure (some c) else failNext "expected `,` or `\x7d`"
    | none => failNext "EOF while parsing an object"
  match c with
  | some 34 => eat; return some (← string)
  | some 125 => failNext "trailing comma"
  | some _ => failNext "key must be a string"
  | none => failNext "EOF while parsing a value"

/-- Enters a container of nesting budget `d`, failing when it is spent. -/
def enter (d : Nat) : Reader Unit := if d ≤ 1 then failNext "recursion limit exceeded" else eat

/-- Reads the elements of an array with `elem` until it closes; `fuel` bounds their number. -/
def elements {α : Type} (elem : Reader α) : Nat → Bool → List α → Reader (List α)
  | 0, _, acc => return acc.reverse
  | fuel + 1, first, acc => do
      if ← nextElement first then elements elem fuel false ((← elem) :: acc)
      else return acc.reverse

end Reader

/-- Line and column of a byte offset: lines count from one, columns count the bytes before the
offset on its line. -/
def location (b : ByteArray) (i : Nat) : Nat × Nat :=
  let before := (b.extract 0 i).toList
  let lines := before.count 10
  let lineStart := before.length - (before.reverse.takeWhile (· != 10)).length
  (1 + lines, i - lineStart)

/-- The message of a reading error. -/
def ReadError.render (b : ByteArray) (e : ReadError) : String :=
  match e.offset with
  | none => e.text
  | some i => let (l, c) := location b i; s!"{e.text} at line {l} column {c}"

end MixedFem
