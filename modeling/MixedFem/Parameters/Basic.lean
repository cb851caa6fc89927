import MixedFem.Json.Value

/-!
# Named collections of parameters

* `ParameterValue` : a boolean, a 64-bit integer, a real, a string, or a nested collection
  (kept as its name and entries);
* `Parameters` : a name and entries in insertion order; a key is looked up at its first
  occurrence;
* `ParameterError` : a key added twice, a missing key, a value of another type than asked for,
  unreadable JSON text, or a file that could not be read;
* `Parameters.add`, `set`, `get?` : `add` refuses a present key, `set` replaces the first entry
  of the key in place or appends;
* `Parameters.typedValue` : the value of a key as one type, a missing key or a mismatch naming
  the stored type otherwise; `getBool`, `getInt`, `getReal`, `getStr`, `nested` are its
  instances;
* `Parameters.modifyNested`, `setIn` : a change made in place to the nested collection of a key,
  and setting a key inside it;
* `Parameters.typedJson` : the collection with every value tagged by its type name;
* `Parameters.byKey` : the collection as seen key by key, each entry showing the value of the
  first entry of its key;
* `Parameters.equal` : entrywise equality, reals compared as floats (so a NaN differs from
  itself);
* `Parameters.toJson`, `Parameters.toJsonText` : the stored layout
  `{"name": …, "entries": [[key, {"Variant": value}], …]}`, printed with two-space
  indentation; a real that is not finite is written `null`.
-/

namespace MixedFem

/-- The value of a parameter. -/
inductive ParameterValue where
  | bool (b : Bool)
  | int (i : Int)
  | real (x : Float)
  | str (s : String)
  /-- A nested collection: its name and its entries. -/
  | nested (name : String) (entries : List (String × ParameterValue))
  deriving Inhabited

/-- A named collection of parameters in insertion order. -/
structure Parameters where
  name : String
  entries : List (String × ParameterValue)
  deriving Inhabited

/-- Why a parameter operation failed. -/
inductive ParameterError where
  | duplicateKey (key : String)
  | missingKey (key : String)
  | typeMismatch (key expected found : String)
  /-- Unreadable JSON text, with the reader's message. -/
  | json (message : String)
  /-- A parameter file that could not be read, with the system's message. -/
  | io (message : String)

/-- The text of a parameter error. -/
def ParameterError.message : ParameterError → String
  | .duplicateKey k => s!"parameter \"{k}\" already exists"
  | .missingKey k => s!"no parameter named \"{k}\""
  | .typeMismatch k e f => s!"parameter \"{k}\" has type {f}, expected {e}"
  | .json m => "invalid parameter JSON: " ++ m
  | .io m => "parameter file I/O failed: " ++ m

/-- The text of a parameter error followed by the text of the error it wraps, if any. -/
def ParameterError.chain (e : ParameterError) : List String :=
  match e with
  | .json m | .io m => [e.message, m]
  | _ => [e.message]

namespace ParameterValue

/-- The name of the type of a value. -/
def typeName : ParameterValue → String
  | .bool _ => "bool"
  | .int _ => "int"
  | .real _ => "real"
  | .str _ => "string"
  | .nested .. => "parameters"

/-- A nested collection as a value. -/
def ofParameters (p : Parameters) : ParameterValue := .nested p.name p.entries

/-- The payload of a boolean. -/
def asBool? : ParameterValue → Option Bool
  | .bool b => some b
  | _ => none

/-- The payload of an integer. -/
def asInt? : ParameterValue → Option Int
  | .int i => some i
  | _ => none

/-- The payload of a real. -/
def asReal? : ParameterValue → Option Float
  | .real x => some x
  | _ => none

/-- The payload of a string. -/
def asStr? : ParameterValue → Option String
  | .str s => some s
  | _ => none

/-- The collection of a nested value. -/
def asParameters? : ParameterValue → Option Parameters
  | .nested n es => some ⟨n, es⟩
  | _ => none

mutual

/-- Equality of values; reals are compared as floats. -/
def equal : ParameterValue → ParameterValue → Bool
  | .bool a, .bool b => a == b
  | .int a, .int b => a == b
  | .real a, .real b => a == b
  | .str a, .str b => a == b
  | .nested n es, .nested m fs => n == m && entriesEqual es fs
  | _, _ => false

/-- Equality of entry lists, entry by entry. -/
def entriesEqual : List (String × ParameterValue) → List (String × ParameterValue) → Bool
  | [], [] => true
  | (k, v) :: es, (l, w) :: fs => k == l && equal v w && entriesEqual es fs
  | _, _ => false

end

mutual

/-- The stored layout of a value: `{"Variant": payload}`. -/
def toJson : ParameterValue → Json
  | .bool b => .obj [("Bool", .bool b)]
  | .int i => .obj [("Int", .int i)]
  | .real x => .obj [("Real", .float x)]
  | .str s => .obj [("Str", .str s)]
  | .nested n es => .obj [("Nested", .obj [("name", .str n), ("entries", .arr (entriesToJson es))])]

/-- The stored layout of entries: `[key, value]` pairs. -/
def entriesToJson : List (String × ParameterValue) → List Json
  | [] => []
  | (k, v) :: es => .arr [.str k, toJson v] :: entriesToJson es

end

mutual

/-- A value tagged with its type name: `{"type": "bool", "v": true}`, a nested collection as
`{"type": "nested", "v": {"name": …, "entries": […]}}`. -/
def typedJson : ParameterValue → Json
  | .bool b => .obj [("type", .str "bool"), ("v", .bool b)]
  | .int i => .obj [("type", .str "int"), ("v", .int i)]
  | .real x => .obj [("type", .str "real"), ("v", .float x)]
  | .str s => .obj [("type", .str "str"), ("v", .str s)]
  | .nested n es => .obj [("type", .str "nested"), ("v", .obj [("name", .str n), ("entries", .arr (typedEntries es))])]

/-- Entries as `[key, typed value]` pairs. -/
def typedEntries : List (String × ParameterValue) → List Json
  | [] => []
  | (k, v) :: es => .arr [.str k, typedJson v] :: typedEntries es

end

/-- Each entry with the value of the first entry of its key: what is seen by looking the entries
up key by key. -/
def firstByKey (es : List (String × ParameterValue)) : List (String × ParameterValue) :=
  es.map fun e => (e.1, ((es.find? (·.1 == e.1)).map (·.2)).getD e.2)

mutual

/-- A value as seen by looking up keys: in a nested collection every entry shows the value of the
first entry of its key, itself seen the same way. -/
def byKey : ParameterValue → ParameterValue
  | .nested n es => .nested n (firstByKey (entriesByKey es))
  | v => v

/-- The entries with every value seen by looking up keys. -/
def entriesByKey : List (String × ParameterValue) → List (String × ParameterValue)
  | [] => []
  | (k, v) :: es => (k, byKey v) :: entriesByKey es

end

end ParameterValue

namespace Parameters

/-- An empty collection. -/
def new (name : String) : Parameters := ⟨name, []⟩

/-- The number of entries. -/
def size (p : Parameters) : Nat := p.entries.length

/-- Whether there are no entries. -/
def isEmpty (p : Parameters) : Bool := p.entries.isEmpty

/-- The keys in order. -/
def keys (p : Parameters) : List String := p.entries.map (·.1)

/-- The value of the first entry of a key. -/
def get? (p : Parameters) (key : String) : Option ParameterValue := (p.entries.find? (·.1 == key)).map (·.2)

/-- Whether a key is present. -/
def contains (p : Parameters) (key : String) : Bool := (p.get? key).isSome

/-- Appends an entry for a key that is not present. -/
def add (p : Parameters) (key : String) (v : ParameterValue) : Except ParameterError Parameters :=
  if p.contains key then .error (.duplicateKey key) else .ok { p with entries := p.entries ++ [(key, v)] }

/-- Appends a nested collection under its own name. -/
def addNested (p q : Parameters) : Except ParameterError Parameters := p.add q.name (.ofParameters q)

/-- Replaces the first entry of a key in place. -/
def replaceFirst (key : String) (v : ParameterValue) : List (String × ParameterValue) → List (String × ParameterValue)
  | [] => []
  | (k, w) :: es => if k == key then (k, v) :: es else (k, w) :: replaceFirst key v es

/-- Replaces the value of a key, or appends it. -/
def set (p : Parameters) (key : String) (v : ParameterValue) : Parameters :=
  if p.contains key then { p with entries := replaceFirst key v p.entries }
  else { p with entries := p.entries ++ [(key, v)] }

/-- The value of a key, or the missing-key error. -/
def value (p : Parameters) (key : String) : Except ParameterError ParameterValue :=
  match p.get? key with
  | some v => .ok v
  | none => .error (.missingKey key)

/-- The value of a key as one type: `select` gives the payload of the variant named `expected`,
and any other variant is a mismatch that names it. -/
def typedValue {α : Type} (p : Parameters) (key expected : String) (select : ParameterValue → Option α) :
    Except ParameterError α := do
  let v ← p.value key
  match select v with
  | some a => pure a
  | none => throw (.typeMismatch key expected v.typeName)

/-- The boolean value of a key. -/
def getBool (p : Parameters) (key : String) : Except ParameterError Bool :=
  p.typedValue key "bool" ParameterValue.asBool?

/-- The integer value of a key. -/
def getInt (p : Parameters) (key : String) : Except ParameterError Int :=
  p.typedValue key "int" ParameterValue.asInt?

/-- The real value of a key. -/
def getReal (p : Parameters) (key : String) : Except ParameterError Float :=
  p.typedValue key "real" ParameterValue.asReal?

/-- The string value of a key. -/
def getStr (p : Parameters) (key : String) : Except ParameterError String :=
  p.typedValue key "string" ParameterValue.asStr?

/-- The nested collection of a key. -/
def nested (p : Parameters) (key : String) : Except ParameterError Parameters :=
  p.typedValue key "parameters" ParameterValue.asParameters?

/-- Changes the nested collection of `key` in place by `f`, which may fail. -/
def modifyNested (p : Parameters) (key : String) (f : Parameters → Except ParameterError Parameters) :
    Except ParameterError Parameters := do
  let q ← p.nested key
  let q' ← f q
  return { p with entries := replaceFirst key (.ofParameters q') p.entries }

/-- Sets `inner` to `v` in the nested collection of `key`. -/
def setIn (p : Parameters) (key inner : String) (v : ParameterValue) : Except ParameterError Parameters :=
  p.modifyNested key fun q => pure (q.set inner v)

/-- Renames the collection. -/
def rename (p : Parameters) (name : String) : Parameters := { p with name }

/-- The collection as seen by looking up keys: every entry shows the value of the first entry of
its key (`ParameterValue.byKey`). -/
def byKey (p : Parameters) : Parameters :=
  { p with entries := ParameterValue.firstByKey (ParameterValue.entriesByKey p.entries) }

/-- Entrywise equality. -/
def equal (p q : Parameters) : Bool := p.name == q.name && ParameterValue.entriesEqual p.entries q.entries

/-- The stored layout. -/
def toJson (p : Parameters) : Json :=
  .obj [("name", .str p.name), ("entries", .arr (ParameterValue.entriesToJson p.entries))]

/-- The collection with its values tagged by type (`ParameterValue.typedJson`). -/
def typedJson (p : Parameters) : Json :=
  .obj [("name", .str p.name), ("entries", .arr (ParameterValue.typedEntries p.entries))]

/-- The stored layout as indented text. -/
def toJsonText (p : Parameters) : String := p.toJson.pretty 0

end Parameters

end MixedFem
