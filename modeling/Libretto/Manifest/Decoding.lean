/-
Reading a manifest from JSON.

    { "opcodes": path, "units": [ { "source": path, "kind": kind, "output": path }, … ] }

Only the units and their sources are required. An object may also be written as the list of its
fields in this order, where missing ones at the end count as absent, and a kind as an object of one
key with the value null. The fault reported is the first that reading from left to right meets: an
unknown or repeated key right behind the key, a missing one at the end of the object.

* **`Decoder`** — a step that takes tokens;
* **`Manifest.ofText`** — reads a whole text.
-/
import Libretto.Manifest
import Libretto.Manifest.Error

namespace Libretto.Manifest

/-- A step that takes tokens from the front, or fails. -/
abbrev Decoder := StateT (List Token) (Except ManifestError)

namespace Decoder

/-- Fails with a fault in the text. -/
def failText {α : Type} (fault : TextFault) : Decoder α :=
  throw (.text fault)

/-- Fails with a fault in the data. -/
def failData {α : Type} (fault : DataFault) : Decoder α :=
  throw (.data fault)

/-- Takes the next token. A place that a token has to fill must not be the end. -/
def next : Decoder Token := do
  match ← get with
  | [] => failText .cutOff
  | token :: rest =>
    set rest
    return token

/-- The next token, which stays. -/
def peek : Decoder Token := do
  match ← get with
  | [] => failText .cutOff
  | token :: _ => return token

/-- Takes a token of punctuation; any other one is out of place. -/
def expect (token : Token) : Decoder Unit := do
  if (← next) ≠ token then failText .malformed

/-- Fails for a value of the wrong type that begins with a token. A broken value fails for itself,
and punctuation is no value. -/
def failType {α : Type} (expected : Expected) : Token → Decoder α
  | .scalar value => failData (.invalidType (.scalar value) expected)
  | .openBrace => failData (.invalidType .map expected)
  | .openBracket => failData (.invalidType .sequence expected)
  | .broken _ fault => failText fault
  | _ => failText .malformed

/-- Reads a value that may be null. -/
def optional {α : Type} (decode : Decoder α) : Decoder (Option α) := do
  match ← peek with
  | .scalar .null =>
    let _ ← next
    return none
  -- what begins like null can be nothing else
  | .broken 'n' fault => failText fault
  | _ => return some (← decode)

/-- Reads a path. -/
def path : Decoder Path := do
  match ← next with
  | .scalar (.string text) => return ⟨text⟩
  | token => failType .path token

/-- The kind of a name. -/
def kindOfName (name : String) : Decoder UnitKind :=
  match UnitKind.ofName? name with
  | some kind => return kind
  | none => failData (.unknownKind name)

/-- Reads a kind: its name, or an object with its name as key and the value null. -/
def kind : Decoder UnitKind := do
  match ← next with
  | .scalar (.string name) => kindOfName name
  | .broken '"' fault => failText fault
  | .openBrace =>
    match ← next with
    | .scalar (.string name) =>
      let kind ← kindOfName name
      expect .colon
      match ← next with
      | .scalar .null =>
        expect .closeBrace
        return kind
      | token => failType .nothing token
    | .broken '"' fault => failText fault
    -- only a text can be a key
    | _ => failText .malformed
  | _ => failText .malformed

/-! ### Lists -/

/-- Whether a list goes on, behind its bracket or behind an item. A comma has to be followed by an
item. -/
def hasItem (first : Bool) : Decoder Bool := do
  match ← peek with
  | .closeBracket => return false
  | .comma =>
    if first then return true
    let _ ← next
    match ← peek with
    | .closeBracket => failText .malformed
    | _ => return true
  | _ => if first then return true else failText .malformed

/-- Reads the items of a list; `room` bounds their number. -/
def items {α : Type} (decode : Decoder α) : Nat → Bool → Decoder (List α)
  | 0, _ => failText .malformed
  | room + 1, first => do
    if ← hasItem first then
      let item ← decode
      return item :: (← items decode room false)
    else
      expect .closeBracket
      return []

/-- Reads the items of a list, behind its bracket. Each takes a token at least. -/
def list {α : Type} (decode : Decoder α) : Decoder (List α) := do
  items decode ((← get).length + 1) true

/-- Reads an item of a list, if the list goes on. -/
def item? {α : Type} (first : Bool) (decode : Decoder α) : Decoder (Option α) := do
  if ← hasItem first then return some (← decode) else return none

/-! ### Objects -/

/-- Takes the next key of an object, unless the object ends. -/
def key? (first : Bool) : Decoder (Option String) := do
  let token ← peek
  if token = .closeBrace then return none
  if !first then expect .comma
  match ← next with
  | .scalar (.string key) => return some key
  | .broken '"' fault => failText fault
  | _ => failText .malformed

/-- Reads a field that has not been read yet, behind its key. -/
def field {α : Type} (name : String) (previous : Option α) (decode : Decoder α) :
    Decoder (Option α) := do
  if previous.isSome then failData (.duplicateField name)
  expect .colon
  return some (← decode)

/-- Reads the members of an object one by one; `room` bounds their number. -/
def members {σ : Type} (member : σ → String → Decoder σ) : Nat → Bool → σ → Decoder σ
  | 0, _, _ => failText .malformed
  | room + 1, first, state => do
    match ← key? first with
    | none => return state
    | some key => members member room false (← member state key)

/-- Reads the members of an object, behind its brace. Each takes a token at least. -/
def object {σ : Type} (member : σ → String → Decoder σ) (state : σ) : Decoder σ := do
  members member ((← get).length + 1) true state

/-- A field that has to be there. -/
def required {α : Type} (name : String) : Option α → Decoder α
  | some value => return value
  | none => failData (.missingField name)

/-! ### Units and manifests -/

/-- The fields of a unit read so far. -/
structure UnitFields where
  source : Option Path
  kind : Option (Option UnitKind)
  output : Option (Option Path)

/-- Reads a member of a unit. -/
def unitMember (fields : UnitFields) (key : String) : Decoder UnitFields :=
  match key with
  | "source" => return { fields with source := ← field key fields.source path }
  | "kind" => return { fields with kind := ← field key fields.kind (optional kind) }
  | "output" => return { fields with output := ← field key fields.output (optional path) }
  | key => failData (.unknownField key .unit)

/-- Reads a unit. -/
def unit : Decoder ManifestUnit := do
  match ← next with
  | .openBrace =>
    let fields ← object unitMember ⟨none, none, none⟩
    let source ← required "source" fields.source
    expect .closeBrace
    return ⟨source, fields.kind.join, fields.output.join⟩
  | .openBracket =>
    let some source ← item? true path | failData (.tooShort 0 .unit)
    let kind ← item? false (optional kind)
    let output ← item? false (optional path)
    expect .closeBracket
    return ⟨source, kind.join, output.join⟩
  | token => failType .unit token

/-- Reads the units of a manifest. -/
def units : Decoder (List ManifestUnit) := do
  match ← next with
  | .openBracket => list unit
  | token => failType .units token

/-- The fields of a manifest read so far. -/
structure ManifestFields where
  opcodes : Option (Option Path)
  units : Option (List ManifestUnit)

/-- Reads a member of a manifest. -/
def manifestMember (fields : ManifestFields) (key : String) : Decoder ManifestFields :=
  match key with
  | "opcodes" => return { fields with opcodes := ← field key fields.opcodes (optional path) }
  | "units" => return { fields with units := ← field key fields.units units }
  | key => failData (.unknownField key .manifest)

/-- Reads a manifest. -/
def manifest : Decoder Manifest := do
  match ← next with
  | .openBrace =>
    let fields ← object manifestMember ⟨none, none⟩
    let units ← required "units" fields.units
    expect .closeBrace
    return ⟨fields.opcodes.join, units⟩
  | .openBracket =>
    let opcodes ← item? true (optional path)
    let some units ← item? false units | failData (.tooShort 1 .manifest)
    expect .closeBracket
    return ⟨opcodes.join, units⟩
  | token => failType .manifest token

end Decoder

/-- Reads a manifest from its text; it has to list a unit. -/
def ofText (text : String) : Except ManifestError Manifest := do
  let (manifest, rest) ← Decoder.manifest.run (tokens text.toList)
  if !rest.isEmpty then throw (.text .malformed)
  if manifest.units.isEmpty then throw .noUnits
  return manifest

end Libretto.Manifest
