/-
Tags and their attributes.

    attribute ::= key space? "=" space? quoted value

The scan of a tag is lenient: what is no attribute is skipped, and the scan goes on at a place that
depends on what was found instead. A key that has no equals sign is skipped alone; a value without
quotes, and everything behind the equals sign of a key seen before, is skipped up to the next space.

* **`attributes`** — the attributes of a tag in order, values as they are written;
* **`StartTag.ofContent`** — name and attributes of what stands between the angle brackets.
-/

namespace Libretto.Markup

/-- The characters that separate the parts of a tag. -/
def isSpace (c : Char) : Bool :=
  c = ' ' || c = '\r' || c = '\n' || c = '\t'

/-- A key and its value, without the quotes. -/
structure Attribute where
  key : List Char
  value : List Char
  deriving DecidableEq, Repr

/-- The text from its first space on. -/
def skipWord (text : List Char) : List Char :=
  text.dropWhile fun c => !isSpace c

/-- The text from its first character that is no space. -/
def skipSpace (text : List Char) : List Char :=
  text.dropWhile isSpace

theorem length_skipSpace_le (text : List Char) : (skipSpace text).length ≤ text.length :=
  (List.dropWhile_suffix _).length_le

theorem length_skipWord_le (text : List Char) : (skipWord text).length ≤ text.length :=
  (List.dropWhile_suffix _).length_le

/-- A character that ends a key. -/
def endsKey (c : Char) : Bool :=
  c = '=' || isSpace c

/-- The attributes in the rest of a tag, when the keys in `seen` came before. -/
def attributesFrom (seen : List (List Char)) (text : List Char) : List Attribute :=
  match _start : skipSpace text with
  | [] => []
  | first :: rest =>
    -- the first character belongs to the key also if it is an equals sign
    let key := first :: rest.takeWhile fun c => !endsKey c
    match _behind : skipSpace (rest.dropWhile fun c => !endsKey c) with
    | [] => []
    | sign :: value =>
      if sign ≠ '=' then attributesFrom seen (sign :: value)
      else if key ∈ seen then attributesFrom seen (skipWord value)
      else
        match _opening : skipSpace value with
        | [] => []
        | quote :: body =>
          if quote ≠ '"' && quote ≠ '\'' then
            attributesFrom (key :: seen) (skipWord (quote :: body))
          else
            match _closing : body.dropWhile (· ≠ quote) with
            | [] => []
            | _ :: next => ⟨key, body.takeWhile (· ≠ quote)⟩ :: attributesFrom (key :: seen) next
termination_by text.length
decreasing_by
  all_goals
    have h₁ := length_skipSpace_le text
    have h₂ := length_skipSpace_le (rest.dropWhile fun c => !endsKey c)
    have h₃ := (List.dropWhile_suffix (fun c => !endsKey c) : _ <:+ rest).length_le
    rw [_start] at h₁
    rw [_behind] at h₂
    simp only [List.length_cons] at h₁ h₂ ⊢
  · omega
  · have := length_skipWord_le value
    omega
  · have h₄ := length_skipSpace_le value
    have h₅ := length_skipWord_le (quote :: body)
    rw [_opening] at h₄
    omega
  · have h₄ := length_skipSpace_le value
    have h₅ := (List.dropWhile_suffix (· ≠ quote) : _ <:+ body).length_le
    rw [_opening] at h₄
    rw [_closing] at h₅
    simp only [List.length_cons] at h₄ h₅
    omega

/-- The attributes in what follows the name of a tag. -/
def attributes (text : List Char) : List Attribute :=
  attributesFrom [] text

/-- A tag that opens an element. -/
structure StartTag where
  name : List Char
  attributes : List Attribute
  deriving DecidableEq, Repr

/-- The tag with the given content: the name extends to the first space and may be empty. -/
def StartTag.ofContent (content : List Char) : StartTag :=
  ⟨content.takeWhile fun c => !isSpace c, Markup.attributes (skipWord content)⟩

/-- The value of the first attribute with a key. -/
def StartTag.value? (tag : StartTag) (key : String) : Option (List Char) :=
  (tag.attributes.find? fun a => a.key == key.toList).map Attribute.value

end Libretto.Markup
