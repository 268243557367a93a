/-
Texts in UTF-8.

Only the character of code 0 has a zero byte, so a zero byte behind a text marks its end unless the
text has that character.

* **`toList_toUTF8`** — the bytes of a text are those of its characters;
* **`length_le_utf8ByteSize`** — a text has no more characters than bytes;
* **`untilNul`**, **`takeWhile_toUTF8`** — the part of a text that a zero byte behind it marks;
* **`fromUTF8?_flatMap`** — the bytes of characters read as their text.
-/
import Mathlib.Data.List.TakeWhile

namespace Libretto.Text

/-- A byte array as a list. -/
theorem toList_eq_toList_data (bytes : ByteArray) : bytes.toList = bytes.data.toList := by
  have loop : ∀ (left i : Nat) (read : List UInt8), bytes.size - i = left →
      ByteArray.toList.loop bytes i read = read.reverse ++ bytes.data.toList.drop i := by
    intro left
    induction left with
    | zero =>
      intro i read h
      have past : bytes.size ≤ i := by omega
      rw [ByteArray.toList.loop, if_neg (by omega), List.drop_eq_nil_of_le, List.append_nil]
      simpa using past
    | succ left ih =>
      intro i read h
      have inside : i < bytes.size := by omega
      have within : i < bytes.data.size := inside
      have byte : bytes.get! i = bytes.data[i] := getElem!_pos bytes.data i within
      have step : bytes.data.toList.drop i = bytes.get! i :: bytes.data.toList.drop (i + 1) := by
        rw [byte]
        exact List.drop_eq_getElem_cons (by simpa using within)
      rw [ByteArray.toList.loop, if_pos inside, ih (i + 1) _ (by omega), step]
      simp
  exact loop _ 0 [] rfl

/-- The bytes of a text are those of its characters. -/
theorem toList_toUTF8 (text : String) :
    text.toUTF8.toList = text.toList.flatMap String.utf8EncodeChar := by
  rw [toList_eq_toList_data, String.toUTF8_eq_toByteArray, ← String.utf8Encode_toList,
    List.utf8Encode, List.toList_data_toByteArray]

/-- A text has no more characters than bytes. -/
theorem length_le_utf8ByteSize (text : String) : text.toList.length ≤ text.utf8ByteSize := by
  have size : text.utf8ByteSize = (text.toList.flatMap String.utf8EncodeChar).length := by
    rw [← toList_toUTF8, toList_eq_toList_data]
    rfl
  rw [size]
  generalize text.toList = chars
  induction chars with
  | nil => exact Nat.le_refl 0
  | cons c rest ih =>
    have := c.utf8Size_pos
    rw [List.flatMap_cons, List.length_append, String.length_utf8EncodeChar, List.length_cons]
    omega

theorem utf8EncodeChar_nul : String.utf8EncodeChar '\x00' = [0] := by decide

/-- No other character has a zero byte. -/
theorem zero_not_mem_utf8EncodeChar {c : Char} (h : c ≠ '\x00') :
    0 ∉ String.utf8EncodeChar c := by
  -- a byte of a longer encoding has its high bit set
  have positive : c.val.toNat ≠ 0 := fun zero => h (Char.ext (UInt32.toNat_inj.1 zero))
  have nonzero : ∀ n : Nat, 0 < n → n < 256 → (0 : UInt8) ≠ UInt8.ofNat n := by
    intro n pos lt eq
    have := congrArg UInt8.toNat eq
    simp at this
    omega
  unfold String.utf8EncodeChar
  dsimp only
  split
  · rw [List.mem_singleton]
    exact nonzero _ (by omega) (by omega)
  · split
    · simp only [List.mem_cons, List.not_mem_nil, or_false, not_or]
      exact ⟨nonzero _ (by omega) (by omega), nonzero _ (by omega) (by omega)⟩
    · split
      · simp only [List.mem_cons, List.not_mem_nil, or_false, not_or]
        exact ⟨nonzero _ (by omega) (by omega), nonzero _ (by omega) (by omega),
          nonzero _ (by omega) (by omega)⟩
      · simp only [List.mem_cons, List.not_mem_nil, or_false, not_or]
        exact ⟨nonzero _ (by omega) (by omega), nonzero _ (by omega) (by omega),
          nonzero _ (by omega) (by omega), nonzero _ (by omega) (by omega)⟩

/-- The text up to its first character of code 0. -/
def untilNul (text : String) : String :=
  .ofList (text.toList.takeWhile (· ≠ '\x00'))

/-- A text without that character is all of it. -/
theorem untilNul_eq_self {text : String} (h : '\x00' ∉ text.toList) : untilNul text = text := by
  have all : ∀ c ∈ text.toList, decide (c ≠ '\x00') = true := by
    intro c mem
    exact decide_eq_true fun nul => h (nul ▸ mem)
  rw [untilNul, List.takeWhile_eq_self_iff.2 all, String.ofList_toList]

/-- The zero byte behind a text, or one in it, ends the part up to the first character of code 0. -/
theorem takeWhile_toUTF8 (text : String) (behind : List UInt8) :
    (text.toUTF8.toList ++ 0 :: behind).takeWhile (· ≠ 0) =
      (text.toList.takeWhile (· ≠ '\x00')).flatMap String.utf8EncodeChar := by
  rw [toList_toUTF8]
  generalize text.toList = chars
  induction chars with
  | nil => simp
  | cons c rest ih =>
    by_cases nul : c = '\x00'
    · subst nul
      simp [utf8EncodeChar_nul]
    · have bytes : ∀ byte ∈ String.utf8EncodeChar c, decide (byte ≠ 0) = true := by
        intro byte mem
        exact decide_eq_true fun zero => zero_not_mem_utf8EncodeChar nul (zero ▸ mem)
      rw [List.flatMap_cons, List.append_assoc, List.takeWhile_append_of_pos bytes, ih,
        List.takeWhile_cons_of_pos (by simpa using nul), List.flatMap_cons]

/-- The bytes of characters are read as their text. -/
theorem fromUTF8?_flatMap (chars : List Char) :
    String.fromUTF8? ⟨(chars.flatMap String.utf8EncodeChar).toArray⟩ = some (.ofList chars) := by
  have bytes : (⟨(chars.flatMap String.utf8EncodeChar).toArray⟩ : ByteArray) =
      chars.utf8Encode := by
    rw [List.utf8Encode]
    exact ByteArray.ext (List.data_toByteArray).symm
  have valid : chars.utf8Encode.IsValidUTF8 := ⟨chars, rfl⟩
  rw [bytes, String.fromUTF8?, dif_pos valid]
  refine congrArg some (String.toByteArray_inj.1 ?_)
  rw [String.toByteArray_ofList]
  rfl

end Libretto.Text
