/-
Containers of the layout are read back.

Every reader needs only that the container stands at the first byte and that a word can hold every
position; what follows the container is ignored.

* **`readHeader_container`** — the kind and the bytes that the container has as its own;
* **`readStringList_container`** — its strings, each up to its first character of code 0;
* **`ofBytes_scriptContainer`**, **`view_scriptContainer`** — a script container has the code of its
  blocks and its strings.
-/
import Libretto.Proofs.Container.Reading

namespace Libretto.Binary

open Text (untilNul)
open Writer (padding)

/-- A list of bytes holds itself. -/
theorem has_toArray (list : List UInt8) : Has list.toArray 0 list :=
  ⟨[], [], by simp, rfl⟩

/-! ### Parts of a container -/

section

variable {bytes : Bytes} {kind : Tag} {chunks : List UInt8} {strings : List String}

/-- The header of a container, and what stands behind it. -/
theorem container_split (kind : Tag) (chunks : List UInt8) (strings : List String) :
    ∃ locator tail,
      container kind chunks strings =
        kind.bytes ++ (wordBytes 0 ++
          (wordBytes (container kind chunks strings).length.toUInt32 ++
            (wordBytes headerSize.toUInt32 ++ (wordBytes locator ++
              (wordBytes 0 ++ (chunks ++ tail)))))) ∧
      (strings = [] ∧ locator = 0 ∨
        strings ≠ [] ∧ locator = (aligned alignment (headerSize + chunks.length)).toUInt32 ∧
          tail = gap alignment (headerSize + chunks.length) ++ stringList strings) := by
  let locator : UInt32 := if strings = [] then 0 else
    (aligned alignment (headerSize + chunks.length)).toUInt32
  let tail := if strings = [] then [] else
    gap alignment (headerSize + chunks.length) ++ stringList strings
  have length : (container kind chunks strings).length =
      headerSize + chunks.length + tail.length := by
    simp only [container, List.length_append, length_wordBytes, Tag.length_bytes, tail, headerSize]
    omega
  refine ⟨locator, tail, ?_, ?_⟩
  · rw [length]
    rfl
  · by_cases none : strings = []
    · exact .inl ⟨none, if_pos none⟩
    · exact .inr ⟨none, if_neg none, if_neg none⟩

theorem headerSize_le_length_container (kind : Tag) (chunks : List UInt8) (strings : List String) :
    headerSize ≤ (container kind chunks strings).length := by
  simp only [container, List.length_append, length_wordBytes, Tag.length_bytes, headerSize]
  omega

/-- A container holds an entry for each of its strings. -/
theorem le_length_container (kind : Tag) (chunks : List UInt8) (strings : List String) :
    4 * strings.length ≤ (container kind chunks strings).length := by
  by_cases none : strings = []
  · simp [none]
  · have listed := le_length_stringList strings
    simp only [container, if_neg none, List.length_append]
    omega

/-- The header of a container is read, whatever stands behind the container. -/
theorem readHeader_container (back : List UInt8)
    (small : (container kind chunks strings).length < 2 ^ 32) :
    readHeader (container kind chunks strings ++ back).toArray =
      .ok (kind, (container kind chunks strings).toArray) := by
  obtain ⟨locator, tail, split, -⟩ := container_split kind chunks strings
  have header := headerSize_le_length_container kind chunks strings
  have whole : Has (container kind chunks strings ++ back).toArray 0
      (container kind chunks strings) := (has_toArray _).left
  have room : Bytes.need (container kind chunks strings ++ back).toArray 0 headerSize = .ok () :=
    whole.need header
  have own : Bytes.need (container kind chunks strings ++ back).toArray 0
      (container kind chunks strings).length = .ok () := whole.need (Nat.le_refl _)
  have cut : (container kind chunks strings ++ back).toArray.extract 0
      (container kind chunks strings).length = (container kind chunks strings).toArray := by
    rw [List.extract_toArray, List.extract_eq_take_drop, List.drop_zero, Nat.sub_zero,
      List.take_left]
  generalize container kind chunks strings ++ back = all at *
  generalize (container kind chunks strings).length = length at *
  rw [split] at whole
  have tag : Bytes.tag all.toArray 0 = .ok kind := whole.left.tag
  have size : Bytes.number all.toArray 8 = .ok length := whole.right.right.left.number small
  have found : Bytes.word all.toArray 12 = .ok headerSize.toUInt32 :=
    whole.right.right.right.left.word
  rw [readHeader, room]
  simp only [bind, Except.bind, tag, found, size, own, cut]
  rfl

/-- The chunks of a container stand behind its header. -/
theorem has_chunks (whole : Has bytes 0 (container kind chunks strings)) :
    Has bytes headerSize chunks := by
  obtain ⟨locator, tail, split, -⟩ := container_split kind chunks strings
  rw [split] at whole
  exact whole.right.right.right.right.right.right.left

/-- The strings of a container are read back. -/
theorem readStringList_container (small : bytes.size < 2 ^ 32)
    (whole : Has bytes 0 (container kind chunks strings)) :
    readStringList bytes = .ok (strings.map untilNul) := by
  obtain ⟨locator, tail, split, list⟩ := container_split kind chunks strings
  rw [split] at whole
  have word : bytes.word 16 = .ok locator := whole.right.right.right.right.left.word
  rcases list with ⟨rfl, rfl⟩ | ⟨some, rfl, rfl⟩
  · rw [readStringList, Bytes.number, word]
    rfl
  · have behind := whole.right.right.right.right.right.right.right
    have here : Has bytes (aligned alignment (headerSize + chunks.length)) (stringList strings) :=
      behind.right.at_position (by
        simp only [gap, aligned, List.length_replicate, length_wordBytes, Tag.length_bytes,
          headerSize])
    -- a list never stands at 0, which would say that there is none
    have positive : aligned alignment (headerSize + chunks.length) ≠ 0 := by
      rw [aligned, headerSize]
      omega
    generalize aligned alignment (headerSize + chunks.length) = base at *
    have bound := here.size_le
    have lengths := le_length_stringList strings
    rw [stringList] at here
    have number : bytes.number 16 = .ok base := by
      rw [Bytes.number, word]
      exact congrArg Except.ok (toNat_toUInt32 (by omega))
    have count : bytes.number (base + 4) = .ok strings.length :=
      here.right.left.number (by omega)
    have table := here.right.right.left
    have room : bytes.need (base + 8) (strings.length * 4) = .ok () := by
      rw [Bytes.need, if_pos (by omega)]
    have located : Located bytes base (base + 8) (strings.map textPiece) := by
      refine located_of_has small table ?_
      refine here.right.right.right.at_position ?_
      rw [← Piece.length_openTable, openTable_textPieces, List.length_replicate]
      simp only [length_wordBytes, Tag.length_bytes]
      omega
    rw [readStringList, number]
    simp only [bind, Except.bind, if_neg positive, here.left.expect, count, room]
    exact readStrings_located located 0

/-- The blocks of a script container are read back, and its strings. -/
theorem ofBytes_scriptContainer {codes : List (List UInt32)} (small : bytes.size < 2 ^ 32)
    (whole : Has bytes 0 (scriptContainer codes strings)) :
    ScriptView.ofBytes bytes = .ok ⟨codes, strings.map untilNul⟩ := by
  have list := readStringList_container small whole
  have chunks := has_chunks whole
  have bound := chunks.size_le
  rw [scriptChunks] at chunks bound
  simp only [List.length_append, length_wordBytes, Tag.length_bytes, ← Piece.length_openTable,
    length_openTable_codes, gap, List.length_replicate] at bound
  have tag := chunks.left.expect
  have count : bytes.number (headerSize + 4) = .ok codes.length :=
    chunks.right.left.number (by omega)
  have room : bytes.need (headerSize + 12) (codes.length * 8) = .ok () := by
    rw [Bytes.need, if_pos (by omega)]
  have body : bytes.number (headerSize + 8) =
      .ok (aligned alignment (scriptTableEnd codes.length)) :=
    chunks.right.right.left.number (by
      rw [aligned]
      generalize padding alignment (scriptTableEnd codes.length) = zeros at *
      rw [scriptTableEnd]
      omega)
  have table := chunks.right.right.right.left
  have behind := chunks.right.right.right.right.right
  have start : headerSize + Tag.info.bytes.length + (wordBytes codes.length.toUInt32).length +
      (wordBytes (aligned alignment (scriptTableEnd codes.length)).toUInt32).length +
      (Piece.table alignment (aligned alignment (scriptTableEnd codes.length) + 4)
        (codes.map codePiece)).length + (gap alignment (scriptTableEnd codes.length)).length =
      aligned alignment (scriptTableEnd codes.length) := by
    simp only [length_wordBytes, Tag.length_bytes, ← Piece.length_openTable,
      length_openTable_codes, gap, List.length_replicate, aligned, scriptTableEnd]
  rw [start] at behind
  -- offsets of blocks count from the first byte, those of strings from their list
  have located : Located bytes 0 (headerSize + 12) (codes.map codePiece) := by
    refine located_of_has small table (behind.right.at_position ?_)
    rw [Tag.length_bytes, Nat.zero_add]
  rw [ScriptView.ofBytes, tag]
  simp only [bind, Except.bind, count, room, body, behind.left.expect,
    readBlocks_located small located, list]
  rfl

/-- A script container by itself is read back. -/
theorem view_scriptContainer {codes : List (List UInt32)}
    (small : (scriptContainer codes strings).length < 2 ^ 32) :
    View.ofBytes (scriptContainer codes strings).toArray =
      .ok (.script ⟨codes, strings.map untilNul⟩) := by
  have header : readHeader (scriptContainer codes strings).toArray =
      .ok (.script, (scriptContainer codes strings).toArray) := by
    have header := readHeader_container [] small
    rwa [List.append_nil] at header
  have view : ScriptView.ofBytes (scriptContainer codes strings).toArray =
      .ok ⟨codes, strings.map untilNul⟩ := ofBytes_scriptContainer small (has_toArray _)
  rw [View.ofBytes, header]
  simp only [bind, Except.bind, view]
  rfl

end

end Libretto.Binary
