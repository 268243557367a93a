/-
Reading what stands at a position.

`Has bytes position seg` says that the bytes hold `seg` from a position on.  Every reader gives back
what stands where it looks:

* **`Has.word`**, **`Has.number`**, **`Has.expect`**, **`Has.words`**, **`Has.text?`** — the single
  readers;
* **`Located`** — pieces whose table stands at a position, with `located_of_has`: a table and its
  pieces in the layout of the writers;
* **`readStrings_located`**, **`readBlocks_located`** — the loops over tables.
-/
import Libretto.Binary.View
import Libretto.Proofs.Container.Layout
import Libretto.Proofs.Interning
import Libretto.Proofs.Text.Utf8

namespace Libretto.Binary

open Text (untilNul)

/-- The bytes hold the given ones from a position on. -/
def Has (bytes : Bytes) (position : Nat) (seg : List UInt8) : Prop :=
  ∃ front back, bytes.toList = front ++ (seg ++ back) ∧ front.length = position

namespace Has

variable {bytes : Bytes} {position : Nat} {seg more : List UInt8}

theorem left (h : Has bytes position (seg ++ more)) : Has bytes position seg := by
  obtain ⟨front, back, split, length⟩ := h
  exact ⟨front, more ++ back, by rw [split, List.append_assoc], length⟩

theorem right (h : Has bytes position (seg ++ more)) : Has bytes (position + seg.length) more := by
  obtain ⟨front, back, split, length⟩ := h
  refine ⟨front ++ seg, back, ?_, ?_⟩
  · rw [split, List.append_assoc, List.append_assoc]
  · rw [List.length_append, length]

theorem at_position {other : Nat} (h : Has bytes position seg) (same : position = other) :
    Has bytes other seg :=
  same ▸ h

theorem size_le (h : Has bytes position seg) : position + seg.length ≤ bytes.size := by
  obtain ⟨front, back, split, length⟩ := h
  have := congrArg List.length split
  simp only [List.length_append, Array.length_toList] at this
  omega

/-- The bytes within a piece. -/
theorem getElem (h : Has bytes position seg) {i : Nat} (within : i < seg.length)
    (bound : position + i < bytes.size) : bytes[position + i] = seg[i] := by
  obtain ⟨front, back, split, length⟩ := h
  subst length
  have whole : bytes = (front ++ (seg ++ back)).toArray := by rw [← split]
  subst whole
  rw [List.getElem_toArray, List.getElem_append_right (by omega),
    List.getElem_append_left (by omega)]
  simp

/-- A word is read back. -/
theorem word {word : UInt32} (h : Has bytes position (wordBytes word)) :
    bytes.word position = .ok word := by
  have size := h.size_le
  obtain ⟨a, b, c, d, split, value⟩ := wordOfBytes_wordBytes word
  rw [split] at h size
  simp only [List.length_cons, List.length_nil] at size
  rw [Bytes.word, dif_pos size, ← value]
  have byte : ∀ i (hi : i < [a, b, c, d].length) (bound : position + i < bytes.size),
      bytes[position + i] = [a, b, c, d][i] := fun i hi bound => h.getElem hi bound
  have first := byte 0 (by simp) (by omega)
  have second := byte 1 (by simp) (by omega)
  have third := byte 2 (by simp) (by omega)
  have fourth := byte 3 (by simp) (by omega)
  simp only [Nat.add_zero] at first
  rw [first, second, third, fourth]
  rfl

/-- A number is read back, if a word can hold it. -/
theorem number {n : Nat} (h : Has bytes position (wordBytes n.toUInt32)) (small : n < 2 ^ 32) :
    bytes.number position = .ok n := by
  rw [Bytes.number, h.word]
  exact congrArg Except.ok (toNat_toUInt32 small)

theorem tag {tag : Tag} (h : Has bytes position tag.bytes) : bytes.tag position = .ok tag := by
  have size := h.size_le
  rw [Tag.length_bytes] at size
  have byte : ∀ i (hi : i < tag.bytes.length) (bound : position + i < bytes.size),
      bytes[position + i] = tag.bytes[i] := fun i hi bound => h.getElem hi bound
  have first := byte 0 (by simp) (by omega)
  have second := byte 1 (by simp) (by omega)
  have third := byte 2 (by simp) (by omega)
  have fourth := byte 3 (by simp) (by omega)
  simp only [Nat.add_zero] at first
  rw [Bytes.tag, dif_pos size, first, second, third, fourth]
  rfl

theorem expect {tag : Tag} (h : Has bytes position tag.bytes) :
    bytes.expect position tag = .ok () := by
  rw [Bytes.expect, h.tag]
  simp [bind, Except.bind, pure, Except.pure]

/-- The words of a block are read back. -/
theorem words {code : List UInt32} (h : Has bytes position (code.flatMap wordBytes)) :
    bytes.words position code.length = .ok code := by
  induction code generalizing position with
  | nil => rfl
  | cons word rest ih =>
    rw [List.flatMap_cons] at h
    have behind := h.right
    rw [length_wordBytes] at behind
    rw [List.length_cons, Bytes.words, h.left.word]
    simp only [bind, Except.bind, ih behind, pure, Except.pure]

theorem need (h : Has bytes position seg) {needed : Nat} (enough : needed ≤ seg.length) :
    bytes.need position needed = .ok () := by
  have := h.size_le
  rw [Bytes.need, if_pos (by omega)]

/-- The bytes from a position on. -/
theorem extract (h : Has bytes position seg) :
    ∃ back, bytes.extract position bytes.size = (seg ++ back).toArray := by
  obtain ⟨front, back, split, rfl⟩ := h
  have size : bytes.size - front.length = (seg ++ back).length := by
    have := congrArg List.length split
    rw [Array.length_toList, List.length_append] at this
    omega
  refine ⟨back, Array.toList_inj.1 ?_⟩
  rw [Array.toList_extract, split, List.extract_eq_take_drop, size, List.drop_left,
    List.take_length]

/-- A text with a zero byte behind it is read up to its first character of code 0. -/
theorem text? {text : String} (h : Has bytes position (text.toUTF8.toList ++ [0])) :
    bytes.text? position = some (untilNul text) := by
  obtain ⟨back, tail⟩ := h.extract
  have inside : ¬ bytes.size < position := by
    have := h.size_le
    omega
  have cut := Text.takeWhile_toUTF8 text back
  have zero : (0 : UInt8) ∈ text.toUTF8.toList ++ 0 :: back := by simp
  have whole : text.toUTF8.toList ++ [0] ++ back = text.toUTF8.toList ++ 0 :: back := by simp
  rw [whole] at tail
  -- the search is for the first zero byte, wherever it comes from
  generalize text.toUTF8.toList ++ 0 :: back = list at *
  have found : list.toArray.findIdx? (· = 0) = some (list.findIdx (· = 0)) := by
    rw [List.findIdx?_toArray]
    exact List.findIdx?_eq_some_of_exists ⟨0, zero, by simp⟩
  have upto : list.toArray.extract 0 (list.findIdx (· = 0)) = (list.takeWhile (· ≠ 0)).toArray := by
    rw [List.takeWhile_eq_take_findIdx_not]
    simp
  rw [Bytes.text?, if_neg inside, tail]
  simp only [found, upto, cut, Option.bind_eq_bind, Option.bind_some]
  exact Text.fromUTF8?_flatMap _

end Has

/-! ### Tables -/

/-- Pieces whose entries stand at a position; their offsets count from `base`. -/
inductive Located (bytes : Bytes) (base : Nat) : Nat → List Piece → Prop where
  | nil (entry : Nat) : Located bytes base entry []
  | cons {entry offset : Nat} {piece : Piece} {rest : List Piece}
      (offset_eq : Has bytes entry (wordBytes offset.toUInt32 ++ piece.entry))
      (small : offset < 2 ^ 32)
      (bytes_eq : Has bytes (base + offset) piece.bytes)
      (tail : Located bytes base (entry + 4 + piece.entry.length) rest) :
      Located bytes base entry (piece :: rest)

/-- A table locates the pieces that are placed where it says. -/
theorem located_of_has {bytes : Bytes} {base boundary entry position : Nat} {pieces : List Piece}
    (small : bytes.size < 2 ^ 32) (table : Has bytes entry (Piece.table boundary position pieces))
    (placed : Has bytes (base + position) (Piece.placed boundary position pieces)) :
    Located bytes base entry pieces := by
  induction pieces generalizing entry position with
  | nil => exact .nil entry
  | cons piece rest ih =>
    rw [Piece.table, ← List.append_assoc] at table
    rw [Piece.placed] at placed
    have here : Has bytes (base + aligned boundary position) (piece.bytes ++
        Piece.placed boundary (aligned boundary position + piece.bytes.length) rest) :=
      placed.right.at_position (by rw [gap, List.length_replicate, Nat.add_assoc]; rfl)
    have bound := here.size_le
    have behind := table.right.at_position
      (show _ = entry + 4 + piece.entry.length by
        rw [List.length_append, length_wordBytes, Nat.add_assoc])
    exact .cons table.left (by omega) here.left
      (ih behind (here.right.at_position (Nat.add_assoc _ _ _)))

/-- The strings of a list are read back, each up to its first character of code 0. -/
theorem readStrings_located {bytes : Bytes} {base entry : Nat} {strings : List String}
    (h : Located bytes base entry (strings.map textPiece)) (index : Nat) :
    readStrings bytes base entry index strings.length = .ok (strings.map untilNul) := by
  induction strings generalizing entry index with
  | nil => rfl
  | cons text rest ih =>
    obtain _ | ⟨offset_eq, small, bytes_eq, tail⟩ := h
    have behind := ih tail (index + 1)
    rw [show (textPiece text).entry.length = 0 from rfl, Nat.add_zero] at behind
    rw [List.length_cons, readStrings, offset_eq.left.number small]
    simp only [bind, Except.bind, bytes_eq.text?, behind, pure, Except.pure, List.map_cons]

/-- The blocks of a script are read back. -/
theorem readBlocks_located {bytes : Bytes} {entry : Nat} {codes : List (List UInt32)}
    (size : bytes.size < 2 ^ 32) (h : Located bytes 0 entry (codes.map codePiece)) :
    readBlocks bytes entry codes.length = .ok codes := by
  induction codes generalizing entry with
  | nil => rfl
  | cons code rest ih =>
    obtain _ | ⟨offset_eq, small, bytes_eq, tail⟩ := h
    have behind := ih tail
    rw [show (codePiece code).entry.length = 4 from rfl] at behind
    have length : code.length < 2 ^ 32 := by
      have bound := bytes_eq.size_le
      have bytes : (codePiece code).bytes.length = 4 * code.length := length_flatMap_wordBytes code
      omega
    have word : bytes.number (entry + 4) = .ok code.length :=
      Has.number (offset_eq.right.at_position (by rw [length_wordBytes])) length
    rw [List.length_cons, readBlocks, offset_eq.left.number small]
    have block := bytes_eq.words
    rw [Nat.zero_add] at block
    simp only [bind, Except.bind, word, block, behind, pure, Except.pure]

end Libretto.Binary
