/-
Writing pieces and their table.

Blocks, snippets and strings are written by one loop: pad, fill the next entry of the table with the
offset that is reached, write the piece.

* **`writePiecesBy`** — the loop, with `writePieces_writes`: it fills the table and places the
  pieces;
* **`writeStringsBy_eq`**, **`writeBlocksBy_eq`**, **`writeSnippetsBy_eq`** — the loops of
  containers are this one, by whatever rule offsets are counted;
* **`writes_entries`**, **`writes_reserveMany`** — the tables that they fill.
-/
import Libretto.Binary.DramaLayout
import Libretto.Proofs.Container.Layout
import Libretto.Proofs.Container.Writing
import Mathlib.Data.List.Forall2

namespace Libretto.Binary

open Writer Script

/-- Writes pieces, each at a multiple of a boundary, and their offsets from `top` into the entries
of a table. -/
def writePiecesBy (rule : Nat → Writer UInt32) (boundary top : Nat) :
    List (Writer Unit × Nat) → Writer Unit
  | [] => return
  | (write, entry) :: rest => do
    align boundary
    patchHereBy rule entry top
    write
    writePiecesBy rule boundary top rest

/-- A step that writes the bytes of a piece at an aligned position. -/
def WritesPiece (front : List UInt8) (boundary : Nat) (write : Writer Unit) (piece : Piece) :
    Prop :=
  ∀ before : List UInt8, (front.length + before.length) % boundary = 0 →
    Writes front write before () (before ++ piece.bytes)

theorem add_padding_mod {boundary : Nat} (positive : 0 < boundary) (position : Nat) :
    (position + padding boundary position) % boundary = 0 := by
  have lt := Nat.mod_lt position positive
  have split := Nat.div_add_mod position boundary
  rw [padding]
  by_cases h : position % boundary = 0
  · rw [if_pos h, Nat.add_zero, h]
  · have whole : position + (boundary - position % boundary) =
        boundary * (position / boundary + 1) := by
      rw [Nat.mul_add, Nat.mul_one]
      omega
    rw [if_neg h, whole, Nat.mul_mod_right]

/-- Padding behind a known number of bytes. -/
theorem writes_gap {front before : List UInt8} {boundary written : Nat}
    (top : front.length % boundary = 0) (length : before.length = written) :
    Writes front (align boundary) before () (before ++ gap boundary written) :=
  length ▸ writes_align top

/-- The loop fills the open table and places the pieces behind what was written. -/
theorem writePieces_writes {front : List UInt8} {boundary : Nat} (positive : 0 < boundary)
    (top : front.length % boundary = 0) {writes : List (Writer Unit)} {pieces : List Piece}
    (h : List.Forall₂ (WritesPiece front boundary) writes pieces) (before behind : List UInt8) :
    Writes front
      (writePiecesBy offsetFrom boundary front.length
        (writes.zip (Piece.entries (front.length + before.length) pieces)))
      (before ++ (Piece.openTable pieces ++ behind)) ()
      (before ++ (Piece.table boundary
          (before ++ (Piece.openTable pieces ++ behind)).length pieces ++
        (behind ++ Piece.placed boundary
          (before ++ (Piece.openTable pieces ++ behind)).length pieces))) := by
  -- `before` takes in every entry that is filled, `behind` every piece that is placed
  induction h generalizing before behind with
  | nil =>
    simp only [Piece.openTable, Piece.table, Piece.placed, List.nil_append, List.append_nil]
    exact writes_pure ()
  | @cons write piece writes pieces hwrite _ ih =>
    let start := before ++ (Piece.openTable (piece :: pieces) ++ behind)
    let at_ := aligned boundary start.length
    let back := piece.entry ++ (Piece.openTable pieces ++ (behind ++ gap boundary start.length))
    have start_eq : start ++ gap boundary start.length = before ++ (wordBytes 0 ++ back) := by
      simp only [start, back, Piece.openTable, List.append_assoc]
    have length_eq : (before ++ (wordBytes 0 ++ back)).length = at_ := by
      rw [← start_eq, List.length_append, gap, List.length_replicate]
      rfl
    have padded : Writes front (align boundary) start () (before ++ (wordBytes 0 ++ back)) :=
      start_eq ▸ writes_align top
    have patched : Writes front (patchHere (front.length + before.length) front.length)
        (before ++ (wordBytes 0 ++ back)) () (before ++ (wordBytes at_.toUInt32 ++ back)) :=
      length_eq ▸ writes_patchHere rfl (length_wordBytes 0)
    have placed : Writes front write (before ++ (wordBytes at_.toUInt32 ++ back)) ()
        ((before ++ (wordBytes at_.toUInt32 ++ piece.entry)) ++
          (Piece.openTable pieces ++ (behind ++ (gap boundary start.length ++ piece.bytes)))) := by
      have same : (before ++ (wordBytes at_.toUInt32 ++ back)).length = at_ := by
        rw [← length_eq]
        simp only [List.length_append, length_wordBytes]
      -- the front is aligned, so the offset from it decides
      have on_boundary := add_padding_mod positive start.length
      have written := hwrite (before ++ (wordBytes at_.toUInt32 ++ back)) (by
        rw [same, Nat.add_mod, top, Nat.zero_add, Nat.mod_mod]
        exact on_boundary)
      simpa only [back, List.append_assoc] using written
    have rest := ih (before ++ (wordBytes at_.toUInt32 ++ piece.entry))
      (behind ++ (gap boundary start.length ++ piece.bytes))
    have entry_eq : front.length + (before ++ (wordBytes at_.toUInt32 ++ piece.entry)).length =
        front.length + before.length + 4 + piece.entry.length := by
      simp only [List.length_append, length_wordBytes]
      omega
    have next_eq : ((before ++ (wordBytes at_.toUInt32 ++ piece.entry)) ++
        (Piece.openTable pieces ++ (behind ++ (gap boundary start.length ++ piece.bytes)))).length =
          at_ + piece.bytes.length := by
      rw [← length_eq]
      simp only [back, List.length_append, length_wordBytes]
      omega
    rw [entry_eq, next_eq] at rest
    have all := padded.seq (patched.seq (placed.seq rest))
    simp only [Piece.table, Piece.placed, List.append_assoc] at all ⊢
    exact all

/-! ### The loops of containers -/

theorem align_one : align 1 = pure () := by
  funext stream
  have none : padding 1 stream.bytes.toList.length = 0 := by rw [padding, if_pos (Nat.mod_one _)]
  have same : stream = .ofList stream.bytes.toList := rfl
  rw [same, align_apply, none, List.replicate_zero, List.append_nil]
  rfl

theorem entries_eq_range' {pieces : List Piece} (h : ∀ piece ∈ pieces, piece.entry = [])
    (position : Nat) : Piece.entries position pieces = List.range' position pieces.length 4 := by
  induction pieces generalizing position with
  | nil => rfl
  | cons piece rest ih =>
    rw [List.forall_mem_cons] at h
    rw [Piece.entries, ih h.2, h.1, List.length_cons, List.range'_succ]
    rfl

variable (rule : Nat → Writer UInt32)

theorem writeStringsBy_eq (base entry : Nat) (strings : List String) :
    writeStringsBy rule base entry strings =
      writePiecesBy rule 1 base ((strings.map fun text => writeBytes (textPiece text).bytes).zip
        (Piece.entries entry (strings.map textPiece))) := by
  induction strings generalizing entry with
  | nil => rfl
  | cons text rest ih =>
    rw [writeStringsBy, ih, List.map_cons, List.map_cons, Piece.entries, List.zip_cons_cons,
      writePiecesBy, align_one, pure_bind]
    rfl

theorem writeBlocksBy_eq (top : Nat) (ids : WriteIds) (blocks : List Block) (entries : List Nat) :
    writeBlocksBy rule top ids (blocks.zip entries) =
      writePiecesBy rule alignment top ((blocks.map (writeBlock ids)).zip entries) := by
  induction blocks generalizing entries with
  | nil => rfl
  | cons block rest ih =>
    cases entries with
    | nil => rfl
    | cons entry entries =>
      rw [List.zip_cons_cons, writeBlocksBy, ih, List.map_cons, List.zip_cons_cons, writePiecesBy]

theorem writeSnippetsBy_eq (top : Nat) (units : List ScriptUnit) (entries : List Nat) :
    writeSnippetsBy rule top (units.zip entries) =
      writePiecesBy rule alignment top
        ((units.map fun unit => (ofScriptBy rule unit).writeBy rule).zip entries) := by
  induction units generalizing entries with
  | nil => rfl
  | cons unit rest ih =>
    cases entries with
    | nil => rfl
    | cons entry entries =>
      rw [List.zip_cons_cons, writeSnippetsBy, ih, List.map_cons, List.zip_cons_cons, writePiecesBy]

/-- Snippets are written as they are by themselves. -/
theorem writeSnippets_eq (top : Nat) (units : List ScriptUnit) (entries : List Nat) :
    writeSnippetsBy offsetFrom top (units.zip entries) =
      writePiecesBy offsetFrom alignment top
        ((units.map fun unit => (ofScript unit).write).zip entries) :=
  writeSnippetsBy_eq offsetFrom top units entries

/-! ### The tables -/

variable {front : List UInt8} (before : List UInt8)

/-- The entries of blocks whose codes have the given lengths. -/
theorem writes_entries {blocks : List Block} {codes : List (List UInt32)}
    (h : blocks.map (·.code.size) = codes.map List.length) :
    Writes front (writeEntries blocks) before
      (Piece.entries (front.length + before.length) (codes.map codePiece))
      (before ++ Piece.openTable (codes.map codePiece)) := by
  induction blocks generalizing codes before with
  | nil =>
    obtain rfl := List.map_eq_nil_iff.1 h.symm
    rw [List.map_nil, Piece.openTable, List.append_nil]
    exact writes_pure _
  | cons block rest ih =>
    cases codes with
    | nil => cases h
    | cons code codes =>
      obtain ⟨size, h⟩ : block.code.size = code.length ∧
          rest.map (·.code.size) = codes.map List.length := List.cons.inj h
      have entry_eq : front.length + (before ++ wordBytes 0 ++
          wordBytes code.length.toUInt32).length = front.length + before.length + 4 + 4 := by
        simp only [List.length_append, length_wordBytes]
        omega
      have behind := ih (before ++ wordBytes 0 ++ wordBytes code.length.toUInt32) h
      rw [entry_eq, List.append_assoc, List.append_assoc] at behind
      rw [writeEntries, List.map_cons, Piece.openTable, Piece.entries, size]
      refine writes_reserve.bind ?_
      refine (writes_count _).seq ?_
      rw [List.append_assoc]
      exact behind.bind (writes_pure _)

/-- Words that are reserved in a row. -/
theorem writes_reserveMany (count : Nat) :
    Writes front (reserveMany count) before
      (List.range' (front.length + before.length) count 4)
      (before ++ (List.replicate count (wordBytes 0)).flatten) := by
  induction count generalizing before with
  | zero =>
    rw [List.replicate_zero, List.flatten_nil, List.append_nil]
    exact writes_pure _
  | succ count ih =>
    have entry_eq : front.length + (before ++ wordBytes 0).length =
        front.length + before.length + 4 := by
      simp only [List.length_append, length_wordBytes]
      omega
    have behind := ih (before ++ wordBytes 0)
    rw [entry_eq, List.append_assoc] at behind
    rw [reserveMany, List.range'_succ, List.replicate_succ, List.flatten_cons]
    exact writes_reserve.bind (behind.bind (writes_pure _))

end Libretto.Binary
