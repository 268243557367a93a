/-
What the writers write.

* **`writes_stringList`**, **`seals_frame`** — a string list, and the frame around chunks that are
  written for their position;
* **`write_eq_ok`**, **`write_eq_error`** — on any stream: the layout, if a word can hold its size,
  and an overflow if not;
* **`bytes_of_image`**, **`image_of_bytes`** — hence the bytes of a container by itself;
* **`writes_script`** — the chunks of a script unit whose blocks resolve are written as their
  layout.
-/
import Libretto.Proofs.Container.Pieces
import Libretto.Proofs.Interning

namespace Libretto.Binary

open Writer Script

variable {front : List UInt8}

/-- A string list is written as its layout. -/
theorem writes_stringList {ids : WriteIds} (size : ids.size = ids.strings.length) :
    Writes front (writeStringListBy offsetFrom ids) [] () (stringList ids.strings) := by
  let head := Tag.strings.bytes ++ wordBytes ids.strings.length.toUInt32
  have pieces : List.Forall₂ (WritesPiece front 1)
      (ids.strings.map fun text => writeBytes (textPiece text).bytes)
      (ids.strings.map textPiece) := by
    rw [List.forall₂_map_left_iff, List.forall₂_map_right_iff, List.forall₂_same]
    exact fun text _ before _ => writes_bytes _
  have filled := writePieces_writes Nat.one_pos (Nat.mod_one _) pieces head []
  have length : (head ++ (Piece.openTable (ids.strings.map textPiece) ++ [])).length =
      8 + 4 * ids.strings.length := by
    simp only [head, openTable_textPieces, List.length_append, List.length_replicate,
      length_wordBytes, List.length_nil]
    rfl
  rw [length, ← writeStringsBy_eq, openTable_textPieces, List.append_nil, List.nil_append] at filled
  rw [writeStringListBy]
  refine writes_position.bind ((writes_tag _).seq ((writes_count _).seq ?_))
  refine writes_position.bind ((writes_bytes _).seq ?_)
  rw [size]
  simpa only [head, stringList, List.nil_append, List.append_assoc, List.length_nil,
    Nat.add_zero] using filled

/-! ### The frame -/

variable {contents : Contents} {chunks : List UInt8}

theorem write_eq_frame (contents : Contents) :
    contents.write = (do align alignment; contents.writeFrameBy offsetFrom) := rfl

/-- The header of a container whose strings and size are still open. -/
def openHeader (kind : Tag) : List UInt8 :=
  kind.bytes ++ (wordBytes 0 ++ (wordBytes 0 ++ (wordBytes headerSize.toUInt32 ++
    (wordBytes 0 ++ wordBytes 0))))

/-- The size of a container is filled in at its end. -/
theorem seals_size (front : List UInt8) (kind : Tag) (strings : UInt32)
    (chunks listed : List UInt8) :
    Seals front (patchHere (front.length + 8) front.length)
      (kind.bytes ++ (wordBytes 0 ++ (wordBytes 0 ++ (wordBytes headerSize.toUInt32 ++
        (wordBytes strings ++ (wordBytes 0 ++ (chunks ++ listed)))))))
      (kind.bytes ++ (wordBytes 0 ++
        (wordBytes (headerSize + chunks.length + listed.length).toUInt32 ++
          (wordBytes headerSize.toUInt32 ++
            (wordBytes strings ++ (wordBytes 0 ++ (chunks ++ listed))))))) := by
  have sealed : Seals front (patchHere (front.length + 8) front.length)
      ((kind.bytes ++ wordBytes 0) ++ (wordBytes 0 ++ (wordBytes headerSize.toUInt32 ++
        (wordBytes strings ++ (wordBytes 0 ++ (chunks ++ listed)))))) _ :=
    seals_patchHere rfl (length_wordBytes 0)
  have length : ((kind.bytes ++ wordBytes 0) ++ (wordBytes 0 ++ (wordBytes headerSize.toUInt32 ++
      (wordBytes strings ++ (wordBytes 0 ++ (chunks ++ listed)))))).length =
      headerSize + chunks.length + listed.length := by
    simp only [List.length_append, length_wordBytes, Tag.length_bytes, headerSize]
    omega
  rw [length] at sealed
  simpa only [List.append_assoc] using sealed

/-- A container is written as its layout, when its chunks are. -/
theorem seals_frame (top : front.length % alignment = 0)
    (written : Writes front
      (contents.chunks front.length (contents.table.resolve contents.references))
      (openHeader contents.kind) () (openHeader contents.kind ++ chunks)) :
    Seals front (contents.writeFrameBy offsetFrom) []
      (container contents.kind chunks
        (contents.table.resolve contents.references).strings) := by
  have size := StringTable.size_resolve contents.table contents.references
  rw [Contents.writeFrameBy]
  refine writes_position.seals ?_
  simp only [List.length_nil, Nat.add_zero]
  generalize contents.table.resolve contents.references = ids at *
  refine (writes_tag _).seq_seals ((writes_word _).seq_seals (writes_reserve.seals ?_))
  refine (writes_count _).seq_seals (writes_reserve.seals ((writes_word _).seq_seals ?_))
  have header : [] ++ contents.kind.bytes ++ wordBytes 0 ++ wordBytes 0 ++
      wordBytes headerSize.toUInt32 ++ wordBytes 0 ++ wordBytes 0 = openHeader contents.kind := by
    simp only [openHeader, List.nil_append, List.append_assoc]
  rw [header]
  refine written.seq_seals ?_
  simp only [List.nil_append, List.append_assoc, List.length_append, length_wordBytes,
    Tag.length_bytes]
  -- without strings there is no list, and the header keeps a zero for its position
  by_cases none : ids.strings = []
  · rw [if_neg (by simp [size, none]), container, if_pos none, if_pos none]
    have sealed := seals_size front contents.kind 0 chunks []
    simpa only [openHeader, List.append_assoc, List.append_nil, List.length_nil, Nat.add_zero]
      using sealed
  · rw [if_pos (by simpa [size] using none), container, if_neg none, if_neg none]
    let zeros := gap alignment (headerSize + chunks.length)
    have length : (openHeader contents.kind ++ chunks).length = headerSize + chunks.length := by
      rw [List.length_append]
      rfl
    have padded : Writes front (align alignment) (openHeader contents.kind ++ chunks) ()
        (openHeader contents.kind ++ chunks ++ zeros) := writes_gap top length
    have located : Writes front (patchHere (front.length + 16) front.length)
        ((contents.kind.bytes ++ wordBytes 0 ++ wordBytes 0 ++ wordBytes headerSize.toUInt32) ++
          (wordBytes 0 ++ (wordBytes 0 ++ (chunks ++ zeros)))) () _ :=
      writes_patchHere rfl (length_wordBytes 0)
    have position : ((contents.kind.bytes ++ wordBytes 0 ++ wordBytes 0 ++
        wordBytes headerSize.toUInt32) ++
          (wordBytes 0 ++ (wordBytes 0 ++ (chunks ++ zeros)))).length =
        aligned alignment (headerSize + chunks.length) := by
      simp only [zeros, gap, List.length_append, length_wordBytes, Tag.length_bytes, aligned,
        List.length_replicate, headerSize]
      omega
    rw [position] at located
    have sealed := seals_size front contents.kind
      (aligned alignment (headerSize + chunks.length)).toUInt32 chunks
      (zeros ++ stringList ids.strings)
    simp only [openHeader, List.append_assoc] at padded located sealed ⊢
    refine padded.seq_seals (located.seq_seals ?_)
    refine (writes_stringList size).behind.seq_seals ?_
    simpa only [List.append_assoc] using sealed

/-- Contents whose chunks are written for every aligned position behind a header. -/
def WritesChunks (contents : Contents) (chunks : List UInt8) : Prop :=
  ∀ front : List UInt8, front.length % alignment = 0 →
    Writes front (contents.chunks front.length (contents.table.resolve contents.references))
      (openHeader contents.kind) () (openHeader contents.kind ++ chunks)

/-- The bytes of a container with the given chunks. -/
def Contents.image (contents : Contents) (chunks : List UInt8) : List UInt8 :=
  container contents.kind chunks (contents.table.resolve contents.references).strings

theorem write_apply (contents : Contents) (stream : List UInt8) :
    contents.write (.ofList stream) =
      contents.writeFrameBy offsetFrom (.ofList (stream ++ gap alignment stream.length)) := by
  rw [write_eq_frame]
  exact bind_of_ok _ (align_apply _ _)

theorem length_gap_mod (stream : List UInt8) :
    (stream ++ gap alignment stream.length).length % alignment = 0 := by
  rw [List.length_append, gap, List.length_replicate]
  exact add_padding_mod (by decide) _

/-- On any stream a container is written behind the padding, if a word can hold its size. -/
theorem write_eq_ok (h : WritesChunks contents chunks) (stream : List UInt8)
    (small : (contents.image chunks).length < 2 ^ 32) :
    contents.write (.ofList stream) =
      .ok () (.ofList (stream ++ gap alignment stream.length ++ contents.image chunks)) := by
  have top := length_gap_mod stream
  have sealed := seals_frame top (h _ top)
  have run := sealed.success small
  rw [List.append_nil] at run
  rw [write_apply, run]
  rfl

/-- A container that is too large fails with an overflow, and what the stream held stands. -/
theorem write_eq_error (h : WritesChunks contents chunks) (stream : List UInt8)
    (large : 2 ^ 32 ≤ (contents.image chunks).length) :
    ∃ offset rest, contents.write (.ofList stream) = .error (.offsetOverflow offset)
      (.ofList (stream ++ gap alignment stream.length ++ rest)) := by
  have top := length_gap_mod stream
  have sealed := seals_frame top (h _ top)
  obtain ⟨offset, rest, run⟩ := sealed.failure large
  rw [List.append_nil] at run
  exact ⟨offset, rest, by rw [write_apply, run]⟩

theorem bytes_of_ok {stream : Stream} (run : contents.write (.ofList []) = .ok () stream) :
    contents.bytes = .ok stream.bytes := by
  have run : contents.write ⟨#[]⟩ = .ok () stream := run
  rw [Contents.bytes, run]

theorem bytes_of_error {e : ExportError} {stream : Stream}
    (run : contents.write (.ofList []) = .error e stream) : contents.bytes = .error e := by
  have run : contents.write ⟨#[]⟩ = .error e stream := run
  rw [Contents.bytes, run]

/-- The bytes of a container by itself are its layout. -/
theorem image_of_bytes (h : WritesChunks contents chunks) {bytes : Array UInt8}
    (ok : contents.bytes = .ok bytes) :
    bytes = (contents.image chunks).toArray ∧ (contents.image chunks).length < 2 ^ 32 := by
  by_cases small : (contents.image chunks).length < 2 ^ 32
  · rw [bytes_of_ok (write_eq_ok h [] small)] at ok
    exact ⟨(Except.ok.inj ok).symm, small⟩
  · obtain ⟨offset, rest, run⟩ := write_eq_error h [] (by omega)
    rw [bytes_of_error run] at ok
    cases ok

theorem bytes_of_image (h : WritesChunks contents chunks)
    (small : (contents.image chunks).length < 2 ^ 32) :
    contents.bytes = .ok (contents.image chunks).toArray :=
  bytes_of_ok (write_eq_ok h [] small)

/-- A container is a piece of another one. -/
theorem writesPiece_write (h : WritesChunks contents chunks) (front : List UInt8) :
    WritesPiece front alignment contents.write (snippetPiece (contents.image chunks)) := by
  intro before top
  rw [← List.length_append] at top
  have none : gap alignment (front ++ before).length = [] := by
    rw [gap, padding, if_pos top]
    rfl
  have frame := (seals_frame top (h _ top)).writes
  refine Writes.behind ⟨frame.grows, ?_⟩
  have apply := write_apply contents (front ++ before)
  rw [none, List.append_nil] at apply
  have run := frame.run
  rw [List.append_nil] at run ⊢
  rwa [apply]

/-! ### Scripts -/

/-- Blocks that resolve are pieces. -/
theorem writesPiece_blocks {blocks : List Block} {ids : WriteIds} {codes : List (List UInt32)}
    (resolved : blocks.map (·.resolve ids) = codes.map (.ok ·.toArray)) (front : List UInt8) :
    List.Forall₂ (WritesPiece front alignment) (blocks.map (writeBlock ids))
      (codes.map codePiece) := by
  induction blocks generalizing codes with
  | nil =>
    obtain rfl := List.map_eq_nil_iff.1 resolved.symm
    exact .nil
  | cons block rest ih =>
    cases codes with
    | nil => cases resolved
    | cons code codes =>
      obtain ⟨first, more⟩ : block.resolve ids = .ok code.toArray ∧
          rest.map (·.resolve ids) = codes.map (.ok ·.toArray) := List.cons.inj resolved
      refine .cons ?_ (ih more)
      intro before _
      rw [writeBlock, first]
      exact writes_bytes _

/-- The chunks of a script whose blocks resolve to the given codes. -/
theorem writes_script {unit : ScriptUnit} {ids : WriteIds} {codes : List (List UInt32)}
    (sizes : unit.blocks.map (·.code.size) = codes.map List.length)
    (resolved : unit.blocks.map (·.resolve ids) = codes.map (.ok ·.toArray))
    (top : front.length % alignment = 0) {header : List UInt8}
    (length : header.length = headerSize) :
    Writes front (writeScript unit front.length ids) header () (header ++ scriptChunks codes) := by
  have count : unit.blocks.length = codes.length := by
    have := congrArg List.length sizes
    rwa [List.length_map, List.length_map] at this
  let pieces := codes.map codePiece
  let tableEnd := scriptTableEnd codes.length
  let body := aligned alignment tableEnd
  let zeros := gap alignment tableEnd
  let table := Piece.openTable pieces
  have tableLength : table.length = 8 * codes.length := length_openTable_codes codes
  let info := header ++ Tag.info.bytes ++ wordBytes codes.length.toUInt32
  have end_eq : (info ++ (wordBytes 0 ++ table)).length = tableEnd := by
    simp only [info, tableEnd, scriptTableEnd, List.length_append, length_wordBytes,
      Tag.length_bytes, length, tableLength]
    omega
  have padded : Writes front (align alignment) (info ++ (wordBytes 0 ++ table)) ()
      (info ++ (wordBytes 0 ++ table) ++ zeros) := writes_gap top end_eq
  have body_eq : (info ++ (wordBytes 0 ++ (table ++ zeros))).length = body := by
    simp only [info, zeros, gap, body, tableEnd, scriptTableEnd, aligned, List.length_append,
      length_wordBytes, Tag.length_bytes, length, tableLength, List.length_replicate]
    omega
  have located : Writes front (patchHere (front.length + info.length) front.length)
      (info ++ (wordBytes 0 ++ (table ++ zeros))) ()
      (info ++ (wordBytes body.toUInt32 ++ (table ++ zeros))) :=
    body_eq ▸ writes_patchHere rfl (length_wordBytes 0)
  have blocks := writePieces_writes (by decide) top (writesPiece_blocks resolved front)
    (info ++ wordBytes body.toUInt32) (zeros ++ Tag.code.bytes)
  -- the first block is looked for behind the tag of the body
  have first_eq : (info ++ wordBytes body.toUInt32 ++ (table ++ (zeros ++ Tag.code.bytes))).length =
      body + 4 := by
    rw [← body_eq]
    simp only [List.length_append, length_wordBytes, Tag.length_bytes]
    omega
  rw [first_eq, ← writeBlocksBy_eq] at blocks
  have entries : Writes front (writeEntries unit.blocks) (info ++ wordBytes 0) _ _ :=
    writes_entries (info ++ wordBytes 0) sizes
  have entry_eq : (info ++ wordBytes body.toUInt32).length = (info ++ wordBytes 0).length := by
    simp only [List.length_append, length_wordBytes]
  have tag : Writes front (writeTag .code)
      (info ++ (wordBytes body.toUInt32 ++ (table ++ zeros))) () _ := writes_tag .code
  rw [entry_eq] at blocks
  simp only [List.append_assoc info, List.append_assoc (wordBytes _), List.append_assoc table]
    at padded tag blocks
  rw [writeScript, writeScriptBy, count]
  refine (writes_tag _).seq ((writes_count _).seq (writes_reserve.bind (entries.bind ?_)))
  change Writes front (do
    align alignment
    patchHere (front.length + info.length) front.length
    writeTag .code
    writeBlocksBy offsetFrom front.length ids (unit.blocks.zip _))
      (info ++ wordBytes 0 ++ table) () _
  rw [List.append_assoc info]
  have all := padded.seq (located.seq (tag.seq blocks))
  simpa only [info, scriptChunks, List.append_assoc] using all

end Libretto.Binary
