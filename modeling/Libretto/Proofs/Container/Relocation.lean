/-
Containers do not depend on where they are written.

Positions are absolute, the offsets in a container are relative to its first byte.  Moving a step
behind an aligned front therefore moves the positions that it is given and that it returns, and
nothing else.  `Relocates front near far move` says so: what `far` does behind `front` is what
`near` does by itself, with its result moved.

* **`Relocates.bind`** — steps relocate one after the other;
* **`relocates_patchHere`** — a patch, whose position and origin both move, keeps its word;
* **`relocates_pieces`** — the loop over blocks, strings and snippets;
* **`relocates_write`** — a container whose chunks relocate;
* **`relocatable_of_compile`** — behind any bytes, what was compiled is written as by itself, or
  fails as by itself.

Only a patch outside of the stream would tell the position in its fault.  That no unit meets this
fault is known from `write_eq_error`.
-/
import Libretto.Proofs.Container.Dialogue

namespace Libretto.Binary

open Writer Script Drama

/-- The fault that is met when a number of bytes stand in front. -/
def ExportError.moved (count : Nat) : ExportError → ExportError
  | patchOutOfRange position size => patchOutOfRange (count + position) (count + size)
  | offsetOverflow offset => offsetOverflow offset
  | unresolvedString id => unresolvedString id

namespace Writer

variable {α β : Type} {front : List UInt8}

/-- The outcome of a step with further bytes in front of its stream, its result moved. -/
def behind (front : List UInt8) (move : α → α) :
    EStateM.Result ExportError Stream α → EStateM.Result ExportError Stream α
  | .ok result stream => .ok (move result) (.ofList (front ++ stream.bytes.toList))
  | .error e stream => .error (e.moved front.length) (.ofList (front ++ stream.bytes.toList))

/-- What `far` does behind `front` is what `near` does without it. -/
def Relocates (front : List UInt8) (near far : Writer α) (move : α → α) : Prop :=
  ∀ before : List UInt8, far (.ofList (front ++ before)) = behind front move (near (.ofList before))

/-! ### Single steps -/

theorem relocates_pure (move : α → α) (result : α) :
    Relocates front (pure result) (pure (move result)) move :=
  fun _ => rfl

theorem relocates_throw {move : α → α} {e : ExportError} (h : ∀ count, e.moved count = e) :
    Relocates front (throw e : Writer α) (throw e) move := by
  intro before
  show EStateM.Result.error e _ = EStateM.Result.error (e.moved front.length) _
  rw [h]
  rfl

theorem Relocates.bind {near far : Writer α} {nearRest farRest : α → Writer β} {move : α → α}
    {move' : β → β} (first : Relocates front near far move)
    (rest : ∀ a, Relocates front (nearRest a) (farRest (move a)) move') :
    Relocates front (near >>= nearRest) (far >>= farRest) move' := by
  intro before
  have run := first before
  simp only [Bind.bind, EStateM.bind, run]
  cases near (.ofList before) with
  | ok a stream => exact rest a stream.bytes.toList
  | error e stream => rfl

theorem Relocates.seq {near far : Writer Unit} {nearRest farRest : Writer β} {move : β → β}
    (first : Relocates front near far id) (rest : Relocates front nearRest farRest move) :
    Relocates front (near >>= fun _ => nearRest) (far >>= fun _ => farRest) move :=
  first.bind fun _ => rest

theorem relocates_bytes (bytes : List UInt8) :
    Relocates front (writeBytes bytes) (writeBytes bytes) id := by
  intro before
  rw [writeBytes_apply, writeBytes_apply, List.append_assoc]
  rfl

theorem relocates_tag (tag : Tag) : Relocates front (writeTag tag) (writeTag tag) id :=
  relocates_bytes _

theorem relocates_word (word : UInt32) : Relocates front (writeWord word) (writeWord word) id :=
  relocates_bytes _

theorem relocates_count (count : Nat) : Relocates front (writeCount count) (writeCount count) id :=
  relocates_word _

theorem relocates_position : Relocates front position position (front.length + ·) := by
  intro before
  rw [position_apply, position_apply, List.length_append]
  rfl

theorem relocates_reserve : Relocates front reserve reserve (front.length + ·) :=
  relocates_position.bind fun at_ => (relocates_word 0).bind fun _ => relocates_pure _ at_

theorem relocates_align {boundary : Nat} (aligned : front.length % boundary = 0) :
    Relocates front (align boundary) (align boundary) id := by
  intro before
  rw [align_apply, align_apply, List.length_append, padding_add aligned, List.append_assoc]
  rfl

theorem overwrite_behind (front before : List UInt8) (at_ : Nat) (bytes : List UInt8) :
    overwrite (front ++ before).toArray (front.length + at_) bytes =
      (front ++ (overwrite before.toArray at_ bytes).toList).toArray := by
  induction bytes generalizing before at_ with
  | nil => rfl
  | cons byte rest ih =>
    have set : (front ++ before).toArray.setIfInBounds (front.length + at_) byte =
        (front ++ before.set at_ byte).toArray := by
      rw [List.setIfInBounds_toArray, List.set_append_right _ _ (Nat.le_add_right _ _),
        Nat.add_sub_cancel_left]
    rw [overwrite, overwrite, set, Nat.add_assoc, ih, List.setIfInBounds_toArray]

theorem relocates_patch (at_ : Nat) (word : UInt32) :
    Relocates front (patch at_ word) (patch (front.length + at_) word) id := by
  intro before
  rw [patch, patch, bind_of_ok _ (position_apply _), bind_of_ok _ (position_apply _),
    List.length_append]
  by_cases inside : at_ + 4 ≤ before.length
  · rw [if_pos inside, if_pos (by omega)]
    have bytes := overwrite_behind front before at_ (wordBytes word)
    exact congrArg (fun array => EStateM.Result.ok () (Stream.mk array)) bytes
  · rw [if_neg inside, if_neg (by omega)]
    rfl

/-- An offset is the same from an origin that moves along. -/
theorem relocates_offsetFrom (top : Nat) :
    Relocates front (offsetFrom top) (offsetFrom (front.length + top)) id := by
  intro before
  rw [offsetFrom, offsetFrom, bind_of_ok _ (position_apply _), bind_of_ok _ (position_apply _),
    List.length_append, Nat.add_sub_add_left]
  by_cases small : before.length - top < 0x100000000
  · rw [if_pos small]
    rfl
  · rw [if_neg small]
    rfl

theorem relocates_patchHere (at_ top : Nat) :
    Relocates front (patchHere at_ top) (patchHere (front.length + at_) (front.length + top)) id :=
  (relocates_offsetFrom top).bind fun word => relocates_patch at_ word

end Writer

/-! ### Pieces and tables -/

variable {front : List UInt8}

/-- The loop relocates with its table, if each piece is written alike everywhere. -/
theorem relocates_pieces {boundary : Nat} (aligned : front.length % boundary = 0) (top : Nat)
    {writes : List (Writer Unit)} (h : ∀ write ∈ writes, Relocates front write write id)
    (entries : List Nat) :
    Relocates front (writePiecesBy offsetFrom boundary top (writes.zip entries))
      (writePiecesBy offsetFrom boundary (front.length + top)
        (writes.zip (entries.map (front.length + ·)))) id := by
  induction writes generalizing entries with
  | nil => exact relocates_pure id ()
  | cons write rest ih =>
    rw [List.forall_mem_cons] at h
    cases entries with
    | nil => exact relocates_pure id ()
    | cons entry entries =>
      rw [List.map_cons, List.zip_cons_cons, List.zip_cons_cons, writePiecesBy, writePiecesBy]
      exact (relocates_align aligned).seq ((relocates_patchHere entry top).seq
        (h.1.seq (ih h.2 entries)))

theorem entries_add (count position : Nat) (pieces : List Piece) :
    Piece.entries (count + position) pieces = (Piece.entries position pieces).map (count + ·) := by
  induction pieces generalizing position with
  | nil => rfl
  | cons piece rest ih =>
    have next := ih (position + 4 + piece.entry.length)
    rw [← Nat.add_assoc, ← Nat.add_assoc] at next
    rw [Piece.entries, Piece.entries, List.map_cons, next]

theorem relocates_strings (base entry : Nat) (strings : List String) :
    Relocates front (writeStringsBy offsetFrom base entry strings)
      (writeStringsBy offsetFrom (front.length + base) (front.length + entry) strings) id := by
  have texts : ∀ write ∈ strings.map fun text => writeBytes (textPiece text).bytes,
      Relocates front write write id := by
    intro write mem
    obtain ⟨text, -, rfl⟩ := List.mem_map.1 mem
    exact relocates_bytes _
  rw [writeStringsBy_eq, writeStringsBy_eq, entries_add]
  exact relocates_pieces (Nat.mod_one _) base texts _

theorem relocates_stringList (ids : WriteIds) :
    Relocates front (writeStringListBy offsetFrom ids) (writeStringListBy offsetFrom ids) id := by
  refine relocates_position.bind fun base => ?_
  refine (relocates_tag _).seq ((relocates_count _).seq ?_)
  refine relocates_position.bind fun table => ?_
  exact (relocates_bytes _).seq (relocates_strings base table ids.strings)

theorem relocates_entries (blocks : List Block) :
    Relocates front (writeEntries blocks) (writeEntries blocks) (List.map (front.length + ·)) := by
  induction blocks with
  | nil => exact relocates_pure (List.map (front.length + ·)) []
  | cons block rest ih =>
    rw [writeEntries]
    refine relocates_reserve.bind fun entry => (relocates_count _).seq ?_
    exact ih.bind fun entries => relocates_pure (List.map (front.length + ·)) (entry :: entries)

theorem relocates_reserveMany (count : Nat) :
    Relocates front (reserveMany count) (reserveMany count) (List.map (front.length + ·)) := by
  induction count with
  | zero => exact relocates_pure (List.map (front.length + ·)) []
  | succ count ih =>
    rw [reserveMany]
    refine relocates_reserve.bind fun entry => ?_
    exact ih.bind fun entries => relocates_pure (List.map (front.length + ·)) (entry :: entries)

/-! ### Scripts -/

theorem relocates_block (ids : WriteIds) (block : Block) :
    Relocates front (writeBlock ids block) (writeBlock ids block) id := by
  rw [writeBlock]
  cases block.resolve ids with
  | error id => exact relocates_throw fun _ => rfl
  | ok code => exact relocates_bytes _

theorem relocates_blocks (aligned : front.length % alignment = 0) (top : Nat) (ids : WriteIds)
    (blocks : List Block) (entries : List Nat) :
    Relocates front (writeBlocksBy offsetFrom top ids (blocks.zip entries))
      (writeBlocksBy offsetFrom (front.length + top) ids
        (blocks.zip (entries.map (front.length + ·)))) id := by
  rw [writeBlocksBy_eq, writeBlocksBy_eq]
  refine relocates_pieces aligned top ?_ entries
  intro write mem
  obtain ⟨block, -, rfl⟩ := List.mem_map.1 mem
  exact relocates_block ids block

/-- Contents whose chunks are written alike everywhere, when their origin moves along. -/
def Contents.Relocates (contents : Contents) : Prop :=
  ∀ front : List UInt8, front.length % alignment = 0 → ∀ (top : Nat) (ids : WriteIds),
    Writer.Relocates front (contents.chunks top ids) (contents.chunks (front.length + top) ids) id

theorem relocates_ofScript (unit : ScriptUnit) : (ofScript unit).Relocates := by
  intro front aligned top ids
  show Writer.Relocates front (writeScript unit top ids)
    (writeScript unit (front.length + top) ids) id
  rw [writeScript, writeScript, writeScriptBy, writeScriptBy]
  refine (relocates_tag _).seq ((relocates_count _).seq (relocates_reserve.bind fun body => ?_))
  refine (relocates_entries _).bind fun entries => (relocates_align aligned).seq ?_
  refine (relocates_patchHere body top).seq ((relocates_tag _).seq ?_)
  exact relocates_blocks aligned top ids unit.blocks entries

/-! ### Containers -/

/-- A container is written alike behind every aligned front. -/
theorem relocates_write {contents : Contents} (h : contents.Relocates)
    (aligned : front.length % alignment = 0) :
    Writer.Relocates front contents.write contents.write id := by
  rw [write_eq_frame, Contents.writeFrameBy]
  refine (relocates_align aligned).seq (relocates_position.bind fun top => ?_)
  refine (relocates_tag _).seq ((relocates_word 0).seq (relocates_reserve.bind fun size => ?_))
  refine (relocates_count _).seq (relocates_reserve.bind fun strings => ?_)
  refine (relocates_word 0).seq ((h front aligned top _).seq ?_)
  have sealed : Writer.Relocates front (patchHere size top)
      (patchHere (front.length + size) (front.length + top)) id := relocates_patchHere size top
  split
  · refine (relocates_align aligned).seq ?_
    exact (relocates_patchHere strings top).seq ((relocates_stringList _).seq sealed)
  · exact sealed

/-! ### Dialogues -/

theorem relocates_snippetWord (index? : Option Nat) :
    Relocates front (snippetWord index?) (snippetWord index?) id := by
  cases index? with
  | none => exact relocates_pure id _
  | some index =>
    rw [snippetWord]
    split
    · exact relocates_pure id _
    · exact relocates_throw fun _ => rfl

theorem relocates_stringWord (ids : WriteIds) (id? : Option StringId) :
    Relocates front (stringWord ids id?) (stringWord ids id?) id := by
  cases id? with
  | none => exact relocates_pure id _
  | some string =>
    rw [stringWord]
    split
    · exact relocates_throw fun _ => rfl
    · exact relocates_pure id _

theorem relocates_node (ids : WriteIds) (node : Node) :
    Relocates front (writeNode ids node) (writeNode ids node) id := by
  have snippet : ∀ (index? : Option Nat) {rest : Writer Unit}, Relocates front rest rest id →
      Relocates front (do writeWord (← snippetWord index?); rest)
        (do writeWord (← snippetWord index?); rest) id := fun index? _ h =>
    (relocates_snippetWord index?).bind fun word => (relocates_word word).seq h
  refine (relocates_stringWord ids _).bind fun word => (relocates_word word).seq ?_
  refine snippet node.before (snippet node.after ?_)
  refine (relocates_stringWord ids _).bind fun word => (relocates_word word).seq ?_
  exact (relocates_stringWord ids _).bind fun word => relocates_word word

theorem relocates_nodes (ids : WriteIds) (nodes : List Node) :
    Relocates front (nodes.forM (writeNode ids)) (nodes.forM (writeNode ids)) id := by
  induction nodes with
  | nil => exact relocates_pure id ()
  | cons node rest ih => exact (relocates_node ids node).seq ih

theorem relocates_snippets (aligned : front.length % alignment = 0) (top : Nat)
    (units : List ScriptUnit) (entries : List Nat) :
    Relocates front (writeSnippetsBy offsetFrom top (units.zip entries))
      (writeSnippetsBy offsetFrom (front.length + top)
        (units.zip (entries.map (front.length + ·)))) id := by
  rw [writeSnippets_eq, writeSnippets_eq]
  refine relocates_pieces aligned top ?_ entries
  intro write mem
  obtain ⟨unit, -, rfl⟩ := List.mem_map.1 mem
  exact relocates_write (relocates_ofScript unit) aligned

theorem relocates_ofDocument (document : Document) : (ofDocument document).Relocates := by
  intro front aligned top ids
  show Writer.Relocates front (writeDrama document top ids)
    (writeDrama document (front.length + top) ids) id
  rw [writeDrama, writeDrama, writeDramaBy, writeDramaBy]
  refine (relocates_tag _).seq ((relocates_count _).seq ((relocates_count _).seq ?_))
  refine relocates_reserve.bind fun body => (relocates_reserveMany _).bind fun entries => ?_
  split
  · refine (relocates_align aligned).seq ((relocates_tag _).seq ?_)
    refine (relocates_patchHere body top).seq ((relocates_nodes ids _).seq ?_)
    exact relocates_snippets aligned top document.scripts entries
  · exact relocates_pure id ()

/-! ### Behind any bytes -/

/-- Zero bytes that lead from the end of some bytes to the next multiple of the alignment. -/
structure Pads (held zeros : List UInt8) : Prop where
  zero : ∀ byte ∈ zeros, byte = 0
  short : zeros.length < alignment
  aligned : (held ++ zeros).length % alignment = 0

/-- Behind any bytes and their padding a container is what it is by itself, or fails as it fails by
itself.  Either way the bytes in front of it stand as they were. -/
def Contents.Relocatable (contents : Contents) : Prop :=
  ∀ held zeros : List UInt8, Pads held zeros →
    (∀ bytes, contents.bytes = .ok bytes →
      contents.write (.ofList held) = .ok () (.ofList (held ++ zeros ++ bytes.toList))) ∧
    ∀ e, contents.bytes = .error e →
      ∃ rest, contents.write (.ofList held) = .error e (.ofList (held ++ zeros ++ rest))

theorem Pads.eq_gap {held zeros : List UInt8} (h : Pads held zeros) :
    zeros = gap alignment held.length := by
  refine List.eq_replicate_iff.2 ⟨?_, h.zero⟩
  have short := h.short
  have aligned := h.aligned
  rw [List.length_append] at aligned
  simp only [alignment] at short aligned
  rw [padding, alignment]
  by_cases whole : held.length % 16 = 0
  · rw [if_pos whole]
    omega
  · rw [if_neg whole]
    omega

/-- Only a patch outside of the stream fails differently behind other bytes. -/
theorem relocatable_of_overflow {contents : Contents} (h : contents.Relocates)
    (overflow : ∀ e, contents.bytes = .error e → ∃ offset, e = .offsetOverflow offset) :
    contents.Relocatable := by
  intro held zeros pads
  obtain rfl := pads.eq_gap
  have aligned := length_gap_mod held
  -- padding the bytes first makes no difference to what follows
  have padded : contents.write (.ofList held) =
      contents.write (.ofList (held ++ gap alignment held.length ++ [])) := by
    have none : gap alignment (held ++ gap alignment held.length).length = [] := by
      rw [gap, padding, if_pos aligned]
      rfl
    rw [List.append_nil, write_apply, write_apply, none, List.append_nil]
  have run := relocates_write h aligned []
  rw [padded, run]
  constructor
  · intro bytes ok
    cases written : contents.write (.ofList []) with
    | ok result stream =>
      rw [bytes_of_ok written] at ok
      obtain rfl := Except.ok.inj ok
      rfl
    | error e stream =>
      rw [bytes_of_error written] at ok
      cases ok
  · intro e failed
    obtain ⟨offset, rfl⟩ := overflow e failed
    cases written : contents.write (.ofList []) with
    | ok result stream =>
      rw [bytes_of_ok written] at failed
      cases failed
    | error e stream =>
      rw [bytes_of_error written] at failed
      obtain rfl := Except.error.inj failed
      exact ⟨stream.bytes.toList, rfl⟩

/-- Contents that are written as a layout fail only when they outgrow the offsets. -/
theorem overflow_of_writesChunks {contents : Contents} {chunks : List UInt8}
    (h : WritesChunks contents chunks) {e : ExportError} (failed : contents.bytes = .error e) :
    ∃ offset, e = .offsetOverflow offset := by
  by_cases small : (contents.image chunks).length < 2 ^ 32
  · rw [bytes_of_image h small] at failed
    cases failed
  · obtain ⟨offset, rest, run⟩ := write_eq_error h [] (by omega)
    rw [bytes_of_error run] at failed
    exact ⟨offset, (Except.error.inj failed).symm⟩

/-- Scripts and dialogues that were compiled can be written anywhere. -/
theorem relocatable_of_compile (numbering : Numbering) (source : String) :
    (ofScript (.compile numbering source)).Relocatable ∧
      ∀ document, Document.compile numbering source = .ok document →
        (ofDocument document).Relocatable := by
  constructor
  · obtain ⟨data, holds⟩ := ScriptUnit.exists_holds numbering source
    refine relocatable_of_overflow (relocates_ofScript _) ?_
    intro e failed
    exact overflow_of_writesChunks (writesChunks_ofScript holds) failed
  · intro document compiled
    have sound := sound_of_compile compiled
    obtain ⟨snippets, scripts⟩ := exists_snippets sound
    refine relocatable_of_overflow (relocates_ofDocument document) ?_
    intro e failed
    exact overflow_of_writesChunks (writesChunks_ofDocument sound scripts) failed

/-- A dialogue with a snippet behind three bytes. -/
theorem relocatable_of_compile_greeting :
    Pads [1, 2, 3] (List.replicate 13 0) ∧
      ∃ document, Document.compile .standard
        ";$<node id='a'><before>(set x 1)</before><say>Hi</say></node>" = .ok document ∧
        ∃ bytes, (ofDocument document).bytes = .ok bytes ∧
          (ofDocument document).write (.ofList [1, 2, 3]) =
            .ok () (.ofList ([1, 2, 3] ++ List.replicate 13 0 ++ bytes.toList)) := by
  have pads : Pads [1, 2, 3] (List.replicate 13 0) := ⟨by simp, by decide, by decide⟩
  obtain ⟨document, compiled, bytes, written⟩ := exists_bytes_greeting
  have relocatable := (relocatable_of_compile _ _).2 document compiled
  exact ⟨pads, document, compiled, bytes, written, (relocatable _ _ pads).1 bytes written⟩

end Libretto.Binary
