/-
When a container cannot be written.

The size of a container is a sum that is known before anything is written.  A word of the header
holds it, so a container of `2 ^ 32` bytes or more cannot be written.  Nothing else goes wrong:

* **`extent`** — where parts end that are placed one behind the other;
* **`scriptSize`**, **`dramaSize`** — the sizes of containers, from the sizes of what is in them;
* **`LimitedBy`** — contents that fail for their size only, by themselves and behind any bytes;
* **`limits_of_compile`** — everything that compiles is limited by its size, and every offset is
  counted from an origin that was reached.

A snippet that is too large by itself is part of a dialogue that is too large.
-/
import Libretto.Proofs.Container.Origin
import Libretto.Proofs.Container.Placement
import Mathlib.Algebra.GroupWithZero.Nat

namespace Libretto.Binary

open Writer Drama Script

/-- Where parts of the given sizes end that are placed from a position on, each at the next multiple
of a boundary. -/
def extent (boundary position : Nat) : List Nat → Nat
  | [] => position
  | size :: rest => extent boundary (aligned boundary position + size) rest

/-- The size of a container whose chunks end at a position.  Behind the table of a string list its
texts follow each other without a gap. -/
def framedSize (position : Nat) (strings : List String) : Nat :=
  if strings = [] then position
  else aligned alignment position +
    extent 1 (8 + 4 * strings.length) (strings.map fun text => text.utf8ByteSize + 1)

/-- The size of the container of a script. -/
def scriptSize (unit : ScriptUnit) : Nat :=
  framedSize
    (extent alignment (aligned alignment (scriptTableEnd unit.blocks.length) + 4)
      (unit.blocks.map fun block => 4 * block.code.size))
    unit.writeIds.strings

/-- The size of the container of a dialogue. -/
def dramaSize (document : Document) : Nat :=
  framedSize
    (if document.nodes = [] then dramaTableEnd 0
      else extent alignment (aligned alignment (dramaTableEnd document.scripts.length) + 4 +
        recordSize * document.nodes.length) (document.scripts.map scriptSize))
    document.writeIds.strings

/-- Parts that are placed take up their sizes at least. -/
theorem add_sum_le_extent (boundary position : Nat) (sizes : List Nat) :
    position + sizes.sum ≤ extent boundary position sizes := by
  induction sizes generalizing position with
  | nil => exact Nat.le_refl _
  | cons size rest ih =>
    have here := le_aligned boundary position
    have behind := ih (aligned boundary position + size)
    rw [extent, List.sum_cons]
    omega

theorem le_extent (boundary position : Nat) (sizes : List Nat) :
    position ≤ extent boundary position sizes :=
  Nat.le_trans (Nat.le_add_right _ _) (add_sum_le_extent boundary position sizes)

theorem le_framedSize (position : Nat) (strings : List String) :
    position ≤ framedSize position strings := by
  rw [framedSize]
  split
  · exact Nat.le_refl _
  · exact Nat.le_trans (le_aligned _ _) (Nat.le_add_right _ _)

/-- Each block has an entry in the table of its container. -/
theorem le_scriptSize (unit : ScriptUnit) : 8 * unit.blocks.length ≤ scriptSize unit := by
  let body := aligned alignment (scriptTableEnd unit.blocks.length)
  let chunks := extent alignment (body + 4)
    (unit.blocks.map fun block => 4 * block.code.size)
  have entries : 8 * unit.blocks.length ≤ scriptTableEnd unit.blocks.length :=
    Nat.le_add_left _ _
  have table : scriptTableEnd unit.blocks.length ≤ body := le_aligned _ _
  have code : body + 4 ≤ chunks := le_extent _ _ _
  have list : chunks ≤ scriptSize unit := le_framedSize _ _
  omega

/-! ### Sizes of layouts -/

theorem reach_place (boundary position : Nat) (parts : List (List UInt8)) :
    reach position (place boundary position parts) =
      extent boundary position (parts.map List.length) := by
  induction parts generalizing position with
  | nil => rfl
  | cons part rest ih => rw [place, reach, List.map_cons, extent, Region.stop, ih]

theorem reach_listRegions (strings : List String) :
    reach 0 (listRegions strings) =
      extent 1 (8 + 4 * strings.length) (strings.map fun text => text.utf8ByteSize + 1) := by
  have sizes : (strings.map fun text => text.toUTF8.toList ++ [0]).map List.length =
      strings.map fun text => text.utf8ByteSize + 1 := by
    rw [List.map_map]
    refine List.map_congr_left ?_
    intro text _
    show (text.toUTF8.toList ++ [0]).length = _
    rw [List.length_append, Text.toList_eq_toList_data]
    rfl
  rw [listRegions, reach, Region.stop, stop_listHead, textRegions, reach_place, sizes]

/-- The size of a container whose chunks are laid out. -/
theorem length_container (kind : Tag) {regions : List Region} {chunks : List UInt8}
    (h : MakeUp headerSize regions chunks) (strings : List String) :
    (container kind chunks strings).length =
      framedSize (reach headerSize regions) strings := by
  have size := (makeUp_frame kind h strings).reach_eq
  let base := aligned alignment (reach headerSize regions)
  let listed : List Region :=
    if strings = [] then [] else (listRegions strings).map (.moved base)
  have behind : reach 0 (frame kind regions strings) = reach (reach headerSize regions) listed :=
    reach_append headerSize regions listed
  rw [Nat.zero_add, behind] at size
  rw [← size, framedSize]
  by_cases none : strings = []
  · simp only [listed, if_pos none]
    rfl
  · -- the list reaches as far as by itself, counted from where its tag stands
    have list : reach (reach headerSize regions) ((listRegions strings).map (.moved base)) =
        reach (base + 0) ((listRegions strings).map (.moved base)) := rfl
    simp only [listed, if_neg none]
    rw [list, reach_moved, reach_listRegions]

variable {unit : ScriptUnit} {data : List Datum}

/-- The size of a script is known from the sizes of its blocks and its strings. -/
theorem length_image_script (h : unit.Holds data) :
    ((ofScript unit).image (scriptChunks (codes unit data))).length = scriptSize unit := by
  have sizes := sizes_eq h
  have count : unit.blocks.length = (codes unit data).length := by
    have := congrArg List.length sizes
    rwa [List.length_map, List.length_map] at this
  have blocks : ((codes unit data).map (List.flatMap wordBytes)).map List.length =
      unit.blocks.map fun block => 4 * block.code.size := by
    have lengths : (codes unit data).map (fun code => 4 * code.length) =
        (unit.blocks.map (·.code.size)).map (4 * ·) := by
      rw [sizes, List.map_map]
      rfl
    rw [List.map_map] at lengths ⊢
    rw [show (fun block : Block => 4 * block.code.size) = (4 * ·) ∘ (·.code.size) from rfl,
      ← lengths]
    exact List.map_congr_left fun code _ => length_flatMap_wordBytes code
  have reached : reach headerSize (scriptRegions (codes unit data)) =
      extent alignment (aligned alignment (scriptTableEnd unit.blocks.length) + 4)
        (unit.blocks.map fun block => 4 * block.code.size) := by
    rw [count, ← blocks, ← reach_place]
    rfl
  rw [image_ofScript, scriptContainer, length_container _ (makeUp_scriptRegions _), reached]
  rfl

/-- Snippets that are written with the sizes of their scripts. -/
theorem exists_sized_snippets {numbering : Numbering} {document : Document}
    (sound : document.Sound numbering) :
    ∃ snippets, List.Forall₂ WritesSnippet document.scripts snippets ∧
      snippets.map (fun snippet => snippet.image.length) = document.scripts.map scriptSize := by
  rw [sound.scripts]
  induction document.snippets with
  | nil => exact ⟨[], .nil, rfl⟩
  | cons source rest ih =>
    obtain ⟨data, h⟩ := ScriptUnit.exists_holds numbering source
    obtain ⟨snippets, behind, sizes⟩ := ih
    refine ⟨_ :: snippets, .cons (writesSnippet_of_holds h) behind, ?_⟩
    rw [List.map_cons, List.map_cons, List.map_cons, sizes, ← length_image_script h]
    rfl

/-- The size of a dialogue is known from the sizes of its scripts and its strings. -/
theorem length_image_drama {numbering : Numbering} {document : Document}
    (sound : document.Sound numbering) {snippets : List Snippet}
    (scripts : List.Forall₂ WritesSnippet document.scripts snippets)
    (sizes : snippets.map (fun snippet => snippet.image.length) =
      document.scripts.map scriptSize) :
    ((ofDocument document).image (dialogueChunks
      (document.nodes.map (record document.writeIds)) snippets)).length = dramaSize document := by
  let records := document.nodes.map (record document.writeIds)
  have nonempty : records = [] → snippets = [] := snippets_eq_nil sound scripts
  have chunks := makeUp_dramaRegions nonempty
  have reached : reach headerSize
      (dramaRegions records (snippets.map fun snippet => snippet.image.toArray)) =
        if document.nodes = [] then dramaTableEnd 0
        else extent alignment (aligned alignment (dramaTableEnd document.scripts.length) + 4 +
          recordSize * document.nodes.length) (document.scripts.map scriptSize) := by
    by_cases none : document.nodes = []
    · have noRecords : records = [] := List.map_eq_nil_iff.2 none
      rw [if_pos none, noRecords]
      rfl
    · have someRecords : records ≠ [] := by simpa [records] using none
      have count : records.length = document.nodes.length := List.length_map _
      have parts : ((snippets.map fun snippet => snippet.image.toArray).map Array.toList).map
          List.length = document.scripts.map scriptSize := by
        rw [← sizes, List.map_map, List.map_map]
        rfl
      rw [if_neg none, dramaRegions, if_neg someRecords]
      show reach (_ + (recordBytes records).length) (snippetRegions records.length _) = _
      rw [length_recordBytes, snippetRegions, reach_place, parts, count, List.length_map,
        scripts.length_eq]
  have image : (ofDocument document).image (dialogueChunks records snippets) =
      container .drama (dialogueChunks records snippets) document.writeIds.strings := rfl
  rw [image, length_container _ chunks, reached]
  rfl

/-! ### Failures -/

/-- Contents of the given size, which fail to be written if the size outgrows a word, and for no
other reason: by themselves, and on any stream. -/
structure LimitedBy (contents : Contents) (size : Nat) : Prop where
  bytes_fail : (∃ e, contents.bytes = .error e) ↔ 2 ^ 32 ≤ size
  bytes_overflow : ∀ e, contents.bytes = .error e → ∃ offset, e = .offsetOverflow offset
  write_fail : ∀ stream, (∃ e later, contents.write stream = .error e later) ↔ 2 ^ 32 ≤ size
  write_overflow : ∀ stream e later, contents.write stream = .error e later →
    ∃ offset, e = .offsetOverflow offset

theorem limitedBy_of_writesChunks {contents : Contents} {chunks : List UInt8} {size : Nat}
    (h : WritesChunks contents chunks) (length : (contents.image chunks).length = size) :
    LimitedBy contents size := by
  -- the outcome on any stream, which the size decides
  have outcome : ∀ stream : Stream,
      (size < 2 ^ 32 ∧ ∃ later, contents.write stream = .ok () later) ∨
        2 ^ 32 ≤ size ∧ ∃ offset later,
          contents.write stream = .error (.offsetOverflow offset) later := by
    intro stream
    by_cases small : size < 2 ^ 32
    · exact .inl ⟨small, _, write_eq_ok h stream.bytes.toList (length ▸ small)⟩
    · obtain ⟨offset, rest, run⟩ := write_eq_error h stream.bytes.toList (by omega)
      exact .inr ⟨by omega, offset, _, run⟩
  have fail : ∀ stream,
      (∃ e later, contents.write stream = .error e later) ↔ 2 ^ 32 ≤ size := by
    intro stream
    rcases outcome stream with ⟨small, later, run⟩ | ⟨large, offset, later, run⟩
    · refine ⟨?_, fun large => absurd small (by omega)⟩
      rintro ⟨e, other, failed⟩
      rw [run] at failed
      cases failed
    · exact ⟨fun _ => large, fun _ => ⟨_, later, run⟩⟩
  have overflow : ∀ stream e later, contents.write stream = .error e later →
      ∃ offset, e = .offsetOverflow offset := by
    intro stream e later failed
    rcases outcome stream with ⟨-, other, run⟩ | ⟨-, offset, other, run⟩
    · rw [run] at failed
      cases failed
    · rw [run] at failed
      obtain ⟨rfl, -⟩ := EStateM.Result.error.inj failed
      exact ⟨offset, rfl⟩
  have bytes : ∀ e, contents.bytes = .error e ↔
      ∃ later, contents.write (.ofList []) = .error e later := by
    intro e
    cases run : contents.write (.ofList []) with
    | ok result later => simp [bytes_of_ok run]
    | error found later => simp [bytes_of_error run]
  refine ⟨?_, ?_, fail, overflow⟩
  · simp only [bytes, fail]
  · intro e failed
    obtain ⟨later, run⟩ := (bytes e).1 failed
    exact overflow _ e later run

/-- Everything that compiles is written, by itself and on any stream, unless its size outgrows a
word, and then it fails with an overflow.  No offset is asked for in front of its origin, for any
unit and any stream: what a rule does there is not seen. -/
theorem limits_of_compile (numbering : Numbering) (source : String) :
    LimitedBy (ofScript (.compile numbering source)) (scriptSize (.compile numbering source)) ∧
      (∀ document, Document.compile numbering source = .ok document →
        LimitedBy (ofDocument document) (dramaSize document)) ∧
      ∀ rule, CountsBehind rule →
        (∀ unit, (ofScriptBy rule unit).writeBy rule = (ofScript unit).write) ∧
          ∀ document, (ofDocumentBy rule document).writeBy rule = (ofDocument document).write := by
  refine ⟨?_, ?_, ?_⟩
  · obtain ⟨data, h⟩ := ScriptUnit.exists_holds numbering source
    exact limitedBy_of_writesChunks (writesChunks_ofScript h) (length_image_script h)
  · intro document compiled
    have sound := sound_of_compile compiled
    obtain ⟨snippets, scripts, sizes⟩ := exists_sized_snippets sound
    exact limitedBy_of_writesChunks (writesChunks_ofDocument sound scripts)
      (length_image_drama sound scripts sizes)
  · exact fun rule h => ⟨writeBy_ofScript h, writeBy_ofDocument h⟩

/-- A script and a dialogue with a snippet, and a rule that refuses every other origin. -/
theorem limits_of_compile_greeting :
    LimitedBy (ofScript (.compile .standard "(say \"a\")"))
        (scriptSize (.compile .standard "(say \"a\")")) ∧
      scriptSize (.compile .standard "(say \"a\")") = 134 ∧
      (∃ document, Document.compile .standard
          ";$<node id='a'><before>(set x 1)</before><say>Hi</say></node>" = .ok document ∧
        LimitedBy (ofDocument document) (dramaSize document)) ∧
      CountsBehind checkedOffset ∧
      (∀ unit, (ofScriptBy checkedOffset unit).writeBy checkedOffset = (ofScript unit).write) ∧
      ∀ document, (ofDocumentBy checkedOffset document).writeBy checkedOffset =
        (ofDocument document).write := by
  obtain ⟨document, compiled, -⟩ := exists_bytes_greeting
  obtain ⟨script, -, rules⟩ := limits_of_compile .standard "(say \"a\")"
  refine ⟨script, by decide +kernel, ⟨document, compiled, ?_⟩, countsBehind_checkedOffset,
    rules checkedOffset countsBehind_checkedOffset⟩
  exact (limits_of_compile .standard _).2.1 document compiled

end Libretto.Binary
