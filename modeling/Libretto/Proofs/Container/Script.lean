/-
Script containers: what is read is what was compiled.

* **`codes`** — the code of a unit's data, with the write ids of its strings;
* **`writesChunks_ofScript`**, **`image_ofScript`** — a unit is written as the layout of these codes
  and of its strings;
* **`ofBytes_eq_resolved`** — a reader sees the resolved blocks and the strings of the unit;
* **`readBack_blocks_eq_data`** — reading the blocks back gives the data of the lines that compiled.

The last one needs texts that end where their zero byte says, hence a source without characters of
code 0, and a table whose ids are all different, hence a source of less than `2 ^ 32` bytes.
-/
import Libretto.Proofs.Container.Opening
import Libretto.Proofs.Container.Written
import Libretto.Proofs.Outcome
import Libretto.Proofs.Script.Unit

namespace Libretto.Binary

open Script
open Text (untilNul)

variable {unit : ScriptUnit} {data : List Datum}

/-- The code of data in the container of a unit. -/
def codes (unit : ScriptUnit) (data : List Datum) : List (List UInt32) :=
  data.map (Datum.code unit.numbering unit.writeWord)

theorem sizes_eq (h : unit.Holds data) :
    unit.blocks.map (·.code.size) = (codes unit data).map List.length := by
  obtain ⟨blocks, -⟩ := h
  rw [codes, List.map_map]
  generalize unit.blocks = l at blocks
  induction blocks with
  | nil => rfl
  | cons holds _ ih => rw [List.map_cons, List.map_cons, ih, holds.size_eq unit.writeWord]; rfl

theorem resolve_eq_codes (h : unit.Holds data) :
    unit.blocks.map (·.resolve unit.writeIds) = (codes unit data).map (.ok ·.toArray) := by
  rw [h.resolve_blocks, codes, List.map_map]
  rfl

/-- A unit is written as the code of its data. -/
theorem writesChunks_ofScript (h : unit.Holds data) :
    WritesChunks (ofScript unit) (scriptChunks (codes unit data)) := by
  intro front top
  exact writes_script (sizes_eq h) (resolve_eq_codes h) top rfl

theorem image_ofScript (codes : List (List UInt32)) :
    (ofScript unit).image (scriptChunks codes) = scriptContainer codes unit.writeIds.strings := rfl

/-- A unit that was written is read as its codes and strings. -/
theorem ofBytes_ofScript (h : unit.Holds data) {bytes : Array UInt8}
    (written : (ofScript unit).bytes = .ok bytes) :
    View.ofBytes bytes =
      .ok (.script ⟨codes unit data, unit.writeIds.strings.map untilNul⟩) := by
  obtain ⟨rfl, small⟩ := image_of_bytes (writesChunks_ofScript h) written
  rw [image_ofScript] at small ⊢
  exact view_scriptContainer small

/-- Script container round trip: a reader of the written bytes sees the resolved blocks, word for
word, and the strings in the order of their write ids, each up to its first character of code 0. -/
theorem ofBytes_eq_resolved {numbering : Numbering} {source : String} {bytes : Array UInt8}
    (written : (ofScript (.compile numbering source)).bytes = .ok bytes) :
    ∃ resolved : List (Array UInt32),
      (ScriptUnit.compile numbering source).blocks.map
          (·.resolve (ScriptUnit.compile numbering source).writeIds) = resolved.map .ok ∧
        View.ofBytes bytes = .ok (.script ⟨resolved.map Array.toList,
          (ScriptUnit.compile numbering source).writeIds.strings.map untilNul⟩) := by
  obtain ⟨data, h⟩ := ScriptUnit.exists_holds numbering source
  refine ⟨(codes (.compile numbering source) data).map List.toArray, ?_, ?_⟩
  · rw [resolve_eq_codes h, List.map_map]
    rfl
  · rw [ofBytes_ofScript h written, List.map_map]
    simp only [Function.comp_def, List.map_id']

theorem ofBytes_eq_resolved_call :
    ∃ bytes, (ofScript (.compile .standard "(say \"\" (f x))\n1\n\"é\"")).bytes = .ok bytes ∧
      ∃ resolved : List (Array UInt32),
        (ScriptUnit.compile .standard "(say \"\" (f x))\n1\n\"é\"").blocks.map
            (·.resolve (ScriptUnit.compile .standard "(say \"\" (f x))\n1\n\"é\"").writeIds) =
          resolved.map .ok ∧
        View.ofBytes bytes = .ok (.script ⟨resolved.map Array.toList,
          (ScriptUnit.compile .standard "(say \"\" (f x))\n1\n\"é\"").writeIds.strings.map
            untilNul⟩) := by
  have written : ((ofScript (.compile .standard "(say \"\" (f x))\n1\n\"é\"")).bytes).isOk := by
    decide +kernel
  cases h : (ofScript (.compile .standard "(say \"\" (f x))\n1\n\"é\"")).bytes with
  | error e =>
    rw [h] at written
    cases written
  | ok bytes => exact ⟨bytes, rfl, ofBytes_eq_resolved h⟩

/-! ### Reading blocks back -/

/-- The strings of a source without characters of code 0 are not cut. -/
theorem untilNul_strings {numbering : Numbering} {source : String} (nul : '\x00' ∉ source.toList) :
    (ScriptUnit.compile numbering source).writeIds.strings.map untilNul =
      (ScriptUnit.compile numbering source).writeIds.strings := by
  refine (List.map_congr_left ?_).trans (List.map_id _)
  intro text mem
  obtain ⟨id, -, found⟩ := List.mem_filterMap.1 mem
  refine Text.untilNul_eq_self ?_
  intro inside
  rcases ScriptUnit.mem_source_of_mem_table (StringTable.mem_of_get? found) inside with h | h
  · exact nul h
  · exact absurd h (by decide)

/-- The words of a small unit name its strings in the container. -/
theorem getElem?_writeWord (h : unit.Holds data) (small : unit.table.size ≤ 2 ^ 32)
    (fits : unit.writeIds.strings.length < 2 ^ 32) {text : String}
    (mem : text ∈ data.flatMap Datum.strings) :
    unit.writeIds.strings[(unit.writeWord text).toNat]? = some text := by
  have known : text ∈ unit.writeIds.strings := by
    rw [h.strings_eq small]
    exact List.mem_eraseDups.2 mem
  have bound := List.idxOf_lt_length_of_mem known
  rw [h.writeWord_eq small mem, toNat_toUInt32 (by omega), List.getElem?_eq_getElem bound,
    List.getElem_idxOf bound]

/-- Reading the code of data back gives the data. -/
theorem ofCode?_codes {text? : UInt32 → Option String} (h : unit.Holds data)
    (known : ∀ text ∈ data.flatMap Datum.strings, text? (unit.writeWord text) = some text) :
    (codes unit data).map (Datum.ofCode? text? unit.numbering) = data.map some := by
  obtain ⟨blocks, -⟩ := h
  rw [codes, List.map_map]
  generalize unit.blocks = l at blocks
  induction blocks with
  | nil => rfl
  | cons holds _ ih =>
    simp only [List.flatMap_cons, List.mem_append] at known
    rw [List.map_cons, List.map_cons, ih fun text mem => known text (.inr mem)]
    exact congrArg (· :: _)
      (Datum.ofCode?_code holds.wellFormed fun text mem => known text (.inl mem))

/-- A script means in its container what it means in its source: every block reads back, with the
strings of the container, as the datum of the form on its line. -/
theorem readBack_blocks_eq_data {numbering : Numbering} {source : String} {bytes : Array UInt8}
    (nul : '\x00' ∉ source.toList) (short : source.utf8ByteSize < 2 ^ 32)
    (written : (ofScript (.compile numbering source)).bytes = .ok bytes) :
    ∃ view, View.ofBytes bytes = .ok (.script view) ∧
      view.blocks.map (Datum.ofCode? (fun word => view.strings[word.toNat]?) numbering) =
        (ScriptUnit.compile numbering source).data ∧
      none ∉ (ScriptUnit.compile numbering source).data := by
  obtain ⟨data, h⟩ := ScriptUnit.exists_holds numbering source
  have small := ScriptUnit.small_table_compile numbering short
  -- each string has an entry in the container, whose size fits a word
  have fits : (ScriptUnit.compile numbering source).writeIds.strings.length < 2 ^ 32 := by
    have bound := (image_of_bytes (writesChunks_ofScript h) written).2
    have strings := le_length_container .script
      (scriptChunks (codes (.compile numbering source) data))
      (ScriptUnit.compile numbering source).writeIds.strings
    rw [image_ofScript, scriptContainer] at bound
    omega
  refine ⟨_, ofBytes_ofScript h written, ?_, ?_⟩
  · rw [h.data_eq small, untilNul_strings nul]
    exact ofCode?_codes h fun text mem => getElem?_writeWord h small fits mem
  · rw [h.data_eq small]
    simp

theorem readBack_blocks_eq_data_call :
    '\x00' ∉ "(set x (f \"a\" 2))\n(oops\n\"b\" ; c".toList ∧
      "(set x (f \"a\" 2))\n(oops\n\"b\" ; c".utf8ByteSize < 2 ^ 32 ∧
      ∃ bytes,
        (ofScript (.compile .standard "(set x (f \"a\" 2))\n(oops\n\"b\" ; c")).bytes = .ok bytes ∧
        ∃ view, View.ofBytes bytes = .ok (.script view) ∧
          view.blocks.map (Datum.ofCode? (fun word => view.strings[word.toNat]?) .standard) =
            (ScriptUnit.compile .standard "(set x (f \"a\" 2))\n(oops\n\"b\" ; c").data ∧
          none ∉ (ScriptUnit.compile .standard "(set x (f \"a\" 2))\n(oops\n\"b\" ; c").data := by
  have nul : '\x00' ∉ "(set x (f \"a\" 2))\n(oops\n\"b\" ; c".toList := by decide +kernel
  have short : "(set x (f \"a\" 2))\n(oops\n\"b\" ; c".utf8ByteSize < 2 ^ 32 := by decide +kernel
  obtain ⟨bytes, written⟩ : ∃ bytes,
      (ofScript (.compile .standard "(set x (f \"a\" 2))\n(oops\n\"b\" ; c")).bytes = .ok bytes :=
    exists_ok_of_isOk (by decide +kernel)
  exact ⟨nul, short, bytes, written, readBack_blocks_eq_data nul short written⟩

end Libretto.Binary
