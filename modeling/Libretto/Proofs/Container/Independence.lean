/-
The bytes of a script depend on its forms alone.

Two units with the same data can give their strings different ids, when the one source has lines
that the other has not.  Write ids are given anew in the order of the data, so that the containers
agree.

* **`write_congr`**, **`writeScript_congr`** — what a writer looks at: sizes, resolved blocks and
  strings;
* **`write_eq_of_holds`** — units with the same data are written alike, down to the errors;
* **`bytes_eq_of_same_data`** — so are sources with the same data, and sources that edits connect.
-/
import Libretto.Proofs.Container.Script
import Libretto.Proofs.Script.Edit

namespace Libretto.Binary

open Script Writer

/-! ### What the writers look at -/

theorem writeEntries_congr {blocks blocks' : List Block}
    (sizes : blocks.map (·.code.size) = blocks'.map (·.code.size)) :
    writeEntries blocks = writeEntries blocks' := by
  induction blocks generalizing blocks' with
  | nil =>
    obtain rfl := List.map_eq_nil_iff.1 sizes.symm
    rfl
  | cons block rest ih =>
    cases blocks' with
    | nil => cases sizes
    | cons block' rest' =>
      obtain ⟨size, sizes⟩ : block.code.size = block'.code.size ∧
          rest.map (·.code.size) = rest'.map (·.code.size) := List.cons.inj sizes
      rw [writeEntries, writeEntries, size, ih sizes]

theorem writeScript_congr {unit unit' : ScriptUnit} {ids ids' : WriteIds}
    (sizes : unit.blocks.map (·.code.size) = unit'.blocks.map (·.code.size))
    (resolved : unit.blocks.map (·.resolve ids) = unit'.blocks.map (·.resolve ids')) (top : Nat) :
    writeScript unit top ids = writeScript unit' top ids' := by
  have count : unit.blocks.length = unit'.blocks.length := by
    have lengths := congrArg List.length sizes
    rwa [List.length_map, List.length_map] at lengths
  have blocks : unit.blocks.map (writeBlock ids) = unit'.blocks.map (writeBlock ids') := by
    have written := congrArg (List.map writeResolved) resolved
    rwa [List.map_map, List.map_map] at written
  rw [writeScript, writeScript, writeScriptBy, writeScriptBy, count, writeEntries_congr sizes]
  simp only [writeBlocksBy_eq, blocks]

theorem writeStringList_congr {ids ids' : WriteIds} (size : ids.size = ids'.size)
    (strings : ids.strings = ids'.strings) :
    writeStringListBy offsetFrom ids = writeStringListBy offsetFrom ids' := by
  rw [writeStringListBy, writeStringListBy, size, strings]

theorem write_congr {contents contents' : Contents} (kind : contents.kind = contents'.kind)
    (strings : (contents.table.resolve contents.references).strings =
      (contents'.table.resolve contents'.references).strings)
    (chunks : ∀ top, contents.chunks top (contents.table.resolve contents.references) =
      contents'.chunks top (contents'.table.resolve contents'.references)) :
    contents.write = contents'.write := by
  have size : (contents.table.resolve contents.references).size =
      (contents'.table.resolve contents'.references).size := by
    rw [StringTable.size_resolve, StringTable.size_resolve, strings]
  have list := writeStringList_congr size strings
  simp only [write_eq_frame, Contents.writeFrameBy, kind, size, list, chunks]

/-! ### Units with the same data -/

variable {unit unit' : ScriptUnit} {data : List Datum}

theorem codes_eq (numbering : unit.numbering = unit'.numbering) (h : unit.Holds data)
    (h' : unit'.Holds data) (small : unit.table.size ≤ 2 ^ 32)
    (small' : unit'.table.size ≤ 2 ^ 32) : codes unit data = codes unit' data := by
  refine List.map_congr_left ?_
  intro d hd
  rw [numbering]
  refine Datum.code_congr _ ?_
  intro text mem
  -- in both units the word is the position of the text among the texts of the data
  have referred : text ∈ data.flatMap Datum.strings := List.mem_flatMap.2 ⟨d, hd, mem⟩
  rw [h.writeWord_eq small referred, h'.writeWord_eq small' referred, h.strings_eq small,
    h'.strings_eq small']

/-- Units with the same data are written alike. -/
theorem write_eq_of_holds (numbering : unit.numbering = unit'.numbering) (h : unit.Holds data)
    (h' : unit'.Holds data) (small : unit.table.size ≤ 2 ^ 32)
    (small' : unit'.table.size ≤ 2 ^ 32) : (ofScript unit).write = (ofScript unit').write := by
  have codes := codes_eq numbering h h' small small'
  refine write_congr rfl ?_ fun top => writeScript_congr ?_ ?_ top
  · exact (h.strings_eq small).trans (h'.strings_eq small').symm
  · rw [sizes_eq h, sizes_eq h', codes]
  · exact (resolve_eq_codes h).trans (codes ▸ (resolve_eq_codes h').symm)

/-- Sources of which the lines that compile have the same forms give the same bytes, or the same
error.  In particular such lines as make no block, comments, blanks and balanced tokens behind a
form can come and go. -/
theorem bytes_eq_of_same_data {numbering : Numbering} {source source' : String}
    (short : source.utf8ByteSize < 2 ^ 32) (short' : source'.utf8ByteSize < 2 ^ 32) :
    ((ScriptUnit.compile numbering source).data = (ScriptUnit.compile numbering source').data →
      (ofScript (.compile numbering source)).bytes =
        (ofScript (.compile numbering source')).bytes) ∧
    (Relation.EqvGen (Edit numbering) (Text.lines source.toList) (Text.lines source'.toList) →
      (ofScript (.compile numbering source)).bytes =
        (ofScript (.compile numbering source')).bytes) := by
  have small := ScriptUnit.small_table_compile numbering short
  have small' := ScriptUnit.small_table_compile numbering short'
  have bytes : ∀ {data}, (ScriptUnit.compile numbering source).Holds data →
      (ScriptUnit.compile numbering source').Holds data →
      (ofScript (.compile numbering source)).bytes =
        (ofScript (.compile numbering source')).bytes := by
    intro data h h'
    have write : (ofScript (.compile numbering source)).write =
        (ofScript (.compile numbering source')).write := write_eq_of_holds rfl h h' small small'
    simp only [Contents.bytes, write]
  constructor
  · intro same
    obtain ⟨data, h⟩ := ScriptUnit.exists_holds numbering source
    obtain ⟨data', h'⟩ := ScriptUnit.exists_holds numbering source'
    -- in small tables the forms that compiled have their data, and no two texts an id in common
    rw [h.data_eq small, h'.data_eq small'] at same
    obtain rfl := List.map_injective_iff.2 (fun _ _ => Option.some.inj) same
    exact bytes h h'
  · intro edits
    obtain ⟨data, has⟩ := exists_sourceHas numbering (Text.lines source.toList)
    exact bytes (ScriptUnit.compile_holds has)
      (ScriptUnit.compile_holds ((sourceHas_iff_of_eqvGen edits data).1 has))

/-- A comment, a trailing list and a line that is not closed intern strings of their own. -/
theorem bytes_eq_of_same_data_edited :
    "(say \"a\")".utf8ByteSize < 2 ^ 32 ∧
      "(oops \"b\"\n(say \"a\") (x \"c\") ; \"d\"".utf8ByteSize < 2 ^ 32 ∧
      Relation.EqvGen (Edit .standard) (Text.lines "(say \"a\")".toList)
        (Text.lines "(oops \"b\"\n(say \"a\") (x \"c\") ; \"d\"".toList) ∧
      (ofScript (.compile .standard "(say \"a\")")).bytes =
        (ofScript (.compile .standard "(oops \"b\"\n(say \"a\") (x \"c\") ; \"d\"")).bytes := by
  have short : "(say \"a\")".utf8ByteSize < 2 ^ 32 := by decide +kernel
  have short' : "(oops \"b\"\n(say \"a\") (x \"c\") ; \"d\"".utf8ByteSize < 2 ^ 32 := by
    decide +kernel
  have lines : Text.lines "(say \"a\")".toList = [] ++ ("(say \"a\")".toList ++ []) :: [] := by
    decide +kernel
  have lines' : Text.lines "(oops \"b\"\n(say \"a\") (x \"c\") ; \"d\"".toList =
      [] ++ "(oops \"b\"".toList ::
        [("(say \"a\")".toList ++ ' ' :: ("(x \"c\")".toList ++ ' ' :: [])) ++
          ';' :: " \"d\"".toList] := by
    decide +kernel
  have blank : LineEdit ("(say \"a\")".toList ++ []) ("(say \"a\")".toList ++ ([' '] ++ [])) :=
    .blanks (List.forall_mem_singleton.2 (by decide)) trivial
  have list : LineEdit ("(say \"a\")".toList ++ ' ' :: [])
      ("(say \"a\")".toList ++ ' ' :: ("(x \"c\")".toList ++ ' ' :: [])) :=
    .trailing .empty .empty (by decide) (by decide) rfl rfl (by decide) rfl rfl
  have edits : Relation.EqvGen (Edit .standard) (Text.lines "(say \"a\")".toList)
      (Text.lines "(oops \"b\"\n(say \"a\") (x \"c\") ; \"d\"".toList) := by
    rw [lines, lines']
    refine .trans _ _ _ (.rel _ _ (.change [] [] blank)) ?_
    refine .trans _ _ _ (.rel _ _ (.change [] [] list)) ?_
    refine .trans _ _ _ (.rel _ _ (.change [] [] (.comment _ " \"d\"".toList))) ?_
    exact .rel _ _ (.insert [] _ .empty (by decide +kernel))
  exact ⟨short, short', edits, (bytes_eq_of_same_data short short').2 edits⟩

end Libretto.Binary
