/-
Containers under another numbering of opcodes.

A numbering decides over opcode words, and over nothing else.  A source reports the same, interns
the same strings and makes the same blocks under all numberings; in the containers only the words
differ at which instructions begin:

* **`SourceHas.renumbered`** — the data of a source;
* **`DifferWithin`** — bytes that differ at some positions only, with `DifferWithin.words` and
  `DifferWithin.spread`: from words to bytes, and from regions to the bytes that they make up;
* **`beside_scriptRegions`**, **`beside_frame`** — codes of the same sizes are placed alike;
* **`Renumbers`**, **`renumbers_of_compile`** — what two numberings have in common.
-/
import Libretto.Proofs.Code.Words
import Libretto.Proofs.Container.Placement
import Libretto.Proofs.Script.Correspondence

namespace Libretto.Script

/-- Whether a datum compiles hangs on no numbering. -/
theorem Datum.Compiles.renumbered {first second : Numbering} {d : Datum}
    (h : d.Compiles first) : d.Compiles second := by
  obtain ⟨block, compiled⟩ := h
  obtain ⟨-, ⟨_, block', -, here⟩ | ⟨e, _, failed, -⟩⟩ :=
    d.compile_alongside first second default default interningKeeps_eq (P := fun _ => True)
      (fun _ _ => trivial) (Eq.refl StringTable.empty)
  · exact ⟨block', here⟩
  · rw [compiled] at failed
    cases failed

theorem LineHas.renumbered {first second : Numbering} {line : List Char} {d : Datum}
    (h : LineHas first line d) : LineHas second line d :=
  ⟨h.closed, h.reads, h.compiles.renumbered⟩

theorem SourceHas.renumbered {first second : Numbering} {lines : List (List Char)}
    {data : List Datum} (h : SourceHas first lines data) : SourceHas second lines data := by
  induction h with
  | nil => exact .nil
  | has here _ ih => exact .has here.renumbered ih
  | skip here _ ih => exact .skip (fun d has => here d has.renumbered) ih

end Libretto.Script

namespace Libretto.Binary

open Script

/-! ### Bytes that differ at some positions -/

/-- Bytes of one length, from a position on, that differ at most where it is allowed. -/
structure DifferWithin (allowed : Nat → Prop) (position : Nat) (bytes bytes' : List UInt8) :
    Prop where
  length : bytes'.length = bytes.length
  same : ∀ k, ¬ allowed (position + k) → bytes'[k]? = bytes[k]?

/-- Regions that stand at one position, and differ at most where it is allowed. -/
structure Beside (allowed : Nat → Prop) (r r' : Region) : Prop where
  start : r'.start = r.start
  bytes : DifferWithin allowed r.start r.bytes r'.bytes

section

variable {allowed : Nat → Prop} {position : Nat} {part part' more more' : List UInt8}
  {regions regions' : List Region}

theorem DifferWithin.refl (allowed : Nat → Prop) (position : Nat) (part : List UInt8) :
    DifferWithin allowed position part part :=
  ⟨rfl, fun _ _ => rfl⟩

theorem DifferWithin.append (first : DifferWithin allowed position part part')
    (second : DifferWithin allowed (position + part.length) more more') :
    DifferWithin allowed position (part ++ more) (part' ++ more') := by
  refine ⟨?_, ?_⟩
  · rw [List.length_append, List.length_append, first.length, second.length]
  · intro k outside
    by_cases inside : k < part.length
    · rw [List.getElem?_append_left (first.length ▸ inside), List.getElem?_append_left inside]
      exact first.same k outside
    · have behind := Nat.le_of_not_lt inside
      have at_k : position + part.length + (k - part.length) = position + k := by omega
      rw [List.getElem?_append_right (first.length ▸ behind), List.getElem?_append_right behind,
        first.length]
      exact second.same _ (at_k ▸ outside)

/-- Where a byte of words stands. -/
theorem getElem?_flatMap_wordBytes (words : List UInt32) (k : Nat) :
    (words.flatMap wordBytes)[k]? = words[k / 4]?.bind fun word => (wordBytes word)[k % 4]? := by
  induction words generalizing k with
  | nil => simp
  | cons word rest ih =>
    rw [List.flatMap_cons]
    by_cases inside : k < 4
    · have first : k / 4 = 0 := Nat.div_eq_of_lt inside
      rw [List.getElem?_append_left (by rwa [length_wordBytes]), first, Nat.mod_eq_of_lt inside]
      rfl
    · have next : k / 4 = (k - 4) / 4 + 1 := by omega
      have same : (k - 4) % 4 = k % 4 := by omega
      rw [List.getElem?_append_right (by rw [length_wordBytes]; omega), length_wordBytes, ih, next,
        same, List.getElem?_cons_succ]

/-- Words that differ where all their bytes may. -/
theorem DifferWithin.words {code code' : List UInt32} (length : code'.length = code.length)
    (same : ∀ k, code'[k]? = code[k]? ∨ ∀ j < 4, allowed (position + (4 * k + j))) :
    DifferWithin allowed position (code.flatMap wordBytes) (code'.flatMap wordBytes) := by
  refine ⟨?_, ?_⟩
  · rw [length_flatMap_wordBytes, length_flatMap_wordBytes, length]
  · intro k outside
    rcases same (k / 4) with here | all
    · rw [getElem?_flatMap_wordBytes, getElem?_flatMap_wordBytes, here]
    · have within := all (k % 4) (Nat.mod_lt k (by decide))
      rw [Nat.div_add_mod] at within
      exact absurd within outside

/-! ### Regions side by side -/

theorem Beside.refl (allowed : Nat → Prop) (r : Region) : Beside allowed r r :=
  ⟨rfl, .refl _ _ _⟩

theorem Beside.stop {r r' : Region} (h : Beside allowed r r') : r'.stop = r.stop := by
  rw [Region.stop, Region.stop, h.start, h.bytes.length]

theorem reach_beside (h : List.Forall₂ (Beside allowed) regions regions') :
    reach position regions' = reach position regions := by
  induction h generalizing position with
  | nil => rfl
  | cons beside _ ih => rw [reach, reach, ih, beside.stop]

/-- What a table says of regions by their positions and sizes. -/
theorem flatMap_beside (f : Nat → Nat → List UInt8)
    (h : List.Forall₂ (Beside allowed) regions regions') :
    (regions'.flatMap fun r => f r.start r.bytes.length) =
      regions.flatMap fun r => f r.start r.bytes.length := by
  induction h with
  | nil => rfl
  | cons beside _ ih => rw [List.flatMap_cons, List.flatMap_cons, ih, beside.start,
      beside.bytes.length]

/-- Regions side by side make up bytes that differ where the regions do. -/
theorem DifferWithin.spread (h : List.Forall₂ (Beside allowed) regions regions')
    (ordered : Ordered position regions) :
    DifferWithin allowed position (spread position regions) (spread position regions') := by
  induction h generalizing position with
  | nil => exact .refl _ _ _
  | @cons r r' _ _ beside _ ih =>
    obtain ⟨le, ordered⟩ := ordered
    have start : position + (List.replicate (r.start - position) (0 : UInt8)).length = r.start := by
      rw [List.length_replicate]
      omega
    rw [Binary.spread, Binary.spread, beside.start, beside.stop]
    refine (refl _ _ _).append ?_
    rw [start]
    exact beside.bytes.append (ih ordered)

/-- Parts of the same sizes are placed at the same positions. -/
theorem forall₂_place {R : List UInt8 → List UInt8 → Prop}
    (lengths : ∀ part part', R part part' → part'.length = part.length)
    {parts parts' : List (List UInt8)} (h : List.Forall₂ R parts parts') (boundary position : Nat) :
    List.Forall₂ (fun r r' : Region => r'.start = r.start ∧ R r.bytes r'.bytes)
      (place boundary position parts) (place boundary position parts') := by
  induction h generalizing position with
  | nil => exact .nil
  | cons related _ ih =>
    rw [place, place, lengths _ _ related]
    exact .cons ⟨rfl, related⟩ (ih _)

end

/-! ### Codes under two numberings -/

/-- A byte of a word at which an instruction begins, in the container of a script. -/
def OpcodeAt (numbering : Numbering) (codes : List (List UInt32)) (position : Nat) : Prop :=
  ∃ r ∈ blockRegions codes, ∃ code ∈ codes, r.bytes = code.flatMap wordBytes ∧
    ∃ instructions, Instruction.decode numbering code = .ok instructions ∧
      ∃ i ∈ instructions, r.start + 4 * i.offset ≤ position ∧ position < r.start + 4 * i.offset + 4

section

variable {first second : Numbering} {codes codes' : List (List UInt32)}

theorem beside_blockRegions (h : List.Forall₂ (Renumbered first second) codes codes') :
    List.Forall₂ (Beside (OpcodeAt first codes)) (blockRegions codes) (blockRegions codes') := by
  let R (part part' : List UInt8) : Prop := ∃ code ∈ codes, ∃ code',
    part = code.flatMap wordBytes ∧ part' = code'.flatMap wordBytes ∧
      Renumbered first second code code'
  have parts : List.Forall₂ R (codes.map (List.flatMap wordBytes))
      (codes'.map (List.flatMap wordBytes)) := by
    rw [List.forall₂_map_left_iff, List.forall₂_map_right_iff]
    refine ((List.forall₂_and_left _ _).2 ⟨fun _ mem => mem, h⟩).imp ?_
    exact fun code code' ⟨mem, alike⟩ => ⟨code, mem, code', rfl, rfl, alike⟩
  have lengths : ∀ part part', R part part' → part'.length = part.length := by
    rintro _ _ ⟨code, -, code', rfl, rfl, alike⟩
    rw [length_flatMap_wordBytes, length_flatMap_wordBytes, alike.length]
  have placed := forall₂_place lengths parts alignment
    (aligned alignment (scriptTableEnd codes.length) + 4)
  have regions : blockRegions codes' = place alignment
      (aligned alignment (scriptTableEnd codes.length) + 4)
      (codes'.map (List.flatMap wordBytes)) := by
    rw [blockRegions, h.length_eq]
  rw [regions]
  refine ((List.forall₂_and_left _ _).2 ⟨fun _ mem => mem, placed⟩).imp ?_
  rintro r r' ⟨mem, start, code, among, code', bytes, bytes', length, instructions⟩
  obtain ⟨instructions, decoded, -, same⟩ := instructions
  refine ⟨start, ?_⟩
  rw [bytes, bytes']
  -- a word is that of an opcode, all bytes of which may differ, or it is the same in both codes
  refine .words length fun k => ?_
  by_cases begins : ∃ i ∈ instructions, i.offset = k
  · obtain ⟨i, hi, rfl⟩ := begins
    refine .inr fun j small => ?_
    exact ⟨r, mem, code, among, bytes, instructions, decoded, i, hi, by omega, by omega⟩
  · exact .inl (same k fun i hi at_k => begins ⟨i, hi, at_k⟩)

/-- The entry of a block says nothing about its words. -/
theorem beside_scriptRegions (h : List.Forall₂ (Renumbered first second) codes codes') :
    List.Forall₂ (Beside (OpcodeAt first codes)) (scriptRegions codes) (scriptRegions codes') := by
  have blocks := beside_blockRegions h
  have entries := flatMap_beside
    (fun start length => wordBytes start.toUInt32 ++ wordBytes (length / 4).toUInt32) blocks
  rw [scriptRegions, scriptRegions, entries, ← h.length_eq]
  exact .cons (.refl _ _) (.cons (.refl _ _) blocks)

theorem beside_frame {allowed : Nat → Prop} {chunks chunks' : List Region} (kind : Tag)
    (h : List.Forall₂ (Beside allowed) chunks chunks') (strings : List String) :
    List.Forall₂ (Beside allowed) (frame kind chunks strings) (frame kind chunks' strings) := by
  simp only [frame, reach_append, reach_beside h]
  exact .cons (.refl _ _) (List.rel_append h (List.forall₂_same.2 fun r _ => .refl _ r))

theorem differWithin_scriptContainer (h : List.Forall₂ (Renumbered first second) codes codes')
    (strings : List String) :
    DifferWithin (OpcodeAt first codes) 0 (scriptContainer codes strings)
      (scriptContainer codes' strings) := by
  have whole := makeUp_frame .script (makeUp_scriptRegions codes) strings
  have whole' := makeUp_frame .script (makeUp_scriptRegions codes') strings
  rw [scriptContainer, scriptContainer, ← whole.spread_eq, ← whole'.spread_eq]
  exact .spread (beside_frame .script (beside_scriptRegions h) strings) whole.ordered

end

/-! ### Units under two numberings -/

/-- What a unit has in common with itself under another numbering. -/
structure Renumbers (unit unit' : ScriptUnit) : Prop where
  diagnostics : unit'.diagnostics = unit.diagnostics
  table : unit'.table = unit.table
  blocks : List.Forall₂ (Block.Renumbers unit.numbering unit'.numbering) unit.blocks unit'.blocks
  bytes : ∀ bytes, (ofScript unit).bytes = .ok bytes →
    ∃ bytes', (ofScript unit').bytes = .ok bytes' ∧ bytes'.size = bytes.size ∧
      ∃ codes, ScriptLayout unit codes bytes ∧
        ∀ k, ¬ OpcodeAt unit.numbering codes k → bytes'[k]? = bytes[k]?

variable {unit unit' : ScriptUnit} {data : List Datum}

theorem writeIds_eq (h : unit.Holds data) (h' : unit'.Holds data)
    (table : unit'.table = unit.table) : unit'.writeIds = unit.writeIds := by
  rw [ScriptUnit.writeIds, ScriptUnit.writeIds, h.references_eq, h'.references_eq, table]

/-- The codes of the same data under the same table. -/
theorem forall₂_codes (h : unit.Holds data) (h' : unit'.Holds data)
    (table : unit'.table = unit.table) :
    List.Forall₂ (Renumbered unit.numbering unit'.numbering) (codes unit data)
      (codes unit' data) := by
  have words : unit'.writeWord = unit.writeWord := by
    funext text
    rw [ScriptUnit.writeWord, ScriptUnit.writeWord, writeIds_eq h h' table, table]
  obtain ⟨blocks, -⟩ := h
  rw [codes, codes, words]
  clear h'
  generalize unit.blocks = l at blocks
  induction blocks with
  | nil => exact .nil
  | cons holds _ ih => exact .cons (Datum.renumbered_code holds.wellFormed _ _ _) ih

/-- Units with the same data and the same table are written alike, but for opcode words. -/
theorem exists_bytes_of_holds (h : unit.Holds data) (h' : unit'.Holds data)
    (table : unit'.table = unit.table) {bytes : Bytes}
    (written : (ofScript unit).bytes = .ok bytes) :
    ∃ bytes', (ofScript unit').bytes = .ok bytes' ∧ bytes'.size = bytes.size ∧
      ∃ codes, ScriptLayout unit codes bytes ∧
        ∀ k, ¬ OpcodeAt unit.numbering codes k → bytes'[k]? = bytes[k]? := by
  have layout := scriptLayout_of_bytes h written
  obtain ⟨rfl, small⟩ := image_of_bytes (writesChunks_ofScript h) written
  -- the two layouts have one size, so the second one is written as well
  have differ := differWithin_scriptContainer (forall₂_codes h h' table) unit.writeIds.strings
  have image : (ofScript unit').image (scriptChunks (codes unit' data)) =
      scriptContainer (codes unit' data) unit.writeIds.strings := by
    rw [image_ofScript, writeIds_eq h h' table]
  rw [image_ofScript] at small layout ⊢
  rw [← differ.length, ← image] at small
  refine ⟨_, bytes_of_image (writesChunks_ofScript h') small, ?_, _, layout, ?_⟩
  · rw [image]
    exact differ.length
  · intro k outside
    rw [image, List.getElem?_toArray, List.getElem?_toArray]
    exact differ.same k (by rwa [Nat.zero_add])

/-- Renumbering opcodes changes opcode words and nothing else. -/
theorem renumbers_of_compile (first second : Numbering) (source : String) :
    Renumbers (.compile first source) (.compile second source) := by
  obtain ⟨data, has⟩ := exists_sourceHas first (Text.lines source.toList)
  have h := ScriptUnit.compile_holds has
  have h' : (ScriptUnit.compile second source).Holds data :=
    ScriptUnit.compile_holds has.renumbered
  obtain ⟨table, same⟩ : (ScriptUnit.compile first source).table =
        (ScriptUnit.compile second source).table ∧
      List.Forall₂ (Outcome.Corresponds first second (ScriptUnit.compile first source).table
        (ScriptUnit.compile second source).table) (ScriptUnit.compile first source).outcomes
        (ScriptUnit.compile second source).outcomes :=
    Outcome.ofLines_corresponds interningKeeps_eq (Text.lines source.toList)
      (Eq.refl StringTable.empty)
  have table := table.symm
  refine ⟨?_, table, ?_, fun bytes written => exists_bytes_of_holds h h' table written⟩
  · rw [table] at same
    have reports := (Outcome.diagnostics_of_corresponds same 1 0).imp fun _ _ alike => alike.eq
    rw [List.forall₂_eq_eq_eq] at reports
    exact reports.symm
  · refine (Outcome.blocks_of_corresponds same).imp ?_
    rintro block block' ⟨d, here, there⟩
    rw [table] at there
    exact here.renumbers there

/-- A numbering from 0 on: its words are those of offsets, of counts and of ids, too. -/
theorem renumbers_of_compile_from_zero :
    ∃ numbering : Numbering, numbering.word .enter = 0 ∧ numbering.word .leave = 1 ∧
      (∃ bytes, (ofScript (.compile .standard "(if x (f \"a\" 1) y)\n(set \"b\" 1)")).bytes =
        .ok bytes) ∧
      Renumbers (.compile .standard "(if x (f \"a\" 1) y)\n(set \"b\" 1)")
        (.compile numbering "(if x (f \"a\" 1) y)\n(set \"b\" 1)") := by
  have distinct : ∀ a ∈ Opcode.all, ∀ b ∈ Opcode.all,
      (Opcode.all.idxOf a).toUInt32 = (Opcode.all.idxOf b).toUInt32 → a = b := by decide
  refine ⟨⟨fun op => (Opcode.all.idxOf op).toUInt32,
    fun a b => distinct a a.mem_all b b.mem_all⟩, rfl, rfl, ?_, renumbers_of_compile _ _ _⟩
  exact exists_ok_of_isOk (by decide +kernel)

end Libretto.Binary
