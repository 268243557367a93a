/-
The definitions of a numbering are read as the numbering, in both directions.

A reader of definitions keeps two maps, from opcode to word and from word to opcode, and whoever
writes definitions takes them from the first of the maps, in an order that only the map knows.
Words differ, so there is one ascending order, and none of this shows.

* **`OpcodeMaps`** — the two maps, which are extended separately;
* **`OpcodeMaps.Holds.insert`**, **`holds_ofEntries`** — they hold the same entries at any time;
* **`Ascends`**, **`Ascends.unique`** — a numbering is listed in ascending order in one way only;
* **`reloads_text`** — the text of a numbering is read as that numbering, and its maps list it as it
  was written.
-/
import Libretto.Proofs.Opcode.Definitions
import Mathlib.Data.List.Induction
import Std.Data.HashMap.Lemmas

namespace Libretto

deriving instance Hashable for Opcode

/-- Entries in the order of their words. -/
def Definitions.inOrder (entries : List (Opcode × UInt32)) : List (Opcode × UInt32) :=
  entries.mergeSort fun a b => a.2 ≤ b.2

/-! ### The two maps -/

/-- A map from opcode to word and one from word to opcode. -/
structure OpcodeMaps where
  words : Std.HashMap Opcode UInt32
  ops : Std.HashMap UInt32 Opcode

namespace OpcodeMaps

/-- No entries. -/
def empty : OpcodeMaps := ⟨∅, ∅⟩

/-- One entry more, in either map. -/
def insert (maps : OpcodeMaps) (entry : Opcode × UInt32) : OpcodeMaps :=
  ⟨maps.words.insert entry.1 entry.2, maps.ops.insert entry.2 entry.1⟩

/-- The maps of entries that are inserted one behind the other. -/
def ofEntries (entries : List (Opcode × UInt32)) : OpcodeMaps :=
  entries.foldl insert empty

/-- Either map holds the entries and nothing else. -/
structure Holds (maps : OpcodeMaps) (entries : List (Opcode × UInt32)) : Prop where
  words : ∀ op word, maps.words[op]? = some word ↔ (op, word) ∈ entries
  ops : ∀ op word, maps.ops[word]? = some op ↔ (op, word) ∈ entries

variable {maps : OpcodeMaps} {entries : List (Opcode × UInt32)}

theorem holds_empty : empty.Holds [] := by
  constructor <;> intro op word <;> simp [empty]

/-- A new key replaces nothing. -/
theorem getElem?_insert_eq_some_iff {α β : Type} [BEq α] [LawfulBEq α] [Hashable α]
    {map : Std.HashMap α β} {key : α} (new : map[key]? = none) {value : β} {k : α} {v : β} :
    (map.insert key value)[k]? = some v ↔ map[k]? = some v ∨ k = key ∧ v = value := by
  rw [Std.HashMap.getElem?_insert]
  by_cases same : key = k
  · subst same
    simp [new, eq_comm]
  · simp [same, Ne.symm same]

/-- An entry whose opcode and word are both new extends either map. -/
theorem Holds.insert (h : maps.Holds entries) {entry : Opcode × UInt32}
    (new : ∀ other ∈ entries, other.1 ≠ entry.1 ∧ other.2 ≠ entry.2) :
    (maps.insert entry).Holds (entries ++ [entry]) := by
  have newName : maps.words[entry.1]? = none := by
    rw [Option.eq_none_iff_forall_ne_some]
    exact fun word found => (new _ ((h.words _ _).1 found)).1 rfl
  have newWord : maps.ops[entry.2]? = none := by
    rw [Option.eq_none_iff_forall_ne_some]
    exact fun op found => (new _ ((h.ops _ _).1 found)).2 rfl
  constructor
  · intro op word
    rw [OpcodeMaps.insert, getElem?_insert_eq_some_iff newName, h.words, List.mem_append,
      List.mem_singleton, Prod.ext_iff]
  · intro op word
    rw [OpcodeMaps.insert, getElem?_insert_eq_some_iff newWord, h.ops, List.mem_append,
      List.mem_singleton, Prod.ext_iff, and_comm (a := word = entry.2)]

/-- Maps of entries that share neither opcodes nor words hold them all. -/
theorem holds_ofEntries (distinct : entries.Pairwise fun a b => a.1 ≠ b.1 ∧ a.2 ≠ b.2) :
    (ofEntries entries).Holds entries := by
  induction entries using List.reverseRecOn with
  | nil => exact holds_empty
  | append_singleton entries entry ih =>
    obtain ⟨front, -, new⟩ := List.pairwise_append.1 distinct
    rw [ofEntries, List.foldl_append]
    exact (ih front).insert fun other mem => new other mem entry (List.mem_singleton_self entry)

end OpcodeMaps

namespace Numbering

open Definitions

variable {numbering : Numbering} {entries : List (Opcode × UInt32)} {maps : OpcodeMaps}

/-- The entries of a numbering share neither opcodes nor words, in whatever order they stand. -/
theorem distinct_entries (perm : entries.Perm (Opcode.all.map (entry numbering))) :
    entries.Pairwise fun a b => a.1 ≠ b.1 ∧ a.2 ≠ b.2 := by
  have symmetric {a b : Opcode × UInt32} (differ : a.1 ≠ b.1 ∧ a.2 ≠ b.2) :
      b.1 ≠ a.1 ∧ b.2 ≠ a.2 := ⟨differ.1.symm, differ.2.symm⟩
  rw [perm.pairwise_iff symmetric, List.pairwise_map]
  have nodup : Opcode.all.Nodup := by decide
  exact nodup.imp fun differ => ⟨differ, numbering.word_injective.ne differ⟩

theorem mem_entries_iff (perm : entries.Perm (Opcode.all.map (entry numbering))) {op : Opcode}
    {word : UInt32} : (op, word) ∈ entries ↔ numbering.word op = word := by
  rw [perm.mem_iff, List.mem_map]
  constructor
  · rintro ⟨other, -, same⟩
    obtain ⟨rfl, word⟩ := Prod.mk.inj same
    exact word
  · rintro rfl
    exact ⟨op, op.mem_all, rfl⟩

theorem nodup_entries (perm : entries.Perm (Opcode.all.map (entry numbering))) : entries.Nodup :=
  (distinct_entries perm).imp fun differ same => differ.1 (congrArg Prod.fst same)

/-- Going through the map from opcode to word meets the entries. -/
theorem perm_of_holds (perm : entries.Perm (Opcode.all.map (entry numbering)))
    (holds : maps.Holds entries) : maps.words.toList.Perm entries := by
  have once : maps.words.toList.Nodup := by
    refine maps.words.distinct_keys_toList.imp ?_
    rintro a b differ rfl
    simp at differ
  rw [List.perm_ext_iff_of_nodup once (nodup_entries perm)]
  rintro ⟨op, word⟩
  rw [Std.HashMap.mem_toList_iff_getElem?_eq_some, holds.words]

/-- The entries of a numbering, each opcode once with its word, in strictly ascending order. -/
structure Ascends (numbering : Numbering) (entries : List (Opcode × UInt32)) : Prop where
  perm : entries.Perm (Opcode.all.map (entry numbering))
  ascending : entries.Pairwise fun a b => a.2 < b.2

/-- There is one ascending order. -/
theorem Ascends.unique {other : List (Opcode × UInt32)} (h : numbering.Ascends entries)
    (h' : numbering.Ascends other) : entries = other := by
  have asymmetric (a b : Opcode × UInt32) (_ : a ∈ entries) (_ : b ∈ other) (less : a.2 < b.2)
      (more : b.2 < a.2) : a = b := absurd more (UInt32.lt_asymm less)
  exact (h.perm.trans h'.perm.symm).eq_of_pairwise asymmetric h.ascending h'.ascending

/-- Sorting arrives there, whatever the order in front of it. -/
theorem ascends_inOrder (perm : entries.Perm (Opcode.all.map (entry numbering))) :
    numbering.Ascends (inOrder entries) := by
  have sorted : (inOrder entries).Perm entries := List.mergeSort_perm _ _
  have weakly : (inOrder entries).Pairwise fun a b => decide (a.2 ≤ b.2) = true := by
    refine List.pairwise_mergeSort ?_ ?_ entries
    · intro a b c ab bc
      exact decide_eq_true (UInt32.le_trans (of_decide_eq_true ab) (of_decide_eq_true bc))
    · intro a b
      simpa using UInt32.le_total a.2 b.2
  refine ⟨sorted.trans perm, (weakly.and (distinct_entries (sorted.trans perm))).imp ?_⟩
  rintro a b ⟨le, differ⟩
  exact UInt32.lt_of_le_of_ne (of_decide_eq_true le) differ.2

theorem ascends_entries (numbering : Numbering) :
    numbering.Ascends (numbering.entries.map (entry numbering)) := by
  have same : numbering.entries.map (entry numbering) =
      inOrder (Opcode.all.map (entry numbering)) := List.map_mergeSort fun _ _ _ _ => rfl
  rw [same]
  exact ascends_inOrder (.refl _)

/-- Definitions that were accepted are the entries of the numbering that was read. -/
theorem perm_of_ofText {text : String} (accepted : ofText text = .ok numbering) :
    ∃ definitions, Definitions.empty.addLines 1 (Text.lines text.toList) = .ok definitions ∧
      definitions.entries.Perm (Opcode.all.map (entry numbering)) := by
  rw [ofText] at accepted
  split at accepted
  · cases accepted
  next definitions collected =>
    split at accepted
    · next complete =>
      obtain rfl := Except.ok.inj accepted
      refine ⟨definitions, collected, ?_⟩
      have once : definitions.entries.Nodup :=
        definitions.distinct.imp fun differ same => differ.1 (congrArg Prod.fst same)
      rw [List.perm_ext_iff_of_nodup once (nodup_entries (.refl _))]
      rintro ⟨op, word⟩
      rw [mem_entries_iff (.refl _), ← word?_eq_some_iff]
      exact Option.eq_some_iff_get_eq.trans (exists_prop_of_true _)
    · cases accepted

end Numbering

namespace OpcodeMaps

open Definitions

/-- The maps are those of a numbering: they give it in both directions, and whatever the order in
which the first of them is gone through, sorting leads to the entries of the numbering. -/
structure Represents (maps : OpcodeMaps) (numbering : Numbering) : Prop where
  words : ∀ op, maps.words[op]? = some (numbering.word op)
  ops : ∀ word, maps.ops[word]? = numbering.decode word
  entries : ∀ iterated, iterated.Perm maps.words.toList →
    inOrder iterated = numbering.entries.map (entry numbering)

theorem represents_ofEntries {numbering : Numbering} {entries : List (Opcode × UInt32)}
    (perm : entries.Perm (Opcode.all.map (entry numbering))) :
    (ofEntries entries).Represents numbering := by
  have holds := holds_ofEntries (Numbering.distinct_entries perm)
  refine ⟨fun op => ?_, fun word => ?_, fun iterated order => ?_⟩
  · rw [holds.words, Numbering.mem_entries_iff perm]
  · ext op
    rw [holds.ops, Numbering.mem_entries_iff perm, Numbering.decode_eq_some_iff]
  · have met := order.trans ((Numbering.perm_of_holds perm holds).trans perm)
    exact (Numbering.ascends_inOrder met).unique (Numbering.ascends_entries numbering)

end OpcodeMaps

namespace Numbering

open Definitions

/-- Every numbering is read from its own text, by maps that are again those of the numbering.  They
are so for every text that is read as the numbering, and for entries that are inserted in any order.
The entries are written in strictly ascending order, each of the 29 opcodes once. -/
theorem reloads_text (numbering : Numbering) :
    ofText numbering.text = .ok numbering ∧
      (∀ text, ofText text = .ok numbering → ∃ definitions,
        Definitions.empty.addLines 1 (Text.lines text.toList) = .ok definitions ∧
          (OpcodeMaps.ofEntries definitions.entries).Represents numbering) ∧
      (∀ entries, entries.Perm (Opcode.all.map (entry numbering)) →
        (OpcodeMaps.ofEntries entries).Represents numbering) ∧
      (∀ op, numbering.entries.count op = 1) ∧ numbering.entries.length = 29 ∧
      numbering.entries.Pairwise fun a b => numbering.word a < numbering.word b := by
  have once (op : Opcode) : Opcode.all.count op = 1 := by
    cases op <;> decide
  have ascending := (ascends_entries numbering).ascending
  rw [List.pairwise_map] at ascending
  refine ⟨ofText_text numbering, fun text accepted => ?_,
    fun entries => OpcodeMaps.represents_ofEntries, fun op => ?_, ?_, ascending⟩
  · obtain ⟨definitions, collected, perm⟩ := perm_of_ofText accepted
    exact ⟨definitions, collected, OpcodeMaps.represents_ofEntries perm⟩
  · rw [numbering.entries_perm.count_eq, once]
  · rw [numbering.entries_perm.length_eq]
    rfl

/-- The numbering that is built in, from entries that are inserted from the last to the first and
from its own text. -/
theorem reloads_text_standard :
    (OpcodeMaps.ofEntries (Opcode.all.reverse.map (entry standard))).Represents standard ∧
      ∃ definitions, Definitions.empty.addLines 1 (Text.lines standard.text.toList) =
        .ok definitions ∧ (OpcodeMaps.ofEntries definitions.entries).Represents standard := by
  obtain ⟨reloads, accepted, inserted, -⟩ := reloads_text standard
  exact ⟨inserted _ (Opcode.all.reverse_perm.map _), accepted _ reloads⟩

end Numbering

end Libretto
