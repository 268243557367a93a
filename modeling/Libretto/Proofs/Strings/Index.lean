/-
What interning promises, and a table kept with an index.

A run of additions hands out an id for each text.  The ids stand for the texts from then on: equal
texts have equal ids, different ones different ids, and no later addition moves anything.

* **`idxOf_eraseDups_lt_iff`**, **`pairwise_idxOf_eraseDups`** — a list without its repetitions is
  ordered by first occurrence;
* **`StringTable.addAll`**, **`addAll_eq`** — a run of additions: every id that was handed out is
  the one that its text has in the last table;
* **`IndexedTable`** — the table as an array of texts and, beside it, a hash index from text to id,
  which an addition extends separately;
* **`IndexedTable.Represents`**, **`represents_addAll`** — the two stay inverse: an addition hands
  out the same id and keeps a table represented, and so does a run;
* **`StringTable.interns_addAll`** — all of it, for a run with at most `2 ^ 32` different texts.

The bound is needed for the way from text to id and back only: a position that outgrows 32 bits
wraps around to the id of another text, in the table and in the index alike.
-/
import Libretto.Proofs.Interning
import Mathlib.Data.Finset.Card

namespace Libretto

/-! ### First occurrences -/

section FirstOccurrence

variable {α : Type} [BEq α] [LawfulBEq α]

/-- Dropping other elements keeps the order in which two elements come first. -/
theorem idxOf_filter_lt_iff {p : α → Bool} {a b : α} (ha : p a = true) (hb : p b = true)
    (l : List α) : (l.filter p).idxOf a < (l.filter p).idxOf b ↔ l.idxOf a < l.idxOf b := by
  induction l with
  | nil => exact Iff.rfl
  | cons first rest ih =>
    by_cases kept : p first = true
    · rw [List.filter_cons_of_pos kept]
      simp only [List.idxOf_cons]
      cases first == a <;> cases first == b <;> simp [ih]
    · -- what is dropped is neither of the two, so both move by one place
      have notA : (first == a) = false := beq_false_of_ne fun same => kept (same ▸ ha)
      have notB : (first == b) = false := beq_false_of_ne fun same => kept (same ▸ hb)
      rw [List.filter_cons_of_neg kept, ih]
      simp only [List.idxOf_cons, notA, notB, cond_false, Nat.add_lt_add_iff_right]

/-- Dropping repetitions keeps the order in which elements come first. -/
theorem idxOf_eraseDups_lt_iff (l : List α) (a b : α) :
    l.eraseDups.idxOf a < l.eraseDups.idxOf b ↔ l.idxOf a < l.idxOf b := by
  cases l with
  | nil => exact Iff.rfl
  | cons first rest =>
    rw [List.eraseDups_cons]
    simp only [List.idxOf_cons]
    cases hA : first == a with
    | true => cases first == b <;> simp
    | false =>
      cases hB : first == b with
      | true => simp
      | false =>
        -- neither is the first element, so both stand among the others
        let kept : α → Bool := fun other => !other == first
        have others := idxOf_eraseDups_lt_iff (rest.filter kept) a b
        have keptA : kept a = true := by simp [kept, (ne_of_beq_false hA).symm]
        have keptB : kept b = true := by simp [kept, (ne_of_beq_false hB).symm]
        rw [idxOf_filter_lt_iff keptA keptB] at others
        simpa [kept] using others
  termination_by l.length
  decreasing_by exact Nat.lt_succ_of_le (List.length_filter_le _ rest)

/-- Without its repetitions a list is ordered by first occurrence. -/
theorem pairwise_idxOf_eraseDups (l : List α) :
    l.eraseDups.Pairwise fun a b => l.idxOf a < l.idxOf b := by
  rw [List.pairwise_iff_getElem]
  intro i j hi hj less
  rw [← idxOf_eraseDups_lt_iff, (StringTable.nodup_eraseDups l).idxOf_getElem,
    (StringTable.nodup_eraseDups l).idxOf_getElem]
  exact less

end FirstOccurrence

/-! ### Runs of additions -/

namespace StringTable

variable {table : StringTable}

/-- Interns texts from left to right: the ids that are handed out, and the last table. -/
def addAll (table : StringTable) : List String → List StringId × StringTable
  | [] => ([], table)
  | text :: rest =>
    let (id, table) := table.add text
    let (ids, table) := table.addAll rest
    (id :: ids, table)

/-- Every id that was handed out is the one that its text has in the last table. -/
theorem addAll_eq (table : StringTable) (texts : List String) :
    table.addAll texts = (texts.map (table.insertAll texts).idOf, table.insertAll texts) := by
  induction texts generalizing table with
  | nil => rfl
  | cons text rest ih =>
    have later : table.insertAll (text :: rest) = (table.insert text).insertAll rest := rfl
    have kept : table.idOf text = ((table.insert text).insertAll rest).idOf text :=
      (idOf_of_insert_le (le_insertAll (table.insert text) rest)).symm
    simp only [addAll, add, ih, later, List.map_cons, kept]

theorem addAll_append (table : StringTable) (front back : List String) :
    table.addAll (front ++ back) =
      ((table.addAll front).1 ++ ((table.addAll front).2.addAll back).1,
        ((table.addAll front).2.addAll back).2) := by
  induction front generalizing table with
  | nil => rfl
  | cons text rest ih => simp only [List.cons_append, addAll, ih]

/-- From text to id and from id to text are inverse to each other in a small table. -/
theorem find?_eq_some_iff (small : table.size ≤ 2 ^ 32) {text : String} {id : StringId} :
    table.find? text = some id ↔ table.get? id = some text := by
  constructor
  · intro found
    rw [find?] at found
    split at found
    · next mem =>
      obtain rfl := Option.some.inj found
      exact get?_idOf small mem
    · cases found
  · intro found
    rw [find?, if_pos (mem_of_get? found), idOf_of_get? found]

/-- A text that is found keeps its id. -/
theorem find?_of_le {later : StringTable} (h : table ≤ later) {text : String} {id : StringId}
    (found : table.find? text = some id) : later.find? text = some id := by
  rw [find?] at found
  split at found
  · next mem => rw [find?, if_pos (mem_of_le h mem), idOf_of_le h mem, found]
  · cases found

/-- In a small table different texts have different ids. -/
theorem idOf_inj (small : table.size ≤ 2 ^ 32) {a b : String} (ha : a ∈ table.texts)
    (hb : b ∈ table.texts) : table.idOf a = table.idOf b ↔ a = b := by
  refine ⟨?_, congrArg table.idOf⟩
  intro same
  have found := get?_idOf small ha
  rw [same, get?_idOf small hb] at found
  exact (Option.some.inj found).symm

end StringTable

/-! ### A table with an index -/

/-- The texts of a table in an array, and an index from text to id beside it. -/
structure IndexedTable where
  texts : Array String
  index : Std.HashMap String StringId

namespace IndexedTable

/-- The table without strings. -/
def empty : IndexedTable := ⟨#[], ∅⟩

/-- Interns a text.  One that the index does not know goes to the end of the array and into the
index. -/
def add (t : IndexedTable) (text : String) : StringId × IndexedTable :=
  match t.index[text]? with
  | some id => (id, t)
  | none =>
    let id := .ofPosition t.texts.size
    (id, ⟨t.texts.push text, t.index.insert text id⟩)

/-- Interns texts from left to right: the ids that are handed out, and the last table. -/
def addAll (t : IndexedTable) : List String → List StringId × IndexedTable
  | [] => ([], t)
  | text :: rest =>
    let (id, t) := t.add text
    let (ids, t) := t.addAll rest
    (id :: ids, t)

/-- The array holds the texts of the table, and the index knows exactly these, with their ids. -/
structure Represents (t : IndexedTable) (table : StringTable) : Prop where
  texts : t.texts.toList = table.texts
  index : ∀ text, t.index[text]? = table.find? text

variable {t : IndexedTable} {table : StringTable}

theorem represents_empty : empty.Represents .empty := by
  refine ⟨rfl, fun text => ?_⟩
  rw [empty, Std.HashMap.getElem?_empty, StringTable.find?, if_neg (by simp)]

/-- One addition hands out the same id, and array and index stay inverse. -/
theorem Represents.add (h : t.Represents table) (text : String) :
    (t.add text).1 = (table.add text).1 ∧ (t.add text).2.Represents (table.add text).2 := by
  have known := h.index text
  rw [StringTable.find?] at known
  rw [IndexedTable.add, StringTable.add, known]
  by_cases mem : text ∈ table.texts
  · have same : table.insert text = table := dif_pos mem
    rw [if_pos mem, same]
    exact ⟨rfl, h⟩
  · rw [if_neg mem]
    have texts := StringTable.texts_insert table text
    rw [if_neg mem] at texts
    -- the position at the end is the one that the new text gets
    have position : StringId.ofPosition t.texts.size = table.idOf text := by
      rw [StringTable.idOf, List.idxOf_eq_length mem, ← h.texts, Array.length_toList]
    refine ⟨position, ?_, ?_⟩
    · rw [texts, ← h.texts, Array.toList_push]
    · intro other
      rw [Std.HashMap.getElem?_insert, position, h.index]
      by_cases same : text = other
      · subst same
        rw [if_pos (beq_self_eq_true text), StringTable.find?_insert]
      · have mem_iff : other ∈ (table.insert text).texts ↔ other ∈ table.texts := by
          rw [texts, List.mem_append, List.mem_singleton]
          exact ⟨fun found => found.resolve_right fun e => same e.symm, Or.inl⟩
        rw [if_neg (by simpa using same), StringTable.find?, StringTable.find?]
        by_cases found : other ∈ table.texts
        · rw [if_pos found, if_pos (mem_iff.2 found),
            StringTable.idOf_of_le (StringTable.le_insert table text) found]
        · rw [if_neg found, if_neg (mt mem_iff.1 found)]

/-- A run of additions hands out the same ids, and array and index are inverse at its end. -/
theorem represents_addAll (h : t.Represents table) (texts : List String) :
    (t.addAll texts).1 = (table.addAll texts).1 ∧
      (t.addAll texts).2.Represents (table.addAll texts).2 := by
  induction texts generalizing t table with
  | nil => exact ⟨rfl, h⟩
  | cons text rest ih =>
    obtain ⟨id, step⟩ := h.add text
    obtain ⟨ids, run⟩ := ih step
    exact ⟨congrArg₂ List.cons id ids, run⟩

end IndexedTable

namespace StringTable

/-- What a run of additions to an empty table promises. -/
structure Interns (texts : List String) (ids : List StringId) (table : StringTable) : Prop where
  /-- The table holds each text once, in the order of first addition. -/
  mem_texts : ∀ text, text ∈ table.texts ↔ text ∈ texts
  nodup : table.texts.Nodup
  ordered : table.texts.Pairwise fun a b => texts.idxOf a < texts.idxOf b
  find?_iff : ∀ text id, table.find? text = some id ↔ table.get? id = some text
  /-- Every addition hands out an id, which names its text in the last table. -/
  handed : ids.map table.get? = texts.map some
  /-- Two additions hand out the same id exactly if they are of the same text. -/
  same : ∀ (i j : Nat) (a b : StringId) (s t : String), ids[i]? = some a → ids[j]? = some b →
    texts[i]? = some s → texts[j]? = some t → (a = b ↔ s = t)
  /-- No addition changes an id or a text that was known before it. -/
  keeps : ∀ front back, front ++ back = texts →
    (empty.addAll front).1 <+: ids ∧
      (∀ id text, (empty.addAll front).2.get? id = some text → table.get? id = some text) ∧
        ∀ text id, (empty.addAll front).2.find? text = some id → table.find? text = some id
  /-- An array with an index hands out the same ids, and holds the table in both. -/
  indexed : (IndexedTable.empty.addAll texts).1 = ids ∧
    (IndexedTable.empty.addAll texts).2.Represents table

/-- Every run of additions with at most `2 ^ 32` different texts interns them. -/
theorem interns_addAll (texts : List String) (small : texts.toFinset.card ≤ 2 ^ 32) :
    Interns texts (empty.addAll texts).1 (empty.addAll texts).2 := by
  have run : empty.addAll texts = (texts.map (ofList texts).idOf, ofList texts) :=
    addAll_eq empty texts
  have held : (ofList texts).texts.toFinset = texts.toFinset := by
    ext text
    rw [List.mem_toFinset, List.mem_toFinset, mem_texts_ofList]
  have fits : (ofList texts).size ≤ 2 ^ 32 := by
    rw [size, ← List.toFinset_card_of_nodup (ofList texts).distinct, held]
    exact small
  refine ⟨?_, ?_, ?_, ?_, ?_, ?_, ?_, ?_⟩
  · rw [run]
    exact fun text => mem_texts_ofList
  · exact (empty.addAll texts).2.distinct
  · rw [run, texts_ofList]
    exact pairwise_idxOf_eraseDups texts
  · rw [run]
    exact fun text id => find?_eq_some_iff fits
  · rw [run, List.map_map]
    exact List.map_congr_left fun text mem => get?_idOf fits (mem_texts_ofList.2 mem)
  · rw [run]
    intro i j a b s t ha hb hs ht
    rw [List.getElem?_map, hs] at ha
    rw [List.getElem?_map, ht] at hb
    obtain rfl := Option.some.inj ha
    obtain rfl := Option.some.inj hb
    exact idOf_inj fits (mem_texts_ofList.2 (List.mem_of_getElem? hs))
      (mem_texts_ofList.2 (List.mem_of_getElem? ht))
  · rintro front back rfl
    rw [addAll_append]
    have le : (empty.addAll front).2 ≤ ((empty.addAll front).2.addAll back).2 := by
      rw [addAll_eq (empty.addAll front).2]
      exact le_insertAll _ _
    exact ⟨List.prefix_append _ _, fun id text => get?_of_le le, fun text id => find?_of_le le⟩
  · exact IndexedTable.represents_addAll IndexedTable.represents_empty texts

/-- A text that is added again, between others. -/
theorem interns_addAll_repeated :
    ["a", "", "a", "é"].toFinset.card ≤ 2 ^ 32 ∧
      (empty.addAll ["a", "", "a", "é"]).1 = [⟨0⟩, ⟨1⟩, ⟨0⟩, ⟨2⟩] ∧
      Interns ["a", "", "a", "é"] (empty.addAll ["a", "", "a", "é"]).1
        (empty.addAll ["a", "", "a", "é"]).2 := by
  have small : ["a", "", "a", "é"].toFinset.card ≤ 2 ^ 32 := by decide
  exact ⟨small, by decide, interns_addAll _ small⟩

end StringTable

end Libretto
