/-
Write ids are numbers by first reference.

The write id of a string is the number of strings that are referred to in front of it, so the
numbers run from 0 without gaps.  Ids of other tables and strings that nobody refers to leave no
trace.

* **`earlier`**, **`idxOf_order`** — the position of an id among those referred to, counted from the
  references;
* **`length_order_le`** — ids are words, so there are never more positions than words;
* **`Numbers`** — what the write ids of a table promise, and **`Alike`** — what can be seen of them;
* **`Assignment`** — one pass over the references, which keeps an array with the write id of each
  string and the list of strings by write id, and extends them separately;
* **`Assignment.Represents`**, **`represents_ofReferences`** — the two arrays stay inverse to each
  other over any references;
* **`numbers_resolve`** — all of it, for every table and all references.
-/
import Libretto.Proofs.Strings.Index

namespace Libretto

namespace WriteIds

/-- Nothing that is asked of write ids tells them apart. -/
structure Alike (ids other : WriteIds) : Prop where
  size : ids.size = other.size
  writeId? : ∀ id, ids.writeId? id = other.writeId? id
  strings : ids.strings = other.strings
  lookup : ∀ word, ids.lookup word = other.lookup word

/-- Write ids in the same order, under tables that agree on it, are alike. -/
theorem alike_of_order {ids other : WriteIds} (order : ids.order = other.order)
    (texts : ∀ id ∈ other.order, ids.table.get? id = other.table.get? id) : ids.Alike other := by
  refine ⟨?_, ?_, ?_, ?_⟩
  · rw [size, order, size]
  · intro id
    rw [writeId?, order, writeId?]
  · rw [strings, order, strings]
    exact List.filterMap_congr texts
  · intro word
    rw [lookup, order, lookup]
    refine Option.bind_congr ?_
    intro id found
    exact texts id (List.mem_of_getElem? found)

end WriteIds

namespace StringTable

variable {table : StringTable} {references : List StringId} {id : StringId} {word : UInt32}

/-- The id names a string of the table. -/
def knows (table : StringTable) (id : StringId) : Bool :=
  (table.get? id).isSome

/-- The strings of the table that are referred to for the first time in front of an id. -/
def earlier (table : StringTable) (references : List StringId) (id : StringId) :
    Finset StringId :=
  references.toFinset.filter fun other =>
    table.knows other ∧ references.idxOf other < references.idxOf id

theorem order_resolve (table : StringTable) (references : List StringId) :
    (table.resolve references).order = (references.filter table.knows).eraseDups := rfl

theorem nodup_order (table : StringTable) (references : List StringId) :
    (table.resolve references).order.Nodup :=
  nodup_eraseDups _

/-- An id comes behind the strings that are referred to earlier. -/
theorem idxOf_order (references : List StringId) (known : table.knows id) :
    (table.resolve references).order.idxOf id = (table.earlier references id).card := by
  have distinct := nodup_order table references
  have earlier_iff : ∀ other, table.knows other →
      ((table.resolve references).order.idxOf other < (table.resolve references).order.idxOf id ↔
        references.idxOf other < references.idxOf id) := by
    intro other knows
    rw [order_resolve, idxOf_eraseDups_lt_iff, idxOf_filter_lt_iff knows known]
  generalize horder : (table.resolve references).order = order at distinct earlier_iff
  have inside : order.idxOf id ≤ order.length := List.idxOf_le_length
  -- the positions in front of the id are taken by the strings that are referred to earlier
  have front : (order.take (order.idxOf id)).toFinset = table.earlier references id := by
    ext other
    rw [List.mem_toFinset, earlier, Finset.mem_filter, List.mem_toFinset]
    constructor
    · intro taken
      have member := List.mem_of_mem_take taken
      obtain ⟨referred, knows⟩ := mem_order_resolve.1 (horder ▸ member)
      have before := (List.mem_take_iff_idxOf_lt member).1 taken
      exact ⟨referred, knows, (earlier_iff other knows).1 before⟩
    · rintro ⟨referred, knows, before⟩
      have member : other ∈ order := horder ▸ mem_order_resolve.2 ⟨referred, knows⟩
      exact (List.mem_take_iff_idxOf_lt member).2 ((earlier_iff other knows).2 before)
  rw [← front, List.toFinset_card_of_nodup (distinct.sublist (List.take_sublist _ _)),
    List.length_take, Nat.min_eq_left inside]

/-- There are no more write ids than words, since insertion ids are words. -/
theorem length_order_le (table : StringTable) (references : List StringId) :
    (table.resolve references).order.length ≤ 2 ^ 32 := by
  let words := (table.resolve references).order.map fun id => id.index.toNat
  have distinct : words.Nodup := by
    refine (nodup_order table references).map ?_
    intro a b same
    cases a
    cases b
    exact congrArg StringId.mk (UInt32.toNat_inj.1 same)
  have subset : words ⊆ List.range (2 ^ 32) := by
    intro n mem
    obtain ⟨id, -, rfl⟩ := List.mem_map.1 mem
    exact List.mem_range.2 id.index.toNat_lt
  have le := (List.subperm_of_subset distinct subset).length_le
  rwa [List.length_map, List.length_range] at le

/-- A write id is the position of its string, whatever the size of the table. -/
theorem writeId?_eq_some_iff : (table.resolve references).writeId? id = some word ↔
    id ∈ (table.resolve references).order ∧
      word.toNat = (table.resolve references).order.idxOf id := by
  rw [WriteIds.writeId?]
  by_cases mem : id ∈ (table.resolve references).order
  · have bound := List.idxOf_lt_length_of_mem mem
    have position := toNat_toUInt32 (Nat.lt_of_lt_of_le bound (length_order_le table references))
    rw [if_pos mem, Option.some_inj, ← UInt32.toNat_inj, position, eq_comm]
    exact (and_iff_right mem).symm
  · rw [if_neg mem]
    constructor
    · intro found
      cases found
    · rintro ⟨there, -⟩
      exact absurd there mem

/-- At the position of its write id stands the string. -/
theorem getElem?_order (found : (table.resolve references).writeId? id = some word) :
    (table.resolve references).order[word.toNat]? = some id := by
  obtain ⟨mem, position⟩ := writeId?_eq_some_iff.1 found
  rw [position, List.getElem?_idxOf mem]

/-- The string at a position has it as its write id. -/
theorem writeId?_of_getElem? (found : (table.resolve references).order[word.toNat]? = some id) :
    (table.resolve references).writeId? id = some word := by
  obtain ⟨bound, rfl⟩ := List.getElem?_eq_some_iff.1 found
  refine writeId?_eq_some_iff.2 ⟨List.getElem_mem bound, ?_⟩
  rw [(nodup_order table references).idxOf_getElem]

/-- What the write ids of a table for the given references promise. -/
structure Numbers (table : StringTable) (references : List StringId) (ids : WriteIds) : Prop where
  /-- A string of the table that is referred to has a write id: the number of such strings that are
  referred to earlier.  No other id has one. -/
  writeId?_iff : ∀ id word, ids.writeId? id = some word ↔
    table.knows id ∧ id ∈ references ∧ word.toNat = (table.earlier references id).card
  /-- Write ids run from 0 without gaps. -/
  dense : ∀ word : UInt32, word.toNat < ids.size ↔ ∃ id, ids.writeId? id = some word
  injective : ∀ id other word, ids.writeId? id = some word → ids.writeId? other = some word →
    id = other
  /-- The strings stand in the order of their write ids. -/
  strings : ∀ id word, ids.writeId? id = some word → ids.strings[word.toNat]? = table.get? id
  length_strings : ids.strings.length = ids.size
  nodup_strings : ids.strings.Nodup
  lookup : ∀ id word, ids.writeId? id = some word → ids.lookup word = table.get? id
  lookup_eq_none : ∀ word : UInt32, ids.size ≤ word.toNat → ids.lookup word = none

theorem strings_eq_map (table : StringTable) (references : List StringId) :
    (table.resolve references).strings.map some =
      (table.resolve references).order.map table.get? := by
  have known : ∀ id ∈ (table.resolve references).order, (table.get? id).isSome :=
    fun id mem => (mem_order_resolve.1 mem).2
  change ((table.resolve references).order.filterMap table.get?).map some = _
  generalize (table.resolve references).order = order at known
  induction order with
  | nil => rfl
  | cons id rest ih =>
    rw [List.forall_mem_cons] at known
    obtain ⟨text, found⟩ := Option.isSome_iff_exists.1 known.1
    rw [List.map_cons, ← ih known.2, List.filterMap_cons_some found, List.map_cons, found]

theorem numbers_by_reference (table : StringTable) (references : List StringId) :
    table.Numbers references (table.resolve references) := by
  have texts := strings_eq_map table references
  have named : ∀ id word, (table.resolve references).writeId? id = some word →
      (table.resolve references).strings[word.toNat]? = table.get? id := by
    intro id word found
    have here := congrArg (·[word.toNat]?) texts
    simp only [List.getElem?_map, getElem?_order found, Option.map_some] at here
    cases text : (table.resolve references).strings[word.toNat]? with
    | none => rw [text] at here; cases here
    | some text' =>
      rw [text, Option.map_some] at here
      exact Option.some.inj here
  refine ⟨?_, ?_, ?_, named, ?_, ?_, ?_, ?_⟩
  · intro id word
    rw [writeId?_eq_some_iff, mem_order_resolve]
    constructor
    · rintro ⟨⟨mem, known⟩, position⟩
      exact ⟨known, mem, position.trans (idxOf_order references known)⟩
    · rintro ⟨known, mem, position⟩
      exact ⟨⟨mem, known⟩, position.trans (idxOf_order references known).symm⟩
  · intro word
    constructor
    · intro bound
      exact ⟨_, writeId?_of_getElem? (List.getElem?_eq_getElem bound)⟩
    · rintro ⟨id, found⟩
      exact (List.getElem?_eq_some_iff.1 (getElem?_order found)).1
  · intro id other word found same
    have here := getElem?_order found
    rw [getElem?_order same] at here
    exact (Option.some.inj here).symm
  · exact (size_resolve table references).symm
  · rw [strings_resolve]
    exact nodup_eraseDups _
  · intro id word found
    rw [WriteIds.lookup, getElem?_order found]
    rfl
  · intro word behind
    have none : (table.resolve references).order[word.toNat]? = none :=
      List.getElem?_eq_none behind
    rw [WriteIds.lookup, none]
    rfl

/-! ### What leaves no trace -/

/-- Further strings that are not referred to leave the write ids as they are. -/
theorem alike_insertAll {more : List String} (unreferenced : ∀ text ∈ more, text ∉ table.texts →
      (table.insertAll more).idOf text ∉ references) :
    ((table.insertAll more).resolve references).Alike (table.resolve references) := by
  have le := le_insertAll table more
  have kept : ∀ id, table.knows id → (table.insertAll more).get? id = table.get? id := by
    intro id known
    obtain ⟨text, found⟩ := Option.isSome_iff_exists.1 known
    rw [get?_of_le le found, found]
  have same : ∀ id ∈ references, (table.insertAll more).knows id = table.knows id := by
    intro id referred
    by_cases known : table.knows id = true
    · rw [knows, kept id known, knows]
    · rw [Bool.not_eq_true] at known
      rw [known, knows, Option.isSome_eq_false_iff, Option.isNone_iff_eq_none,
        Option.eq_none_iff_forall_ne_some]
      intro text found
      have named := idOf_of_get? found
      -- a text that is new would be referred to, and one that is not has its id in the table
      by_cases old : text ∈ table.texts
      · rw [idOf_of_le le old] at named
        have known' := isSome_get?_idOf old
        rw [named] at known'
        rw [knows, known'] at known
        cases known
      · have added := (mem_texts_insertAll (mem_of_get? found)).resolve_left old
        exact unreferenced text added old (named ▸ referred)
  refine WriteIds.alike_of_order ?_ ?_
  · rw [order_resolve, order_resolve, List.filter_congr same]
  · exact fun id mem => kept id (mem_order_resolve.1 mem).2

/-- Dropping ids of other tables from the references leaves the write ids as they are. -/
theorem resolve_of_sublist {kept : List StringId}
    (keeps : (references.filter table.knows).Sublist kept) (drops : kept.Sublist references) :
    table.resolve kept = table.resolve references := by
  have less := drops.filter table.knows
  have more := keeps.filter table.knows
  rw [List.filter_filter] at more
  simp only [Bool.and_self] at more
  have same : kept.filter table.knows = references.filter table.knows := less.antisymm more
  have order : (table.resolve kept).order = (table.resolve references).order := by
    rw [order_resolve, same, order_resolve]
  exact congrArg (WriteIds.mk table) order

end StringTable

/-! ### One pass over the references -/

/-- Write ids as they are assigned: for each string of the table its write id, if it has one, and
the strings that have one, in order. -/
structure Assignment where
  slots : Array (Option UInt32)
  order : Array StringId

namespace Assignment

/-- No write ids, for a table of the given size. -/
def start (size : Nat) : Assignment := ⟨Array.replicate size none, #[]⟩

/-- Assigns the next write id to a string that has none yet.  An id without a slot is passed
over. -/
def assign (a : Assignment) (id : StringId) : Assignment :=
  match a.slots[id.index.toNat]? with
  | some none =>
    ⟨a.slots.setIfInBounds id.index.toNat (some a.order.size.toUInt32), a.order.push id⟩
  | _ => a

/-- The write ids of a table for the given references. -/
def ofReferences (table : StringTable) (references : List StringId) : Assignment :=
  references.foldl assign (start table.size)

/-- There is a slot for each string, which holds its write id, and the order is that of the write
ids. -/
structure Represents (a : Assignment) (ids : WriteIds) : Prop where
  size : a.slots.size = ids.table.size
  slots : ∀ id : StringId, a.slots[id.index.toNat]?.join = ids.writeId? id
  order : a.order.toList = ids.order

variable {a : Assignment} {table : StringTable} {references : List StringId}

theorem represents_start (table : StringTable) :
    (start table.size).Represents (table.resolve []) := by
  refine ⟨Array.size_replicate, fun id => ?_, rfl⟩
  have none : (table.resolve []).writeId? id = none := if_neg nofun
  rw [none, start, Array.getElem?_replicate]
  split <;> rfl

/-- A reference that is not to a new string of the table leaves the order as it is. -/
theorem order_concat_of_old {id : StringId}
    (old : table.knows id → id ∈ (table.resolve references).order) :
    (table.resolve (references ++ [id])).order = (table.resolve references).order := by
  rw [StringTable.order_resolve, List.filter_append]
  by_cases known : table.knows id = true
  · have member : id ∈ references.filter table.knows := List.mem_eraseDups.1 (old known)
    have gone : [id].removeAll (references.filter table.knows) = [] :=
      List.filter_cons_of_neg (by rw [List.elem_eq_true_of_mem member]; decide)
    rw [List.filter_cons_of_pos known, List.filter_nil, List.eraseDups_append, gone,
      List.eraseDups_nil, List.append_nil]
    rfl
  · rw [List.filter_cons_of_neg known, List.filter_nil, List.append_nil]
    rfl

/-- The first reference to a string of the table puts it at the end. -/
theorem order_concat_of_new {id : StringId} (known : table.knows id)
    (new : id ∉ (table.resolve references).order) :
    (table.resolve (references ++ [id])).order = (table.resolve references).order ++ [id] := by
  have absent : id ∉ references.filter table.knows := mt List.mem_eraseDups.2 new
  have stays : [id].removeAll (references.filter table.knows) = [id] :=
    List.filter_cons_of_pos (by rw [List.elem_eq_mem, decide_eq_false absent]; rfl)
  rw [StringTable.order_resolve, List.filter_append, List.filter_cons_of_pos known,
    List.filter_nil, List.eraseDups_append, stays]
  rfl

/-- One reference: slots and order stay inverse to each other. -/
theorem Represents.assign (h : a.Represents (table.resolve references)) (id : StringId) :
    (a.assign id).Represents (table.resolve (references ++ [id])) := by
  have slot := h.slots id
  have known : table.knows id = true ↔ id.index.toNat < a.slots.size := by
    rw [h.size, StringTable.knows, StringTable.get?, isSome_getElem?]
    exact Iff.rfl
  -- what is known of a reference that is passed over
  have passed : (table.knows id → id ∈ (table.resolve references).order) →
      a.Represents (table.resolve (references ++ [id])) := by
    intro old
    have order := order_concat_of_old old
    refine ⟨h.size, fun other => ?_, h.order.trans order.symm⟩
    rw [h.slots, WriteIds.writeId?, WriteIds.writeId?, order]
  rw [Assignment.assign]
  split
  · next empty =>
    obtain ⟨bound, -⟩ := Array.getElem?_eq_some_iff.1 empty
    have new : id ∉ (table.resolve references).order := by
      intro mem
      rw [empty, WriteIds.writeId?, if_pos mem] at slot
      cases slot
    have order := order_concat_of_new (known.2 bound) new
    have count : a.order.size = (table.resolve references).order.length := by
      rw [← h.order, Array.length_toList]
    refine ⟨by rw [Array.size_setIfInBounds, h.size]; rfl, fun other => ?_, ?_⟩
    · rw [WriteIds.writeId?, order, List.idxOf_append]
      by_cases same : id = other
      · subst same
        rw [Array.getElem?_setIfInBounds_self_of_lt bound, if_pos (by simp), if_neg new, count]
        simp
      · have elsewhere : id.index.toNat ≠ other.index.toNat := by
          intro equal
          cases id
          cases other
          exact same (congrArg StringId.mk (UInt32.toNat_inj.1 equal))
        rw [Array.getElem?_setIfInBounds_ne elsewhere, h.slots, WriteIds.writeId?]
        by_cases mem : other ∈ (table.resolve references).order
        · rw [if_pos mem, if_pos (List.mem_append_left _ mem), if_pos mem]
        · rw [if_neg mem, if_neg]
          simpa [mem] using fun equal : other = id => same equal.symm
    · rw [Array.toList_push, h.order, order]
  · next occupied =>
    refine passed fun knows => ?_
    by_contra new
    -- a string of the table without a write id has an empty slot
    have bound := known.1 knows
    rw [WriteIds.writeId?, if_neg new, Array.getElem?_eq_getElem bound] at slot
    exact occupied ((Array.getElem?_eq_getElem bound).trans (congrArg some slot))

/-- A pass over the references assigns the write ids, and its two arrays are inverse at its end. -/
theorem represents_ofReferences (table : StringTable) (references : List StringId) :
    (ofReferences table references).Represents (table.resolve references) := by
  induction references using List.reverseRecOn with
  | nil => exact represents_start table
  | append_singleton references id ih =>
    rw [ofReferences, List.foldl_append]
    exact ih.assign id

end Assignment

namespace StringTable

/-- For every table and all references, write ids number the strings referred to by first reference.
Further strings that are not referred to and ids of other tables change nothing, and a pass over the
references assigns exactly these numbers. -/
theorem numbers_resolve (table : StringTable) (references : List StringId) :
    table.Numbers references (table.resolve references) ∧
      (∀ more : List String, (∀ text ∈ more, text ∉ table.texts →
          (table.insertAll more).idOf text ∉ references) →
        ((table.insertAll more).resolve references).Alike (table.resolve references)) ∧
      (∀ kept : List StringId, (references.filter table.knows).Sublist kept →
        kept.Sublist references → table.resolve kept = table.resolve references) ∧
      (Assignment.ofReferences table references).Represents (table.resolve references) :=
  ⟨numbers_by_reference table references, fun _ => alike_insertAll,
    fun _ keeps drops => resolve_of_sublist keeps drops,
    Assignment.represents_ofReferences table references⟩

/-- A fourth string and an id of another table are not referred to, and make no difference. -/
theorem numbers_resolve_foreign :
    let table := ofList ["c", "b", "a", "unused"]
    let kept : List StringId := [⟨2⟩, ⟨1⟩, ⟨1⟩, ⟨0⟩, ⟨2⟩]
    let references : List StringId := [⟨2⟩, ⟨1⟩, ⟨9⟩, ⟨1⟩, ⟨0⟩, ⟨2⟩]
    (table.resolve references).strings = ["a", "b", "c"] ∧
      ((table.insertAll ["z"]).resolve references).Alike (table.resolve references) ∧
      table.resolve kept = table.resolve references := by
  intro table kept references
  obtain ⟨-, further, foreign, -⟩ := numbers_resolve table references
  exact ⟨by decide, further ["z"] (by decide), foreign kept (by decide) (by decide)⟩

end StringTable

end Libretto
