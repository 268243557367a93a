/-
Ids of interned strings: what interning keeps, and what write ids name.

A table grows at its end only.  `table ≤ later` says that `later` arose from `table` in this way:

* **`get?_of_le`**, **`idOf_of_le`** — an id keeps its text, and a text keeps its id;
* **`idOf_of_get?`**, **`get?_idOf`** — the two directions are inverse to each other, from id to
  text always, from text to id in a table that is small enough for 32-bit ids;
* **`strings_resolve`** — the texts in write order are the texts referred to, each once, in the
  order of first reference;
* **`writeId?_resolve`** — the write id of a string is the position of its text among these;
* **`lookup_writeId?`** — in a small table a write id names the string that it was given to.

Only the last three speak of write ids, and the first two of these speak of texts alone: insertion
ids have dropped out.
-/
import Libretto.StringTable
import Mathlib.Algebra.Group.Nat.Defs
import Mathlib.Data.List.Basic
import Mathlib.Data.List.Induction
import Mathlib.Data.List.Perm.Subperm

namespace Libretto

/-- A number that a word can hold is not cut. -/
theorem toNat_toUInt32 {n : Nat} (h : n < 2 ^ 32) : n.toUInt32.toNat = n :=
  UInt32.toNat_ofNat_of_lt' h

namespace StringTable

/-- The later table holds the strings of the earlier one under the same ids. -/
instance : LE StringTable :=
  ⟨fun table later => table.texts <+: later.texts⟩

variable {table later : StringTable} {text : String} {id : StringId}

theorem le_refl (table : StringTable) : table ≤ table :=
  List.prefix_refl table.texts

theorem le_trans {a b c : StringTable} (hab : a ≤ b) (hbc : b ≤ c) : a ≤ c :=
  List.IsPrefix.trans hab hbc

theorem le_insert (table : StringTable) (text : String) : table ≤ table.insert text :=
  texts_isPrefix_insert table text

@[simp] theorem insertAll_nil (table : StringTable) : table.insertAll [] = table := rfl

theorem insertAll_append (table : StringTable) (texts more : List String) :
    table.insertAll (texts ++ more) = (table.insertAll texts).insertAll more :=
  List.foldl_append

theorem le_insertAll (table : StringTable) (texts : List String) :
    table ≤ table.insertAll texts := by
  induction texts generalizing table with
  | nil => exact le_refl table
  | cons text rest ih => exact le_trans (le_insert table text) (ih (table.insert text))

theorem mem_of_le (h : table ≤ later) (mem : text ∈ table.texts) : text ∈ later.texts :=
  List.IsPrefix.subset h mem

theorem mem_insertAll {texts : List String} (mem : text ∈ texts) :
    text ∈ (table.insertAll texts).texts := by
  induction texts generalizing table with
  | nil => simp at mem
  | cons head rest ih =>
    rcases List.mem_cons.1 mem with rfl | mem
    · exact mem_of_le (le_insertAll (table.insert text) rest) (mem_texts_insert table text)
    · exact ih mem

/-- Interning adds no text but its own. -/
theorem mem_texts_insertAll {texts : List String} (mem : text ∈ (table.insertAll texts).texts) :
    text ∈ table.texts ∨ text ∈ texts := by
  induction texts generalizing table with
  | nil => exact .inl mem
  | cons head rest ih =>
    rcases ih mem with mem | mem
    · rw [texts_insert] at mem
      split at mem
      · exact .inl mem
      · rcases List.mem_append.1 mem with mem | mem
        · exact .inl mem
        · exact .inr (List.mem_cons.2 (.inl (List.mem_singleton.1 mem)))
    · exact .inr (List.mem_cons_of_mem head mem)

theorem mem_texts_ofList {texts : List String} : text ∈ (ofList texts).texts ↔ text ∈ texts :=
  ⟨fun mem => (mem_texts_insertAll mem).resolve_left (by simp), mem_insertAll⟩

theorem size_ofList_le (texts : List String) : (ofList texts).size ≤ texts.length :=
  (List.subperm_of_subset (ofList texts).distinct fun _ mem => mem_texts_ofList.1 mem).length_le

/-! ### From ids to texts and back -/

/-- An id keeps its text. -/
theorem get?_of_le (h : table ≤ later) (found : table.get? id = some text) :
    later.get? id = some text := by
  obtain ⟨more, h⟩ := h
  obtain ⟨bound, -⟩ := List.getElem?_eq_some_iff.1 found
  rw [get?, ← h, List.getElem?_append_left bound]
  exact found

/-- A text that the table holds keeps its id. -/
theorem idOf_of_le (h : table ≤ later) (mem : text ∈ table.texts) :
    later.idOf text = table.idOf text := by
  obtain ⟨more, h⟩ := h
  rw [idOf, ← h, List.idxOf_append, if_pos mem, idOf]

/-- A text has its id as soon as it is added. -/
theorem idOf_of_insert_le (h : table.insert text ≤ later) : later.idOf text = table.idOf text :=
  (idOf_of_le h (mem_texts_insert table text)).trans (idOf_insert table text)

theorem mem_of_get? (found : table.get? id = some text) : text ∈ table.texts :=
  List.mem_of_getElem? found

/-- No other id has the same text. -/
theorem idOf_of_get? (found : table.get? id = some text) : table.idOf text = id := by
  obtain ⟨bound, rfl⟩ := List.getElem?_eq_some_iff.1 found
  rw [idOf, List.Nodup.idxOf_getElem table.distinct, StringId.ofPosition]
  simp [Nat.toUInt32]

theorem get?_injective {other : StringId} (found : table.get? id = some text)
    (same : table.get? other = some text) : id = other :=
  (idOf_of_get? found).symm.trans (idOf_of_get? same)

/-- The id of a text names some string, even where positions outgrow 32 bits. -/
theorem isSome_get?_idOf (mem : text ∈ table.texts) : (table.get? (table.idOf text)).isSome := by
  have hlt := List.idxOf_lt_length_of_mem mem
  -- an id that wraps around names an earlier string, perhaps another text, but never none
  have hmod : (table.texts.idxOf text).toUInt32.toNat ≤ table.texts.idxOf text := by
    simpa [Nat.toUInt32] using Nat.mod_le _ _
  rw [get?, idOf, StringId.ofPosition, List.getElem?_eq_getElem (Nat.lt_of_le_of_lt hmod hlt)]
  rfl

/-- As long as positions fit 32 bits, the id of a text names that text. -/
theorem get?_idOf (small : table.size ≤ 2 ^ 32) (mem : text ∈ table.texts) :
    table.get? (table.idOf text) = some text := by
  have hlt := List.idxOf_lt_length_of_mem mem
  have hposition : (table.texts.idxOf text).toUInt32.toNat = table.texts.idxOf text :=
    toNat_toUInt32 (Nat.lt_of_lt_of_le hlt small)
  rw [get?, idOf, StringId.ofPosition, hposition, List.getElem?_eq_getElem hlt]
  exact congrArg some (List.getElem_idxOf hlt)

/-! ### Write ids -/

/-- Dropping repetitions commutes with naming, when no two ids name the same text. -/
theorem filterMap_eraseDups {α β : Type} [BEq α] [LawfulBEq α] [BEq β] [LawfulBEq β]
    {f : α → Option β} (inj : ∀ {a a' b}, f a = some b → f a' = some b → a = a') (l : List α) :
    (l.filter fun a => (f a).isSome).eraseDups.filterMap f = (l.filterMap f).eraseDups := by
  cases l with
  | nil => rfl
  | cons a rest =>
    cases h : f a with
    | none =>
      -- an unknown id is dropped on both sides
      rw [List.filter_cons_of_neg (by simp [h]), List.filterMap_cons_none h]
      exact filterMap_eraseDups inj rest
    | some b =>
      rw [List.filter_cons_of_pos (by simp [h]), List.filterMap_cons_some h, List.eraseDups_cons,
        List.eraseDups_cons, List.filterMap_cons_some h, List.filter_filter]
      -- the repetitions of `a` are exactly the ids that name `b` again
      have hnames : (rest.filterMap f).filter (fun b' => !b' == b) =
          (rest.filter fun a' => !a' == a).filterMap f := by
        rw [List.filter_filterMap, List.filterMap_filter]
        refine List.filterMap_congr ?_
        intro a' _
        cases h' : f a' with
        | none => simp
        | some b' =>
          by_cases hb : b' = b
          · subst hb
            simp [inj h' h]
          · have ha : a' ≠ a := fun e => hb (by simp_all)
            simp [hb, ha]
      rw [hnames, ← filterMap_eraseDups inj (rest.filter fun a' => !a' == a), List.filter_filter]
      simp [Bool.and_comm]
  termination_by l.length
  decreasing_by
    · exact Nat.lt_succ_self rest.length
    · exact Nat.lt_succ_of_le (List.length_filter_le _ rest)

/-- The position of a text among names is the position of the id that names it. -/
theorem idxOf_filterMap {α β : Type} [BEq α] [LawfulBEq α] [BEq β] [LawfulBEq β]
    {f : α → Option β} (inj : ∀ {a a' b}, f a = some b → f a' = some b → a = a') {l : List α}
    (known : ∀ a ∈ l, (f a).isSome) {a : α} {b : β} (h : f a = some b) :
    (l.filterMap f).idxOf b = l.idxOf a := by
  induction l with
  | nil => rfl
  | cons first rest ih =>
    obtain ⟨b', hb'⟩ := Option.isSome_iff_exists.1 (known first (by simp))
    have ih := ih fun a' mem => known a' (List.mem_cons_of_mem first mem)
    rw [List.filterMap_cons_some hb', List.idxOf_cons, List.idxOf_cons, ih]
    by_cases ha : first = a
    · have hb : b' = b := by simp_all
      simp [ha, hb]
    · -- without injectivity the text could come earlier than the id
      have hb : b' ≠ b := fun e => ha (inj hb' (e ▸ h))
      rw [beq_false_of_ne hb, beq_false_of_ne ha]

/-- The texts in the order of their write ids. -/
theorem strings_resolve (table : StringTable) (references : List StringId) :
    (table.resolve references).strings = (references.filterMap table.get?).eraseDups :=
  filterMap_eraseDups get?_injective references

theorem mem_order_resolve {references : List StringId} :
    id ∈ (table.resolve references).order ↔ id ∈ references ∧ (table.get? id).isSome := by
  rw [resolve, List.mem_eraseDups, List.mem_filter]

theorem size_resolve (table : StringTable) (references : List StringId) :
    (table.resolve references).size = (table.resolve references).strings.length := by
  have known : ∀ id ∈ (table.resolve references).order, (table.get? id).isSome :=
    fun id mem => (mem_order_resolve.1 mem).2
  rw [WriteIds.size, WriteIds.strings, List.length_filterMap_eq_countP, List.countP_eq_length.2]
  exact known

theorem isSome_writeId?_resolve {references : List StringId} (mem : id ∈ references)
    (known : (table.get? id).isSome) : ((table.resolve references).writeId? id).isSome := by
  rw [WriteIds.writeId?, if_pos (mem_order_resolve.2 ⟨mem, known⟩)]
  rfl

/-- The write id of a string is the position of its text in the order of first reference. -/
theorem writeId?_resolve {references : List StringId} (mem : id ∈ references)
    (found : table.get? id = some text) :
    (table.resolve references).writeId? id =
      some ((references.filterMap table.get?).eraseDups.idxOf text).toUInt32 := by
  have known : ∀ id ∈ (table.resolve references).order, (table.get? id).isSome :=
    fun id mem => (mem_order_resolve.1 mem).2
  rw [WriteIds.writeId?, if_pos (mem_order_resolve.2 ⟨mem, by simp [found]⟩), ← strings_resolve,
    WriteIds.strings]
  exact congrArg (fun position => some position.toUInt32)
    (idxOf_filterMap get?_injective known found).symm

/-- References behind others leave the write ids of these as they are. -/
theorem order_resolve_append (h : table ≤ later) {references : List StringId}
    (known : ∀ id ∈ references, (table.get? id).isSome) (more : List StringId) :
    (table.resolve references).order <+: (later.resolve (references ++ more)).order := by
  have known' : ∀ id ∈ references, (later.get? id).isSome := by
    intro id mem
    obtain ⟨text, found⟩ := Option.isSome_iff_exists.1 (known id mem)
    rw [get?_of_le h found]
    rfl
  rw [resolve, resolve, List.filter_append, List.filter_eq_self.2 known,
    List.filter_eq_self.2 known', List.eraseDups_append]
  exact List.prefix_append _ _

theorem nodup_eraseDups {α : Type} [BEq α] [LawfulBEq α] (l : List α) : l.eraseDups.Nodup := by
  cases l with
  | nil => exact .nil
  | cons a rest =>
    rw [List.eraseDups_cons, List.nodup_cons, List.mem_eraseDups]
    exact ⟨by simp, nodup_eraseDups _⟩
  termination_by l.length
  decreasing_by exact Nat.lt_succ_of_le (List.length_filter_le _ rest)

theorem eraseDups_of_nodup {α : Type} [BEq α] [LawfulBEq α] {l : List α} (distinct : l.Nodup) :
    l.eraseDups = l := by
  induction l with
  | nil => rfl
  | cons a rest ih =>
    obtain ⟨fresh, distinct⟩ := List.nodup_cons.1 distinct
    have kept : rest.filter (fun b => !b == a) = rest := List.filter_eq_self.2 fun b mem => by
      simp [show b ≠ a from fun same => fresh (same ▸ mem)]
    rw [List.eraseDups_cons, kept, ih distinct]

/-- Interning adds every text once, in the order in which they come first. -/
theorem texts_insertAll (table : StringTable) (texts : List String) :
    (table.insertAll texts).texts = (table.texts ++ texts).eraseDups := by
  induction texts using List.reverseRecOn with
  | nil => rw [List.append_nil, eraseDups_of_nodup table.distinct, insertAll_nil]
  | append_singleton texts text ih =>
    have mem : text ∈ (table.insertAll texts).texts ↔ text ∈ table.texts ++ texts := by
      rw [ih, List.mem_eraseDups]
    have last : (table.insertAll (texts ++ [text])).texts =
        ((table.insertAll texts).insert text).texts := by
      rw [insertAll_append]
      rfl
    rw [last, texts_insert, ← List.append_assoc, List.eraseDups_append, ← ih]
    by_cases known : text ∈ table.texts ++ texts
    · have gone : [text].removeAll (table.texts ++ texts) = [] :=
        List.filter_cons_of_neg (by rw [List.elem_eq_true_of_mem known]; decide)
      rw [if_pos (mem.2 known), gone, List.eraseDups_nil, List.append_nil]
    · have kept : [text].removeAll (table.texts ++ texts) = [text] :=
        List.filter_cons_of_pos (by simpa using known)
      rw [if_neg fun held => known (mem.1 held), kept]
      rfl

/-- A table of texts holds each once, in the order in which they come first. -/
theorem texts_ofList (texts : List String) : (ofList texts).texts = texts.eraseDups :=
  texts_insertAll empty texts

/-- References to the texts of a table, in the order in which they were added, name its strings. -/
theorem filterMap_get?_ofList {texts : List String} (small : (ofList texts).size ≤ 2 ^ 32) :
    (texts.map (ofList texts).idOf).filterMap (ofList texts).get? = texts := by
  rw [List.filterMap_map]
  refine Eq.trans (List.filterMap_congr ?_) List.filterMap_some
  intro text mem
  exact get?_idOf small (mem_texts_ofList.2 mem)

/-- Such references leave the strings in the order of the table. -/
theorem strings_resolve_ofList {texts : List String} (small : (ofList texts).size ≤ 2 ^ 32) :
    ((ofList texts).resolve (texts.map (ofList texts).idOf)).strings = (ofList texts).texts := by
  rw [strings_resolve, filterMap_get?_ofList small, texts_ofList]

/-- Such references leave every string its id. -/
theorem writeId?_resolve_ofList {texts : List String} (small : (ofList texts).size ≤ 2 ^ 32)
    (mem : text ∈ texts) :
    ((ofList texts).resolve (texts.map (ofList texts).idOf)).writeId? ((ofList texts).idOf text) =
      some ((ofList texts).idOf text).index := by
  rw [writeId?_resolve (List.mem_map_of_mem mem) (get?_idOf small (mem_texts_ofList.2 mem)),
    filterMap_get?_ofList small, ← texts_ofList]
  rfl

/-- There are no more write ids than strings. -/
theorem size_resolve_le (table : StringTable) (references : List StringId) :
    (table.resolve references).size ≤ table.size := by
  have subset : (references.filterMap table.get?).eraseDups ⊆ table.texts := by
    intro text mem
    obtain ⟨id, -, found⟩ := List.mem_filterMap.1 (List.mem_eraseDups.1 mem)
    exact mem_of_get? found
  rw [size_resolve, strings_resolve]
  exact (List.subperm_of_subset (nodup_eraseDups _) subset).length_le

/-- In a small table a write id names the string that it was given to. -/
theorem lookup_writeId? (small : table.size ≤ 2 ^ 32) {references : List StringId} {word : UInt32}
    (h : (table.resolve references).writeId? id = some word) :
    (table.resolve references).lookup word = table.get? id := by
  rw [WriteIds.writeId?] at h
  split at h
  · next mem =>
    have bound := List.idxOf_lt_length_of_mem mem
    have few : (table.resolve references).order.length ≤ table.size := size_resolve_le table _
    -- a position among the write ids does not wrap around
    have position : word.toNat = (table.resolve references).order.idxOf id := by
      rw [← Option.some.inj h]
      exact toNat_toUInt32 (Nat.lt_of_lt_of_le bound (Nat.le_trans few small))
    rw [WriteIds.lookup, position, List.getElem?_eq_getElem bound, List.getElem_idxOf bound]
    rfl
  · cases h

end StringTable

namespace WriteIds

/-- Further ids behind those referred to leave these where they are. -/
theorem writeId?_of_order {ids later : WriteIds} (h : ids.order <+: later.order) {id : StringId}
    {word : UInt32} (found : ids.writeId? id = some word) : later.writeId? id = some word := by
  obtain ⟨more, h⟩ := h
  rw [writeId?] at found ⊢
  split at found
  · next mem => rwa [← h, if_pos (List.mem_append_left _ mem), List.idxOf_append, if_pos mem]
  · cases found

end WriteIds

end Libretto
