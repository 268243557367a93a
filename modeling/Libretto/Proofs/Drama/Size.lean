/-
How many strings a dialogue has, and how long its scripts are.

Everything that a node holds has a place of its own in the markup: a text that of a tag, and a
script those of its characters.  So a reading is charged for what it holds, and each event pays for
what it adds:

* **`Weights`** — what nodes and open fields weigh, and the events that pay for it;
* **`Weights.total_run_le`** — what was read weighs no more than its events;
* **`Weights.texts`** — a node weighs as much as it has texts, and a tag pays for one;
* **`Weights.scripts`** — a node weighs as much as its scripts are long, with the tags in front;
* **`size_table_ofSource_le`**, **`length_snippet_lt`** — strings and snippets that are read from a
  source, by its characters;
* **`small_table_of_compile`** — hence in a source of less than `2 ^ 32` bytes positions are ids.

The tags around the lines of a source are longer than the source may be.  They are left out of the
account: the first one is read in front of it, and the last one begins with a slash.
-/
import Libretto.Proofs.Drama.Collection
import Libretto.Proofs.Markup.Extent
import Libretto.Proofs.Script.Unit
import Libretto.Proofs.Text.Utf8
import Mathlib.Algebra.Order.BigOperators.Group.List
import Mathlib.Algebra.Order.Group.Nat

namespace Libretto.Drama

open Markup (Event EventStream StartTag)

/-- What nodes and open fields weigh.  The events that begin them or add to them weigh as much. -/
structure Weights where
  draft : Draft → Nat
  field : Field × List Char → Nat
  event : Event → Nat
  start_le : ∀ ordinal tag, Progress.isNode tag → draft (.ofTag ordinal tag) ≤ event (.start tag)
  empty_le : ∀ ordinal tag, Progress.isNode tag → draft (.ofTag ordinal tag) ≤ event (.empty tag)
  field_le : ∀ tag name, Field.ofName? tag.name = some name → field (name, []) ≤ event (.start tag)
  set_le : ∀ node name text, draft (node.set name text) ≤ draft node + field (name, text)
  cdata_le : ∀ name text more, field (name, text ++ more) ≤ field (name, text) + event (.cdata more)
  text_le : ∀ name text raw stop more, Markup.unescape raw = .ok more →
    field (name, text ++ more) ≤ field (name, text) + event (.text raw stop)

namespace Weights

variable (w : Weights)

/-- The weight of what a reading holds. -/
def total (p : Progress) : Nat :=
  (p.reversed.map w.draft).sum + (p.node.toList.map w.draft).sum +
    (p.field.toList.map w.field).sum

theorem total_openElement_le (p : Progress) (tag : StartTag) :
    w.total (p.openElement tag) ≤ w.total p + w.event (.start tag) := by
  rw [Progress.openElement]
  split
  · next node =>
    have new := w.start_le p.count tag (Bool.and_eq_true_iff.1 node).2
    simp only [total, Option.toList_some, List.map_cons, List.map_nil, List.sum_cons, List.sum_nil]
    omega
  · split
    · have new : (((Field.ofName? tag.name).map fun field =>
          (field, ([] : List Char))).toList.map w.field).sum ≤ w.event (.start tag) := by
        cases named : Field.ofName? tag.name with
        | none => exact Nat.zero_le _
        | some name => exact w.field_le tag name named
      simp only [total]
      omega
    · exact Nat.le_add_right _ _

theorem total_emptyElement_le (p : Progress) (tag : StartTag) :
    w.total (p.emptyElement tag) ≤ w.total p + w.event (.empty tag) := by
  rw [Progress.emptyElement]
  split
  · next node =>
    have new := w.empty_le p.count tag (Bool.and_eq_true_iff.1 node).2
    simp only [total, List.map_cons, List.sum_cons]
    omega
  · exact Nat.le_add_right _ _

/-- A node takes over the weight of its field. -/
theorem total_closeElement_le (p : Progress) : w.total p.closeElement ≤ w.total p := by
  rw [Progress.closeElement]
  split
  · split
    · next draft field text node open_ =>
      have more := w.set_le draft field text
      simp only [total, node, open_, Option.toList_some, Option.toList_none, List.map_cons,
        List.map_nil, List.sum_cons, List.sum_nil]
      omega
    · simp only [total, Option.toList_none, List.map_nil, List.sum_nil]
      omega
  · split
    · split
      · next draft node =>
        simp only [total, node, Option.toList_some, Option.toList_none, List.map_cons,
          List.map_nil, List.sum_cons, List.sum_nil]
        omega
      · exact Nat.le_refl _
    · exact Nat.le_refl _

theorem total_addText_le (p : Progress) {field : Field} {text more : List Char} {charge : Nat}
    (open_ : p.textField? = some (field, text))
    (paid : w.field (field, text ++ more) ≤ w.field (field, text) + charge) :
    w.total { p with field := some (field, text ++ more) } ≤ w.total p + charge := by
  rw [Progress.textField?] at open_
  split at open_
  · simp only [total, open_, Option.toList_some, List.map_cons, List.map_nil, List.sum_cons,
      List.sum_nil]
    omega
  · cases open_

theorem total_step_le {p p' : Progress} {event : Event} (run : p.step event = .ok p') :
    w.total p' ≤ w.total p + w.event event := by
  cases event with
  | start tag =>
    obtain rfl := Except.ok.inj run
    exact w.total_openElement_le p tag
  | empty tag =>
    obtain rfl := Except.ok.inj run
    exact w.total_emptyElement_le p tag
  | close =>
    obtain rfl := Except.ok.inj run
    exact Nat.le_trans (w.total_closeElement_le p) (Nat.le_add_right _ _)
  | aside =>
    obtain rfl := Except.ok.inj run
    exact Nat.le_add_right _ _
  | cdata more =>
    rw [Progress.step] at run
    split at run
    · obtain rfl := Except.ok.inj run
      exact Nat.le_add_right _ _
    · next open_ =>
      obtain rfl := Except.ok.inj run
      exact w.total_addText_le p open_ (w.cdata_le _ _ more)
  | text raw stop =>
    rw [Progress.step] at run
    split at run
    · obtain rfl := Except.ok.inj run
      exact Nat.le_add_right _ _
    · next open_ =>
      split at run
      · cases run
      · next plain =>
        obtain rfl := Except.ok.inj run
        exact w.total_addText_le p open_ (w.text_le _ _ raw stop _ plain)

/-- What was read weighs no more than its events. -/
theorem total_run_le (p : Progress) (events : List Event) :
    w.total (p.run events).1 ≤ w.total p + (events.map w.event).sum := by
  induction events generalizing p with
  | nil => exact Nat.le_refl _
  | cons event rest ih =>
    rw [Progress.run, List.map_cons, List.sum_cons]
    cases stepped : p.step event with
    | error e => exact Nat.le_add_right _ _
    | ok next =>
      have first := w.total_step_le stepped
      have more := ih next
      show w.total (next.run rest).1 ≤ _
      omega

/-! ### Texts -/

theorem length_toList_or_le (a b : Option String) :
    (a <|> b).toList.length ≤ a.toList.length + 1 := by
  cases a <;> cases b <;> simp

/-- Every text has a tag: an identifier that of its node, an utterance that of its field. -/
def texts : Weights where
  draft draft := 1 + draft.plsay.toList.length + draft.say.toList.length
  field _ := 1
  event := Event.tags
  start_le _ _ _ := Nat.le_refl 1
  empty_le _ _ _ := Nat.le_refl 1
  field_le _ _ _ := Nat.le_refl 1
  set_le node name text := by
    have plsay := length_toList_or_le node.plsay (presentText? text)
    have say := length_toList_or_le node.say (presentText? text)
    cases name <;> simp only [Draft.set] <;> omega
  cdata_le _ _ _ := Nat.le_refl 1
  text_le _ _ _ _ _ _ := Nat.le_refl 1

theorem length_texts_le (draft : Draft) : draft.texts.length ≤ texts.draft draft := by
  have one : draft.id.toList.length ≤ 1 := by cases draft.id <;> simp
  show _ ≤ 1 + draft.plsay.toList.length + draft.say.toList.length
  rw [Draft.texts, List.length_append, List.length_append]
  omega

/-! ### Scripts -/

/-- A script takes its characters and those of the tag in front of it, which are seven at least. -/
def ofScript (script : String) : Nat :=
  7 + script.toList.length

theorem sum_ofScript_or_le (script? : Option String) (text : List Char) :
    ((script? <|> presentText? text).toList.map ofScript).sum ≤
      (script?.toList.map ofScript).sum + (7 + text.length) := by
  cases script? with
  | some script => exact Nat.le_add_right _ _
  | none =>
    have trimmed : (Text.trim text).length ≤ text.length := by
      rw [Text.trim, Text.trimEnd, List.length_reverse]
      have back : ((Text.trimStart text).reverse.dropWhile Text.isBlank).length ≤
          (Text.trimStart text).reverse.length := (List.dropWhile_suffix _).length_le
      have front : (Text.trimStart text).length ≤ text.length :=
        (List.dropWhile_suffix _).length_le
      rw [List.length_reverse] at back
      omega
    show ((presentText? text).toList.map ofScript).sum ≤ _
    unfold presentText?
    split
    · exact Nat.zero_le _
    · have same : (String.ofList (Text.trim text)).toList.length = (Text.trim text).length := by
        rw [String.toList_ofList]
      show ofScript (.ofList (Text.trim text)) + 0 ≤ _
      rw [ofScript, same]
      omega

theorem six_le_extent {tag : StartTag} (node : Progress.isNode tag) : 6 ≤ tag.name.length + 2 := by
  rw [beq_iff_eq.1 node]
  decide

theorem five_le_length_of_ofName? {name : List Char} {field : Field}
    (named : Field.ofName? name = some field) (script : field = .before ∨ field = .after) :
    5 ≤ name.length := by
  have text : name = "before".toList ∨ name = "after".toList := by
    unfold Field.ofName? at named
    split at named
    · next same => exact .inl (by rw [← same, String.toList_ofList])
    · next same => exact .inr (by rw [← same, String.toList_ofList])
    all_goals cases named
    all_goals simp at script
  rcases text with rfl | rfl <;> decide

/-- A node takes the six characters of its tag, and its scripts. -/
def nodeRoom (draft : Draft) : Nat :=
  6 + (draft.scripts.map ofScript).sum

/-- A field takes as much as the script that it can become. -/
def fieldRoom : Field × List Char → Nat
  | (.before, text) | (.after, text) => 7 + text.length
  | (.plsay, _) | (.say, _) => 0

theorem fieldRoom_le_extent {tag : StartTag} {field : Field}
    (named : Field.ofName? tag.name = some field) :
    fieldRoom (field, []) ≤ tag.name.length + 2 := by
  cases field with
  | before => exact Nat.add_le_add_right (five_le_length_of_ofName? named (.inl rfl)) 2
  | after => exact Nat.add_le_add_right (five_le_length_of_ofName? named (.inr rfl)) 2
  | plsay | say => exact Nat.zero_le _

theorem nodeRoom_set_le (draft : Draft) (field : Field) (text : List Char) :
    nodeRoom (draft.set field text) ≤ nodeRoom draft + fieldRoom (field, text) := by
  cases field with
  | before =>
    have more := sum_ofScript_or_le draft.before text
    simp only [nodeRoom, fieldRoom, Draft.set, Draft.scripts, List.map_append, List.sum_append]
    omega
  | after =>
    have more := sum_ofScript_or_le draft.after text
    simp only [nodeRoom, fieldRoom, Draft.set, Draft.scripts, List.map_append, List.sum_append]
    omega
  | plsay | say => exact Nat.le_refl _

theorem fieldRoom_append_le (field : Field) (text : List Char) {more : List Char} {charge : Nat}
    (paid : more.length ≤ charge) :
    fieldRoom (field, text ++ more) ≤ fieldRoom (field, text) + charge := by
  cases field with
  | before | after =>
    simp only [fieldRoom, List.length_append]
    omega
  | plsay | say => exact Nat.zero_le _

/-- The names and texts of events pay for nodes and their scripts. -/
def scripts : Weights where
  draft := nodeRoom
  field := fieldRoom
  event := Event.extent
  start_le _ _ node := six_le_extent node
  empty_le _ _ node := six_le_extent node
  field_le _ _ named := fieldRoom_le_extent named
  set_le := nodeRoom_set_le
  cdata_le name text _ := fieldRoom_append_le name text (Nat.le_refl _)
  text_le name text _ _ _ plain := fieldRoom_append_le name text (Markup.length_unescape_le plain)

end Weights

/-! ### Markup and source -/

theorem length_markupLine_le (line : List Char) : (markupLine line).length ≤ line.length := by
  have trimmed : ∀ text : List Char, (Text.trimStart text).length ≤ text.length :=
    fun text => (List.dropWhile_suffix _).length_le
  have unmarked : ∀ text : List Char, (withoutMark text).length ≤ text.length := by
    intro text
    unfold withoutMark
    split
    · simp only [List.length_cons]
      omega
    · exact Nat.le_refl _
  rw [markupLine]
  refine Nat.le_trans (trimmed _) (Nat.le_trans (unmarked _) (Nat.le_trans (trimmed _) ?_))
  rw [List.length_map]

theorem length_markupLines_le (lines : List (List Char)) :
    (markupLines lines).length ≤ (lines.map fun line => line.length + 1).sum := by
  induction lines with
  | nil => exact Nat.le_refl 0
  | cons line rest ih =>
    have here := length_markupLine_le line
    rw [List.map_cons, List.sum_cons, markupLines]
    split
    · omega
    · rw [List.length_append, List.length_cons]
      omega

/-- The line feeds that are added open nothing. -/
theorem count_markupLines_le (lines : List (List Char)) :
    (markupLines lines).count '<' ≤ lines.flatten.length := by
  induction lines with
  | nil => exact Nat.le_refl 0
  | cons line rest ih =>
    have here := length_markupLine_le line
    rw [List.flatten_cons, List.length_append, markupLines]
    split
    · omega
    · have brackets : (markupLine line).count '<' ≤ (markupLine line).length :=
        List.count_le_length
      rw [List.count_append, List.count_cons_of_ne (by decide)]
      omega

/-- Only the last line can be without a line feed. -/
theorem sum_length_lines_le (text : List Char) :
    ((Text.lines text).map fun line => line.length + 1).sum ≤ text.length + 1 := by
  fun_induction Text.lines text with
  | case1 => simp
  | case2 rest ih | case3 rest ih =>
    simp only [List.map_cons, List.sum_cons, List.length_cons, List.length_nil]
    omega
  | case4 c rest => simp
  | case5 c rest _ _ line more h ih =>
    rw [h] at ih
    simp only [List.map_cons, List.sum_cons, List.length_cons] at ih ⊢
    omega

/-- The markup of a source behind the tag that is put in front of it. -/
def markupBehind (source : String) : List Char :=
  '\n' :: (markupLines (Text.lines source.toList) ++ "</drama>\n".toList)

theorem length_markupBehind_le (source : String) :
    (markupBehind source).length ≤ source.toList.length + 11 := by
  have lines := length_markupLines_le (Text.lines source.toList)
  have all := sum_length_lines_le source.toList
  have stop : "</drama>\n".toList.length = 9 := by decide
  rw [markupBehind, List.length_cons, List.length_append, stop]
  omega

theorem openings_markupBehind_le (source : String) :
    Markup.openings (markupBehind source) ≤ source.toList.length := by
  have lines := Markup.openings_append_le ('\n' :: markupLines (Text.lines source.toList))
    "</drama>\n".toList
  have stop : Markup.openings "</drama>\n".toList = 0 := by decide
  have brackets := count_markupLines_le (Text.lines source.toList)
  have chars := Script.ScriptUnit.length_flatten_lines_le source.toList
  rw [stop, List.count_cons_of_ne (by decide)] at lines
  exact Nat.le_trans lines (Nat.le_trans brackets chars)

/-- The first event of a markup is the tag that is put in front of it. -/
theorem events_markupOfSource (source : String) :
    ∃ tag opened offset, Markup.events (markupOfSource source) =
      (Markup.eventsFrom opened offset (markupBehind source)).cons (.start tag) := by
  let name := ['d', 'r', 'a', 'm', 'a']
  have parts : ∀ first lines last : List Char, first = '<' :: name ++ ['>', '\n'] →
      first ++ lines ++ last = '<' :: (name ++ '>' :: '\n' :: (lines ++ last)) := by
    rintro _ lines last rfl
    simp
  have markup : markupOfSource source = '<' :: (name ++ '>' :: markupBehind source) :=
    parts "<drama>\n".toList _ _ (by decide)
  have found : Markup.Construct.tag.split (name ++ '>' :: markupBehind source) =
      some (name, markupBehind source) := rfl
  rw [Markup.events, markup, Markup.eventsFrom.eq_def]
  dsimp only
  rw [if_pos rfl]
  split
  · next none => cases none
  · next construct kind =>
    obtain rfl : Markup.Construct.tag = construct := Option.some.inj kind
    split
    · next none => cases found.symm.trans none
    · next content behind found' =>
      obtain ⟨rfl, rfl⟩ := Prod.mk.inj (Option.some.inj (found.symm.trans found'))
      exact ⟨_, _, _, rfl⟩

/-- What is read from a source are nodes that weigh no more than the events behind the first tag,
also where the reading stops at a fault. -/
theorem exists_weighed_drafts (source : String) (w : Weights) :
    ∃ drafts opened offset,
      (Reading.ofSource source).collection.table = .ofList ((kept drafts).flatMap Draft.texts) ∧
      (Reading.ofSource source).collection.snippets = (kept drafts).flatMap Draft.scripts ∧
      (drafts.map w.draft).sum ≤
        ((Markup.eventsFrom opened offset (markupBehind source)).events.map w.event).sum := by
  obtain ⟨tag, opened, offset, events⟩ := events_markupOfSource source
  let first := Progress.start.openElement tag
  let behind := (Markup.eventsFrom opened offset (markupBehind source)).events
  let drafts := (first.run behind).1.reversed.reverse
  -- the tag in front opens the root, for which nothing has to be paid
  have nothing : w.total first = 0 := rfl
  have read : (Reading.ofSource source).collection = .ofDrafts drafts := by
    rw [Reading.ofSource, events]
    rfl
  have holds := Collection.holds_ofDrafts drafts
  rw [← read] at holds
  refine ⟨drafts, opened, offset, holds.table, holds.snippets, ?_⟩
  calc (drafts.map w.draft).sum
      = ((first.run behind).1.reversed.map w.draft).sum := by
        rw [List.map_reverse, List.sum_reverse]
    _ ≤ w.total (first.run behind).1 := by
        rw [Weights.total]
        omega
    _ ≤ (behind.map w.event).sum := by
        have run := w.total_run_le first behind
        rwa [nothing, Nat.zero_add] at run

/-- From a source no more strings are read than it has characters. -/
theorem size_table_ofSource_le (source : String) :
    (Reading.ofSource source).collection.table.size ≤ source.toList.length := by
  obtain ⟨drafts, opened, offset, table, -, weight⟩ := exists_weighed_drafts source .texts
  have each : ∀ drafts : List Draft,
      ((kept drafts).flatMap Draft.texts).length ≤ (drafts.map Weights.texts.draft).sum := by
    intro drafts
    induction drafts with
    | nil => exact Nat.le_refl 0
    | cons draft rest ih =>
      have one := Weights.length_texts_le draft
      rw [List.map_cons, List.sum_cons]
      cases named : draft.id with
      | none =>
        -- a node that is left out has paid, and adds no text
        rw [kept, List.filter_cons_of_neg (by simp [named])]
        exact Nat.le_trans ih (Nat.le_add_left _ _)
      | some text =>
        rw [kept, List.filter_cons_of_pos (by simp [named]), List.flatMap_cons, List.length_append]
        exact Nat.add_le_add one ih
  calc (Reading.ofSource source).collection.table.size
      ≤ ((kept drafts).flatMap Draft.texts).length := by
        rw [table]
        exact StringTable.size_ofList_le _
    _ ≤ (drafts.map Weights.texts.draft).sum := each drafts
    _ ≤ _ := weight
    _ ≤ Markup.openings (markupBehind source) := Markup.sum_tags_le opened offset _
    _ ≤ source.toList.length := openings_markupBehind_le source

/-- A snippet has fewer characters than the source that it is read from: where it stands there are
the tags of its node and its field, too. -/
theorem length_snippet_lt {source snippet : String}
    (mem : snippet ∈ (Reading.ofSource source).collection.snippets) :
    snippet.toList.length < source.toList.length := by
  obtain ⟨drafts, opened, offset, -, snippets, weight⟩ := exists_weighed_drafts source .scripts
  rw [snippets] at mem
  obtain ⟨draft, among, held⟩ := List.mem_flatMap.1 mem
  have script : 7 + snippet.toList.length ≤ (draft.scripts.map Weights.ofScript).sum :=
    List.le_sum_of_mem (List.mem_map_of_mem held)
  have node : 6 + (draft.scripts.map Weights.ofScript).sum ≤
      (drafts.map Weights.scripts.draft).sum :=
    List.le_sum_of_mem (List.mem_map_of_mem (List.mem_of_mem_filter among))
  have events : _ ≤ (markupBehind source).length := Markup.sum_extent_le opened offset _
  have markup := length_markupBehind_le source
  have weight : (drafts.map Weights.scripts.draft).sum ≤ _ := weight
  have paid := Nat.le_trans weight events
  omega

/-- In a source of less than `2 ^ 32` bytes the position of every string fits a word. -/
theorem small_table_of_compile {numbering : Numbering} {source : String} {document : Document}
    (short : source.utf8ByteSize < 2 ^ 32)
    (compiled : Document.compile numbering source = .ok document) :
    document.table.size ≤ 2 ^ 32 := by
  obtain ⟨-, rfl⟩ := compile_eq_ok compiled
  have strings := size_table_ofSource_le source
  have bytes := Text.length_le_utf8ByteSize source
  exact Nat.le_trans strings (by omega)

end Libretto.Drama
