/-
How much markup events take.

What an event holds stands in the markup, and events stand there one behind the other.  So there
are no more tags than places at which one can begin, and names and texts are no longer together
than the markup:

* **`openings`** — the places at which a tag can begin;
* **`Event.tags`**, **`sum_tags_le`** — the tags among events begin at such places;
* **`Event.extent`**, **`sum_extent_le`** — the characters of names and texts are characters of the
  markup;
* **`length_unescape_le`** — a text gets no longer when its references are replaced.
-/
import Libretto.Markup.Event
import Libretto.Proofs.Outcome
import Mathlib.Algebra.GroupWithZero.Nat

namespace Libretto.Markup

variable {text content behind : List Char} {construct : Construct}

/-! ### Constructs -/

theorem Construct.eq_of_split (found : construct.split text = some (content, behind)) :
    ∃ c, text = content ++ c :: behind := by
  cases construct <;> exact splitWhere_eq_some found

/-- A slash does not close a tag. -/
theorem head?_of_split_tag (found : Construct.tag.split text = some (content, behind))
    (slash : text.head? = some '/') : content.head? = some '/' := by
  obtain ⟨rest, rfl⟩ := List.head?_eq_some_iff.1 slash
  have more : Construct.tag.split ('/' :: rest) =
      (splitWhere stepTag none rest).map fun parts => ('/' :: parts.1, parts.2) := rfl
  rw [more, Option.map_eq_some_iff] at found
  obtain ⟨parts, -, same⟩ := found
  rw [← (Prod.mk.inj same).1]
  rfl

/-! ### Tags -/

/-- The left angle brackets that no slash follows. -/
def openings : List Char → Nat
  | [] => 0
  | c :: rest => (if c = '<' ∧ rest.head? ≠ some '/' then 1 else 0) + openings rest

theorem openings_le_append (front back : List Char) : openings back ≤ openings (front ++ back) := by
  induction front with
  | nil => exact Nat.le_refl _
  | cons c rest ih => exact Nat.le_trans ih (Nat.le_add_left _ _)

theorem openings_append_le (front back : List Char) :
    openings (front ++ back) ≤ front.count '<' + openings back := by
  induction front with
  | nil => exact Nat.le_add_left _ _
  | cons c rest ih =>
    rw [List.cons_append, openings, List.count_cons]
    by_cases bracket : c = '<'
    · subst bracket
      rw [if_pos (beq_self_eq_true _)]
      split <;> omega
    · rw [if_neg fun both => bracket both.1]
      omega

/-- The number of tags that an event is: one or none. -/
def Event.tags : Event → Nat
  | .start _ | .empty _ => 1
  | .close | .text .. | .cdata _ | .aside => 0

/-- A construct is a tag only if no slash stands in front of its content. -/
theorem tags_eventOf_le {opened opened' : List (List Char)} {event : Event}
    (found : construct.split text = some (content, behind))
    (read : eventOf opened content construct = .ok (event, opened')) :
    event.tags ≤ if text.head? ≠ some '/' then 1 else 0 := by
  rcases eventOf_cases read with ⟨-, rfl | rfl⟩ | ⟨rfl, read⟩
  · exact Nat.zero_le _
  · exact Nat.zero_le _
  · rcases eventOfTag_cases read with ⟨-, -, rfl⟩ | ⟨begins, tag⟩
    · exact Nat.zero_le _
    · have one : event.tags = 1 := by rcases tag with ⟨-, rfl⟩ | ⟨-, rfl⟩ <;> rfl
      rw [if_pos fun slash => begins (head?_of_split_tag found slash)]
      exact Nat.le_of_eq one

/-- Tags begin at openings. -/
theorem sum_tags_le (opened : List (List Char)) (offset : Nat) (text : List Char) :
    ((eventsFrom opened offset text).events.map Event.tags).sum ≤ openings text := by
  fun_induction eventsFrom opened offset text with
  | case1 | case2 | case3 | case4 => simp
  | case5 opened offset rest construct _ content behind found event opened' read ih =>
    -- openings inside of the construct are not needed
    have here := tags_eventOf_le found read
    obtain ⟨c, rfl⟩ := Construct.eq_of_split found
    have later : openings behind ≤ openings (content ++ c :: behind) :=
      Nat.le_trans (openings_le_append [c] behind) (openings_le_append content _)
    rw [EventStream.cons, List.map_cons, List.sum_cons, openings]
    simp only [true_and]
    omega
  | case6 opened offset c rest other raw stop ih =>
    have split : rest.takeWhile (· ≠ '<') ++ rest.dropWhile (· ≠ '<') = rest :=
      List.takeWhile_append_dropWhile
    have later : openings (rest.dropWhile (· ≠ '<')) ≤ openings rest := by
      have all := openings_le_append (rest.takeWhile (· ≠ '<')) (rest.dropWhile (· ≠ '<'))
      rwa [split] at all
    rw [EventStream.cons, List.map_cons, List.sum_cons, openings, if_neg fun both => other both.1]
    exact Nat.add_le_add (Nat.le_refl 0) (Nat.le_trans ih later)

/-! ### Characters -/

/-- The characters of the name or text that an event holds, with those around the name. -/
def Event.extent : Event → Nat
  | .start tag | .empty tag => tag.name.length + 2
  | .text raw _ => raw.length
  | .cdata text => text.length
  | .close | .aside => 0

/-- What an event holds is part of the content of its construct. -/
theorem extent_eventOf_le {opened opened' : List (List Char)} {event : Event}
    (read : eventOf opened content construct = .ok (event, opened')) :
    event.extent ≤ content.length + 2 := by
  have name : ∀ content : List Char, (StartTag.ofContent content).name.length ≤ content.length :=
    fun content => (List.takeWhile_prefix _).length_le
  rcases eventOf_cases read with ⟨-, rfl | rfl⟩ | ⟨-, read⟩
  · exact Nat.zero_le _
  · have part : ((content.drop 8).take (content.length - 10)).length ≤ content.length :=
      ((List.take_sublist _ _).trans (List.drop_sublist _ _)).length_le
    exact Nat.le_trans part (Nat.le_add_right _ _)
  rcases eventOfTag_cases read with ⟨-, -, rfl⟩ | ⟨-, ⟨-, rfl⟩ | ⟨-, rfl⟩⟩
  · exact Nat.zero_le _
  · have shorter : content.dropLast.length ≤ content.length := (List.dropLast_prefix _).length_le
    exact Nat.add_le_add_right (Nat.le_trans (name _) shorter) 2
  · exact Nat.add_le_add_right (name _) 2

/-- Names and texts stand in the markup one behind the other. -/
theorem sum_extent_le (opened : List (List Char)) (offset : Nat) (text : List Char) :
    ((eventsFrom opened offset text).events.map Event.extent).sum ≤ text.length := by
  fun_induction eventsFrom opened offset text with
  | case1 | case2 | case3 | case4 => simp
  | case5 opened offset rest construct _ content behind found event opened' read ih =>
    -- there is a bracket in front of the content, and a character behind it
    have here := extent_eventOf_le read
    obtain ⟨c, rfl⟩ := Construct.eq_of_split found
    rw [EventStream.cons, List.map_cons, List.sum_cons, List.length_cons, List.length_append,
      List.length_cons]
    omega
  | case6 opened offset c rest _ raw stop ih =>
    have split := congrArg List.length
      (List.takeWhile_append_dropWhile (p := fun c => decide (c ≠ '<')) (l := rest))
    rw [List.length_append] at split
    have here : (Event.text raw stop).extent = (rest.takeWhile (· ≠ '<')).length + 1 := rfl
    rw [EventStream.cons, List.map_cons, List.sum_cons, List.length_cons, here]
    omega

/-! ### References -/

/-- A reference is longer than the character that it stands for. -/
theorem length_unescapeFrom_le {stop offset : Nat} {text plain : List Char}
    (read : unescapeFrom stop offset text = .ok plain) : plain.length ≤ text.length := by
  fun_induction unescapeFrom stop offset text generalizing plain with
  | case1 =>
    obtain rfl := Except.ok.inj read
    exact Nat.le_refl 0
  | case2 offset rest _ behind found =>
    rename_i ih
    obtain ⟨c, -, read⟩ := exists_of_bind_eq_ok read
    obtain ⟨more, later, read⟩ := exists_of_bind_eq_ok read
    obtain rfl := Except.ok.inj read
    have suffix := (List.dropWhile_suffix fun c => c ≠ '&' && c ≠ ';' : _ <:+ rest).length_le
    have behind := ih later
    rw [found] at suffix
    simp only [List.length_cons] at suffix ⊢
    omega
  | case3 => cases read
  | case4 offset c rest _ ih =>
    obtain ⟨more, later, read⟩ := exists_of_bind_eq_ok read
    obtain rfl := Except.ok.inj read
    exact Nat.add_le_add_right (ih later) 1

theorem length_unescape_le {text plain : List Char} (read : unescape text = .ok plain) :
    plain.length ≤ text.length :=
  length_unescapeFrom_le read

end Libretto.Markup
