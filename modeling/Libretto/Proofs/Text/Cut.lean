/-
Texts that are cut at a character.

* **`takeWhile_ne`** — what stands in front of the first character of a kind, and what from it on;
* **`exists_last`** — the last character of a kind, with what stands around it.
-/
import Mathlib.Data.List.TakeWhile

namespace Libretto.Text

variable {c : Char} {text : List Char}

/-- What stands in front of the first character of a kind, and what stands behind it. -/
theorem takeWhile_ne {front back : List Char} (front_ : c ∉ front)
    (back_ : ∀ d ∈ back.head?, d = c) :
    (front ++ back).takeWhile (· ≠ c) = front ∧ (front ++ back).dropWhile (· ≠ c) = back := by
  have passed : ∀ d ∈ front, decide (d ≠ c) = true := by
    rintro d mem
    exact decide_eq_true (ne_of_mem_of_not_mem mem front_)
  rw [List.takeWhile_append_of_pos passed, List.dropWhile_append_of_pos passed]
  cases back with
  | nil => exact ⟨List.append_nil front, rfl⟩
  | cons d rest =>
    obtain rfl := back_ d rfl
    simp

theorem not_mem_takeWhile_ne : c ∉ text.takeWhile (· ≠ c) := by
  intro mem
  have passed := List.mem_takeWhile_imp mem
  simp at passed

theorem eq_of_mem_head?_dropWhile_ne :
    ∀ d ∈ (text.dropWhile (· ≠ c)).head?, d = c := by
  intro d mem
  have stops := List.head?_dropWhile_not (· ≠ c) text
  rw [Option.mem_def.1 mem] at stops
  simpa using stops

/-- A character that stands in a text stands somewhere for the last time. -/
theorem exists_last (mem : c ∈ text) : ∃ front back, text = front ++ c :: back ∧ c ∉ back := by
  obtain ⟨back, front, reversed, absent⟩ := List.eq_append_cons_of_mem (List.mem_reverse.2 mem)
  refine ⟨front.reverse, back.reverse, ?_, fun mem => absent (List.mem_reverse.1 mem)⟩
  have same := congrArg List.reverse reversed
  rwa [List.reverse_reverse, List.reverse_append, List.reverse_cons, List.append_assoc] at same

end Libretto.Text
