/-
The lines of a text.

A line ends at a line feed, and one carriage return before that line feed belongs to the ending. The
last line needs no line feed; a text that ends with one has no further, empty line.

* **`lines`** — the lines without their endings;
* **`lines_append`** — cutting after a line feed cuts the list of lines.
-/

namespace Libretto.Text

/-- The lines of a text, without their endings. -/
def lines : List Char → List (List Char)
  | [] => []
  | '\n' :: rest => [] :: lines rest
  | '\r' :: '\n' :: rest => [] :: lines rest
  | c :: rest =>
    match lines rest with
    | [] => [[c]]
    | line :: more => (c :: line) :: more

/-- The lines of a string. -/
def linesOf (text : String) : List String :=
  (lines text.toList).map String.ofList

/-- A text has no line only if it is empty. -/
theorem lines_eq_nil {text : List Char} (h : lines text = []) : text = [] := by
  fun_cases lines text <;> simp_all [lines]

/-- What precedes a line feed has its own lines, whatever follows. -/
theorem lines_append (a b : List Char) :
    lines (a ++ '\n' :: b) = lines (a ++ ['\n']) ++ lines b := by
  fun_induction lines a with
  | case1 => simp [lines]
  | case2 rest ih => simp [lines, ih]
  | case3 rest ih => simp [lines, ih]
  | case4 c rest hn hr h ih =>
    obtain rfl := lines_eq_nil h
    by_cases hc : c = '\r'
    · subst hc; simp [lines]
    · simp [lines, hc]
  | case5 c rest hn hr line more h ih =>
    obtain ⟨d, rest, rfl⟩ : ∃ d r, rest = d :: r := by cases rest <;> simp_all [lines]
    have step : ∀ tail, lines (c :: (d :: rest ++ tail)) =
        match lines (d :: rest ++ tail) with
        | [] => [[c]]
        | line :: more => (c :: line) :: more := by
      intro tail
      rw [List.cons_append, lines]
      · exact fun h => hn h
      · rintro r rfl h
        exact hr rest rfl (by simp_all)
    change lines (c :: (d :: rest ++ _)) = lines (c :: (d :: rest ++ _)) ++ _
    rw [step, step, ih]
    cases h' : lines (d :: rest ++ ['\n']) with
    | nil => simpa using lines_eq_nil h'
    | cons => simp

end Libretto.Text
