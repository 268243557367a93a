/-
Where a unit reports.

Each line has an outcome of its own, and what is reported about it points to it.  So the reports of
a unit are about lines of its source, in the order of the lines, wherever these are located:

* **`Outcome.length_ofLines`** — one outcome for each line;
* **`location_of_diagnosticsAt`**, **`location_of_compile`** — the places of reports;
* **`pairwise_diagnosticsAt`** — their order.
-/
import Libretto.Script.Unit
import Mathlib.Data.List.Pairwise
import Mathlib.Data.List.Range

namespace Libretto.Script

theorem pairwise_zipIdx {α : Type} (l : List α) (first : Nat) :
    (l.zipIdx first).Pairwise fun a b => a.2 < b.2 := by
  have numbers : ((l.zipIdx first).map Prod.snd).Pairwise (· < ·) := by
    rw [List.zipIdx_map_snd]
    exact List.pairwise_lt_range'
  exact List.pairwise_map.1 numbers

namespace Outcome

theorem length_ofLines (numbering : Numbering) (lines : List (List Char)) (table : StringTable) :
    (ofLines numbering lines table).1.length = lines.length := by
  induction lines generalizing table with
  | nil => rfl
  | cons line rest ih => exact congrArg (· + 1) (ih (ofLine numbering line table).2)

theorem location_of_diagnostics {location : Location} {outcome : Outcome} {d : Diagnostic}
    (mem : d ∈ outcome.diagnostics location) : d.location = location := by
  rcases List.mem_append.1 mem with mem | mem
  · unfold warnings at mem
    split at mem
    · cases mem
    · split at mem
      · cases mem
      · rw [List.mem_singleton.1 mem]
  · rw [errors, Option.mem_toList, Option.map_eq_some_iff] at mem
    obtain ⟨message, -, rfl⟩ := mem
    rfl

end Outcome

namespace ScriptUnit

/-- A unit reports about its lines. -/
theorem location_of_diagnosticsAt (unit : ScriptUnit) {locate : Nat → Location} {d : Diagnostic}
    (mem : d ∈ unit.diagnosticsAt locate) :
    ∃ number, d.location = locate number ∧ 1 ≤ number ∧ number ≤ unit.outcomes.length := by
  obtain ⟨⟨outcome, number⟩, numbered, mem⟩ := List.mem_flatMap.1 mem
  obtain ⟨first, last, -⟩ := List.mem_zipIdx numbered
  exact ⟨number, Outcome.location_of_diagnostics mem, first, by omega⟩

/-- These are the lines of its source. -/
theorem location_of_compile {numbering : Numbering} {source : String} {locate : Nat → Location}
    {d : Diagnostic} (mem : d ∈ (compile numbering source).diagnosticsAt locate) :
    ∃ number, d.location = locate number ∧ 1 ≤ number ∧
      number ≤ (Text.lines source.toList).length := by
  have lines : (compile numbering source).outcomes.length = (Text.lines source.toList).length :=
    Outcome.length_ofLines numbering _ _
  rw [← lines]
  exact location_of_diagnosticsAt _ mem

/-- A unit reports about its lines in order. -/
theorem pairwise_diagnosticsAt (unit : ScriptUnit) (locate : Nat → Location) :
    (unit.diagnosticsAt locate).Pairwise fun first second =>
      ∃ k l, k ≤ l ∧ first.location = locate k ∧ second.location = locate l := by
  rw [diagnosticsAt, List.pairwise_flatMap]
  refine ⟨?_, ?_⟩
  · intro (outcome, number) _
    refine List.pairwise_of_forall_mem_list ?_
    intro first mem second mem'
    exact ⟨number, number, Nat.le_refl _, Outcome.location_of_diagnostics mem,
      Outcome.location_of_diagnostics mem'⟩
  · refine (pairwise_zipIdx unit.outcomes 1).imp ?_
    intro (outcome, k) (outcome', l) before first mem second mem'
    exact ⟨k, l, Nat.le_of_lt before, Outcome.location_of_diagnostics mem,
      Outcome.location_of_diagnostics mem'⟩

end ScriptUnit

end Libretto.Script
