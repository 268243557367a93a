/-
How many operands the lists of an expression have.

The code of everything that is visited is part of the code of the whole, and each operand takes a
word at least.  So the size of a block bounds every number of operands in it:

* **`part_of_visited`** — the parts of a part are parts, and take no more code words;
* **`length_operands_lt`** — a list takes more code words than it has operands;
* **`lt_of_compile`** — hence in an expression that compiles all these numbers are words.
-/
import Libretto.Proofs.Code.Complete
import Libretto.Proofs.Code.Faults

namespace Libretto.Script.Expr

mutual

/-- What is visited inside of an expression is part of it. -/
theorem part_of_visited : ∀ {e x : Expr}, x ∈ e.visited → x.visited ⊆ e.visited ∧ x.size ≤ e.size
  | number _, _, mem | symbol _, _, mem | string _, _, mem | list [], _, mem => by
    obtain rfl := List.mem_singleton.1 mem
    exact ⟨List.Subset.refl _, Nat.le_refl _⟩
  | list (head :: operands), x, mem => by
    by_cases whole : x = list (head :: operands)
    · rw [whole]
      exact ⟨List.Subset.refl _, Nat.le_refl _⟩
    · rw [visited, List.mem_cons] at mem
      have inside := mem.resolve_left whole
      rw [visited, size]
      cases shape : Shape.ofHead head with
      | keyword keyword =>
        rw [shape] at inside
        obtain ⟨parts, size⟩ := part_of_visitedIn inside
        exact ⟨List.subset_cons_of_subset _ parts, by dsimp only; omega⟩
      | operator op =>
        rw [shape] at inside
        obtain ⟨parts, size⟩ := part_of_visitedIn inside
        exact ⟨List.subset_cons_of_subset _ parts, by dsimp only; omega⟩
      | call =>
        rw [shape] at inside
        rcases List.mem_append.1 inside with inside | inside
        · obtain ⟨parts, size⟩ := part_of_visited inside
          exact ⟨List.subset_cons_of_subset _ (List.subset_append_of_subset_left _ parts),
            by dsimp only; omega⟩
        · obtain ⟨parts, size⟩ := part_of_visitedIn inside
          exact ⟨List.subset_cons_of_subset _ (List.subset_append_of_subset_right _ parts),
            by dsimp only; omega⟩

theorem part_of_visitedIn : ∀ {names : Nat} {operands : List Expr} {x : Expr},
    x ∈ visitedIn names operands →
      x.visited ⊆ visitedIn names operands ∧ x.size ≤ operandSizes names operands
  | _, [], _, mem => by
    rw [visitedIn] at mem
    cases mem
  | names + 1, _ :: rest, _, mem => by
    rw [visitedIn] at mem ⊢
    rw [operandSizes]
    exact part_of_visitedIn mem
  | 0, first :: rest, _, mem => by
    rw [visitedIn] at mem ⊢
    rw [operandSizes]
    rcases List.mem_append.1 mem with mem | mem
    · obtain ⟨parts, size⟩ := part_of_visited mem
      exact ⟨List.subset_append_of_subset_left _ parts, by omega⟩
    · obtain ⟨parts, size⟩ := part_of_visitedIn mem
      exact ⟨List.subset_append_of_subset_right _ parts, by omega⟩

end

/-- A list takes more code words than it has operands. -/
theorem length_operands_lt {head : Expr} {operands : List Expr}
    (h : (list (head :: operands)).WellFormed) :
    operands.length < (list (head :: operands)).size := by
  cases h with
  | @keyword keyword _ _ shape arity =>
    have few : keyword.arity < 4 := by cases keyword <;> decide
    simp only [size, shape]
    omega
  | operator shape inner | call shape callee inner =>
    have each := length_le_operandSizes inner
    simp only [size, shape]
    omega

/-- An expression that compiles has its code words counted by a word, and so the operands of every
list that is visited. -/
theorem lt_of_compile {numbering : Numbering} {e : Expr} {table : StringTable} {block : Block}
    (compiled : (e.compile numbering table).1 = .ok block) :
    block.code.size < 2 ^ 32 ∧ ∀ head operands, list (head :: operands) ∈ e.visited →
      operands.length < 2 ^ 32 := by
  -- no fault is reported, so nothing that is visited has one
  have outcome := compile_outcome numbering e table
  rw [compiled] at outcome
  have formed : ∀ x ∈ e.visited, x.Formed := fun x mem =>
    fault?_eq_none_iff.1 (List.findSome?_eq_none_iff.1 outcome x mem)
  have wellFormed : ∀ {x}, x ∈ e.visited → x.WellFormed := fun mem =>
    wellFormed_of_formed fun y within => formed y ((part_of_visited mem).1 within)
  have emitted := assemble_emitted numbering e (assemble_of_compile (Prod.ext compiled rfl))
  have small := emitted.size_lt
  have size : block.code.size = 0 + e.size := emitted.size_eq
  refine ⟨by omega, fun head operands mem => ?_⟩
  have part := (part_of_visited mem).2
  have count := length_operands_lt (wellFormed mem)
  omega

end Libretto.Script.Expr
