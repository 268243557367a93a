/-
What the creation of directories changes.

A directory is created with those above it, as far as they are missing.  Whether that succeeds or
not, nothing that was there is changed, and what is new are directories on the way.

* **`Path.Through`** — a path leads through itself and through its parents;
* **`Creates`** — a tree is the other one with new directories on the way along a path;
* **`creates_createDirectories`** — so is the tree that a creation leaves.
-/
import Libretto.Proofs.Files.Writing

namespace Libretto

/-- A path leads through itself and through its parents. -/
inductive Path.Through (path : Path) : Path → Prop
  | self : Through path path
  | parent {above parent : Path} : Through path above → above.parent? = some parent →
      Through path parent

theorem Path.Through.trans {path above other : Path} (h : path.Through above)
    (next : above.Through other) : path.Through other := by
  induction next with
  | self => exact h
  | parent _ up ih => exact .parent ih up

namespace FileTree

variable {tree middle after : FileTree} {path : Path}

/-- The second tree is the first one, with new directories on the way along a path. -/
def Creates (path : Path) (tree after : FileTree) : Prop :=
  ∀ place, after.entry? place = tree.entry? place ∨
    tree.entry? place = none ∧ after.entry? place = some .directory ∧
      ∃ above, path.Through above ∧ after.find above = .ok place

namespace Creates

theorem refl (path : Path) (tree : FileTree) : Creates path tree tree :=
  fun _ => .inl rfl

theorem keepsDirectories (h : Creates path tree after) : tree.KeepsDirectories after := by
  intro place directory
  rcases h place with same | ⟨none, -⟩
  · rw [same, directory]
  · rw [none] at directory
    cases directory

theorem trans (h : Creates path tree middle) (next : Creates path middle after) :
    Creates path tree after := by
  intro place
  rcases next place with same | ⟨none, new, found⟩
  · rcases h place with before | ⟨none, new, above, through, found⟩
    · exact .inl (same.trans before)
    · exact .inr ⟨none, same.trans new, above, through,
        find_of_directories next.keepsDirectories found⟩
  · rcases h place with before | ⟨-, there, -⟩
    · exact .inr ⟨before ▸ none, new, found⟩
    · rw [there] at none
      cases none

/-- What is on the way along a parent is on the way along the path. -/
theorem of_parent {parent : Path} (h : Creates parent tree after)
    (up : path.parent? = some parent) : Creates path tree after := by
  intro place
  rcases h place with same | ⟨none, new, above, through, found⟩
  · exact .inl same
  · exact .inr ⟨none, new, above, (Path.Through.parent .self up).trans through, found⟩

end Creates

/-- A file is as it was. -/
theorem Creates.entry?_file (h : Creates path tree after) {place : Place} {bytes : Array UInt8} :
    after.entry? place = some (.file bytes) ↔ tree.entry? place = some (.file bytes) := by
  rcases h place with same | ⟨none, new, -⟩
  · rw [same]
  · rw [none, new]
    simp

/-! ### Creating -/

theorem creates_createDirectory (created : tree.createDirectory path = .ok after) :
    Creates path tree after := by
  obtain ⟨⟨directory, last⟩, steps, created⟩ := exists_of_bind_eq_ok created
  obtain ⟨place, new, created⟩ := exists_of_bind_eq_ok created
  split at created
  · cases created
  next free =>
    obtain rfl := Except.ok.inj created
    have inside : Place.isOutside place = false := isOutside_eq_false (by rw [free]; simp)
    have keeps : tree.KeepsDirectories (tree.put place .directory) :=
      keepsDirectories_put (by rw [free]; simp)
    have filled : entry? (tree.put place .directory) place = some .directory :=
      entry?_put_self inside
    intro other
    by_cases same : other = place
    · subst same
      exact .inr ⟨free, filled, path, .self,
        find_of_findLast keeps steps new fun _ => filled⟩
    · exact .inl (entry?_put_of_ne same)

theorem creates_ensureDirectory (ensured : tree.ensureDirectory path = .ok after) :
    Creates path tree after := by
  rw [ensureDirectory] at ensured
  split at ensured
  next created =>
    obtain rfl := Except.ok.inj ensured
    exact creates_createDirectory created
  next =>
    split at ensured
    · obtain rfl := Except.ok.inj ensured
      exact .refl path _
    · cases ensured

theorem creates_createDirectoriesWithin (room : Nat) (path : Path) (tree : FileTree) :
    Creates path tree (createDirectoriesWithin room path tree).2 := by
  induction room generalizing path tree with
  | zero => exact .refl path tree
  | succ room ih =>
    rw [createDirectoriesWithin]
    split
    · exact .refl path tree
    next ensured => exact creates_ensureDirectory ensured
    next parent up _ =>
      have above := (ih parent tree).of_parent up
      split
      next stopped => rwa [stopped] at above
      next made =>
        rw [made] at above
        split
        next ensured => exact above.trans (creates_ensureDirectory ensured)
        next => exact above
    · exact .refl path tree

/-- The creation of a directory, whether it succeeds or not, changes nothing that was there; what
is new are directories on the way. -/
theorem creates_createDirectories (tree : FileTree) (path : Path) :
    Creates path tree (tree.createDirectories path).2 :=
  creates_createDirectoriesWithin _ path tree

end FileTree

end Libretto
