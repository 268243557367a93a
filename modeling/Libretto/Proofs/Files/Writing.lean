/-
What a tree holds after files were written.

Where a path leads depends on the directories alone, and writing files adds none and takes none
away.  So it can be asked in the end which of several paths lead to the same place.

* **`entry?_put_self`**, **`entry?_put_of_ne`** — a place that is filled, and all others;
* **`find_of_directories`** — a path leads where it did, if the directories are still there;
* **`write_eq_ok`** — a write fills the place to which its path leads;
* **`writeAll`** — writes one behind the other;
* **`read_of_writeAll`** — a path reads what was written last to its place.
-/
import Libretto.FileSystem
import Libretto.Proofs.Outcome

namespace Libretto.FileTree

variable {tree after : FileTree} {place other : Place} {entry : FileEntry}

/-! ### Entries -/

theorem lookup_filter_ne {entries : List (Place × FileEntry)} (ne : other ≠ place) :
    (entries.filter fun e => e.1 ≠ place).lookup other = entries.lookup other := by
  induction entries with
  | nil => rfl
  | cons e rest ih =>
    by_cases same : e.1 = place
    · have skip : (other == e.1) = false := by simpa [same] using ne
      rw [List.filter_cons_of_neg (by simpa using same), List.lookup_cons, skip, ih]
    · rw [List.filter_cons_of_pos (by simpa using same), List.lookup_cons, List.lookup_cons, ih]

theorem entry?_put_self (inside : Place.isOutside place = false) :
    entry? (tree.put place entry) place = some entry := by
  unfold entry?
  rw [inside, put]
  simp

theorem entry?_put_of_ne (ne : other ≠ place) :
    entry? (tree.put place entry) other = tree.entry? other := by
  have skip : (other == place) = false := by simpa using ne
  unfold entry?
  rw [put, List.lookup_cons, skip]
  simp only [lookup_filter_ne ne]

/-- A place that is no directory is inside of the tree. -/
theorem isOutside_eq_false (h : tree.entry? place ≠ some .directory) :
    Place.isOutside place = false := by
  unfold entry? at h
  split at h
  · exact absurd rfl h
  next inside => exact eq_false_of_ne_true inside

/-! ### Where paths lead -/

theorem checkDirectory_eq_ok_iff :
    tree.checkDirectory place = .ok () ↔ tree.entry? place = some .directory := by
  rw [checkDirectory]
  split <;> simp [*]

/-- All directories of the one tree are directories of the other one. -/
def KeepsDirectories (tree after : FileTree) : Prop :=
  ∀ place, tree.entry? place = some .directory → after.entry? place = some .directory

/-- Where a step leads from a directory. -/
def advance (place : Place) (step : String) : Except FileError Place :=
  if step = "." then .ok place
  else if step = ".." then .ok place.parent
  else place.child step

theorem walk_cons (tree : FileTree) (place : Place) (step : String) (rest : List String) :
    tree.walk place (step :: rest) =
      (tree.checkDirectory place >>= fun _ => advance place step >>= fun next =>
        tree.walk next rest) := by
  rw [walk, advance]
  cases tree.checkDirectory place with
  | error e => rfl
  | ok done =>
    dsimp only [bind, Except.bind]
    by_cases dot : step = "."
    · rw [if_pos dot, if_pos dot]
    · rw [if_neg dot, if_neg dot]
      by_cases dots : step = ".."
      · rw [if_pos dots, if_pos dots]
      · rw [if_neg dots, if_neg dots]
        cases place.child step <;> rfl

theorem walk_append (tree : FileTree) (place : Place) (steps more : List String) :
    tree.walk place (steps ++ more) =
      (tree.walk place steps >>= fun reached => tree.walk reached more) := by
  induction steps generalizing place with
  | nil => rfl
  | cons step rest ih =>
    rw [List.cons_append, walk_cons, walk_cons]
    cases tree.checkDirectory place with
    | error e => rfl
    | ok done =>
      cases advance place step with
      | error e => rfl
      | ok next => exact ih next

theorem walk_of_directories (keeps : tree.KeepsDirectories after) {steps : List String}
    {reached : Place} (walked : tree.walk place steps = .ok reached) :
    after.walk place steps = .ok reached := by
  induction steps generalizing place with
  | nil => exact walked
  | cons step rest ih =>
    rw [walk_cons] at walked ⊢
    obtain ⟨⟨⟩, directory, walked⟩ := exists_of_bind_eq_ok walked
    obtain ⟨next, led, walked⟩ := exists_of_bind_eq_ok walked
    rw [checkDirectory_eq_ok_iff.2 (keeps _ (checkDirectory_eq_ok_iff.1 directory)), led]
    exact ih walked

theorem find_eq_ok_iff {path : Path} :
    tree.find path = .ok place ↔ path.check = .ok () ∧
      tree.walk path.origin path.steps = .ok place ∧
        (path.asksForDirectory = true → tree.entry? place = some .directory) := by
  rw [find]
  cases path.check with
  | error e => simp [bind, Except.bind]
  | ok sound =>
    cases tree.walk path.origin path.steps with
    | error e => simp [bind, Except.bind]
    | ok reached =>
      by_cases asks : path.asksForDirectory = true
      · cases there : tree.checkDirectory reached with
        | error e =>
          have missing : tree.entry? reached ≠ some .directory := by
            intro directory
            rw [checkDirectory_eq_ok_iff.2 directory] at there
            cases there
          simp only [bind, Except.bind, if_pos asks, there, reduceCtorEq, false_iff, not_and]
          rintro - same asked
          obtain rfl := Except.ok.inj same
          exact missing (asked asks)
        | ok done =>
          have directory := checkDirectory_eq_ok_iff.1 there
          simp only [bind, Except.bind, if_pos asks, there, true_and]
          constructor
          · intro same
            obtain rfl := Except.ok.inj same
            exact ⟨rfl, fun _ => directory⟩
          · exact fun found => found.1
      · simp [bind, Except.bind, asks, pure, Except.pure]

/-- A path leads where it did, if the directories are still there. -/
theorem find_of_directories (keeps : tree.KeepsDirectories after) {path : Path}
    (found : tree.find path = .ok place) : after.find path = .ok place := by
  obtain ⟨sound, walked, asked⟩ := find_eq_ok_iff.1 found
  exact find_eq_ok_iff.2
    ⟨sound, walk_of_directories keeps walked, fun asks => keeps place (asked asks)⟩

theorem newPlace_eq_ok {known : FileError} {directory : Place} {last : Option String}
    (new : newPlace known directory last = .ok place) :
    ∃ name, last = some name ∧ advance directory name = .ok place := by
  rw [newPlace.eq_def] at new
  split at new
  · cases new
  · cases new
  · cases new
  next name dot dots =>
    refine ⟨name, rfl, ?_⟩
    rwa [advance, if_neg dot, if_neg dots]

theorem findLast_eq_ok_iff {path : Path} {directory : Place} {last : Option String} :
    tree.findLast path = .ok (directory, last) ↔ path.check = .ok () ∧
      tree.walk path.origin path.steps.dropLast = .ok directory ∧
        tree.entry? directory = some .directory ∧ path.steps.getLast? = last := by
  rw [← checkDirectory_eq_ok_iff]
  constructor
  · intro steps
    obtain ⟨⟨⟩, sound, steps⟩ := exists_of_bind_eq_ok steps
    obtain ⟨reached, walked, steps⟩ := exists_of_bind_eq_ok steps
    obtain ⟨⟨⟩, there, steps⟩ := exists_of_bind_eq_ok steps
    obtain ⟨rfl, rfl⟩ := Prod.mk.inj (Except.ok.inj steps)
    exact ⟨sound, walked, there, rfl⟩
  · rintro ⟨sound, walked, there, rfl⟩
    rw [findLast, sound, walked]
    simp only [bind, Except.bind, there]
    rfl

/-- A path whose last step is a new place leads there, if it asks for no directory or gets one. -/
theorem find_of_findLast {path : Path} {directory : Place} {last : Option String}
    {known : FileError} (keeps : tree.KeepsDirectories after)
    (steps : tree.findLast path = .ok (directory, last))
    (new : newPlace known directory last = .ok place)
    (asked : path.asksForDirectory = true → after.entry? place = some .directory) :
    after.find path = .ok place := by
  obtain ⟨sound, walked, there, final⟩ := findLast_eq_ok_iff.1 steps
  obtain ⟨name, rfl, led⟩ := newPlace_eq_ok new
  obtain ⟨front, split⟩ := List.getLast?_eq_some_iff.1 final
  rw [split, List.dropLast_concat] at walked
  refine find_eq_ok_iff.2 ⟨sound, ?_, asked⟩
  rw [split, walk_append, walk_of_directories keeps walked]
  show after.walk directory [name] = _
  rw [walk_cons, checkDirectory_eq_ok_iff.2 (keeps _ there), led]
  rfl

/-! ### Writing -/

/-- A write fills the place to which its path leads, unless that is a directory. -/
theorem write_eq_ok {path : Path} {bytes : Array UInt8}
    (written : tree.write path bytes = .ok after) :
    ∃ place, tree.find path = .ok place ∧ tree.entry? place ≠ some .directory ∧
      after = tree.put place (.file bytes) := by
  obtain ⟨⟨directory, last⟩, steps, written⟩ := exists_of_bind_eq_ok written
  dsimp only at written
  by_cases asks : path.asksForDirectory = true
  · rw [if_pos asks] at written
    cases written
  · rw [if_neg asks] at written
    obtain ⟨place, new, written⟩ := exists_of_bind_eq_ok written
    refine ⟨place, find_of_findLast (fun _ there => there) steps new
      fun asked => absurd asked asks, ?_⟩
    split at written
    · cases written
    next free =>
      obtain rfl := Except.ok.inj written
      exact ⟨free, rfl⟩

theorem keepsDirectories_put (free : tree.entry? place ≠ some .directory) :
    tree.KeepsDirectories (tree.put place entry) := by
  intro other directory
  have ne : other ≠ place := fun same => free (same ▸ directory)
  rw [entry?_put_of_ne ne, directory]

/-- Files that are written one behind the other. -/
abbrev Output := Path × Array UInt8

/-- Writes files one behind the other. -/
def writeAll (tree : FileTree) : List Output → Except FileError FileTree
  | [] => .ok tree
  | (path, bytes) :: rest => do (← tree.write path bytes).writeAll rest

theorem writeAll_append (tree : FileTree) (outputs more : List Output) :
    tree.writeAll (outputs ++ more) =
      (tree.writeAll outputs >>= fun middle => middle.writeAll more) := by
  induction outputs generalizing tree with
  | nil => rfl
  | cons output rest ih =>
    rw [List.cons_append, writeAll, writeAll]
    cases tree.write output.1 output.2 with
    | error e => rfl
    | ok next => exact ih next

/-- The place of a path, if it leads to one. -/
def place? (tree : FileTree) (path : Path) : Option Place :=
  (tree.find path).toOption

/-- The last of some outputs that lead to a place. -/
def lastTo (tree : FileTree) (place : Place) (outputs : List Output) : Option Output :=
  (outputs.filter fun output => tree.place? output.1 = some place).getLast?

theorem keepsDirectories_writeAll {outputs : List Output}
    (written : tree.writeAll outputs = .ok after) : tree.KeepsDirectories after := by
  induction outputs generalizing tree with
  | nil =>
    obtain rfl := Except.ok.inj written
    exact fun _ directory => directory
  | cons output rest ih =>
    obtain ⟨next, first, behind⟩ := exists_of_bind_eq_ok written
    obtain ⟨place, -, free, rfl⟩ := write_eq_ok first
    exact fun other directory => ih behind other (keepsDirectories_put free other directory)

/-- A place holds what was written last to it, and otherwise what it held before. -/
theorem entry?_of_writeAll {outputs : List Output} (written : tree.writeAll outputs = .ok after)
    (place : Place) :
    after.entry? place =
      match after.lastTo place outputs with
      | some output => some (.file output.2)
      | none => tree.entry? place := by
  induction outputs generalizing tree with
  | nil =>
    obtain rfl := Except.ok.inj written
    rfl
  | cons output rest ih =>
    obtain ⟨next, first, behind⟩ := exists_of_bind_eq_ok written
    obtain ⟨target, found, free, rfl⟩ := write_eq_ok first
    have there : after.place? output.1 = some target := by
      have keeps := keepsDirectories_writeAll written
      rw [place?, find_of_directories keeps found]
      rfl
    rw [ih behind, lastTo, lastTo]
    by_cases same : target = place
    · subst same
      rw [List.filter_cons_of_pos (by simpa using there), List.getLast?_cons,
        entry?_put_self (isOutside_eq_false free)]
      cases (rest.filter fun output => after.place? output.1 = some target).getLast? <;> rfl
    · have other : ¬ after.place? output.1 = some place := by
        rw [there]
        exact fun h => same (Option.some.inj h)
      rw [List.filter_cons_of_neg (by simpa using other), entry?_put_of_ne (Ne.symm same)]

/-- The path of an output leads, in the end, to a place of its own or of others. -/
theorem exists_place_of_writeAll {outputs : List Output}
    (written : tree.writeAll outputs = .ok after) {output : Output} (mem : output ∈ outputs) :
    ∃ place, after.find output.1 = .ok place := by
  induction outputs generalizing tree with
  | nil => cases mem
  | cons first rest ih =>
    obtain ⟨next, here, behind⟩ := exists_of_bind_eq_ok written
    obtain rfl | later := List.mem_cons.1 mem
    · obtain ⟨place, found, -, -⟩ := write_eq_ok here
      exact ⟨place, find_of_directories (keepsDirectories_writeAll written) found⟩
    · exact ih behind later

/-- A path that was written reads what was written last to the place where it leads. -/
theorem read_of_writeAll {outputs : List Output} (written : tree.writeAll outputs = .ok after)
    {output : Output} (mem : output ∈ outputs) :
    ∃ place last, after.find output.1 = .ok place ∧ after.lastTo place outputs = some last ∧
      after.read output.1 = .ok last.2 := by
  obtain ⟨place, found⟩ := exists_place_of_writeAll written mem
  have there : output ∈ outputs.filter fun output => after.place? output.1 = some place := by
    rw [List.mem_filter]
    exact ⟨mem, by rw [place?, found]; simp [Except.toOption]⟩
  obtain ⟨last, final⟩ : ∃ last, after.lastTo place outputs = some last :=
    ⟨_, List.getLast?_eq_some_getLast (List.ne_nil_of_mem there)⟩
  have entry : after.entry? place = some (.file last.2) := by
    rw [entry?_of_writeAll written, final]
  refine ⟨place, last, found, final, ?_⟩
  rw [read, found]
  simp only [bind, Except.bind, entry]
  rfl

/-- An output is the last to its place, if none behind it leads there. -/
theorem lastTo_of_later {outputs later : List Output} {output : Output}
    (here : tree.place? output.1 = some place)
    (elsewhere : ∀ other ∈ later, tree.place? other.1 ≠ some place) :
    tree.lastTo place (outputs ++ output :: later) = some output := by
  have none : later.filter (fun other => tree.place? other.1 = some place) = [] :=
    List.filter_eq_nil_iff.2 fun other mem => by simpa using elsewhere other mem
  rw [lastTo, List.filter_append, List.filter_cons_of_pos (by simpa using here), none,
    List.getLast?_concat]

end Libretto.FileTree
