/-
What a build leaves alone.

A build changes no file but those that it writes, whether it succeeds or not.  But nothing keeps it
from writing a file where it has read one: a container goes by the name of its source, and for a
script also by the extension.

* **`SparesAllBut`** — of the files of a tree only those are changed to which certain paths lead;
* **`spares_build`** — a build changes no file but its outputs, and so none of its inputs unless an
  output leads there;
* **`source_overwritten`** — a build that replaces a source by its container.
-/
import Libretto.Proofs.Build.Conduct

namespace Libretto

open CommandLine (BuildOptions)
open Job

variable {tree middle after : FileTree} {options : BuildOptions}

theorem FileTree.read_eq_ok_iff {path : Path} {bytes : Array UInt8} :
    tree.read path = .ok bytes ↔
      ∃ place, tree.find path = .ok place ∧ tree.entry? place = some (.file bytes) := by
  rw [read]
  cases found : tree.find path with
  | error e => simp [bind, Except.bind]
  | ok place =>
    simp only [bind, Except.bind, Except.ok.injEq, exists_eq_left']
    split
    · simp_all [pure, Except.pure]
    · simp_all [throw, throwThe, MonadExceptOf.throw]
    · simp_all [throw, throwThe, MonadExceptOf.throw]

/-- A directory stays one, and a file stays as it is unless one of the paths leads to it. -/
structure FileTree.SparesAllBut (paths : Path → Prop) (tree after : FileTree) : Prop where
  directories : tree.KeepsDirectories after
  files {place : Place} {bytes : Array UInt8} : tree.entry? place = some (.file bytes) →
    after.entry? place = some (.file bytes) ∨ ∃ path, paths path ∧ after.find path = .ok place

namespace FileTree.SparesAllBut

variable {paths : Path → Prop}

theorem refl (paths : Path → Prop) (tree : FileTree) : SparesAllBut paths tree tree :=
  ⟨fun _ there => there, .inl⟩

theorem trans (h : SparesAllBut paths tree middle) (next : SparesAllBut paths middle after) :
    SparesAllBut paths tree after := by
  refine ⟨fun place there => next.directories place (h.directories place there), ?_⟩
  intro place bytes there
  rcases h.files there with kept | ⟨path, mem, found⟩
  · exact next.files kept
  · exact .inr ⟨path, mem, find_of_directories next.directories found⟩

/-- The creation of directories spares all files. -/
theorem of_creates {path : Path} (h : Creates path tree after) : SparesAllBut paths tree after :=
  ⟨h.keepsDirectories, fun there => .inl (h.entry?_file.2 there)⟩

/-- A write spares all files but the one to which its path leads. -/
theorem of_access {path : Path} (mem : paths path) (bytes : Array UInt8) (tree : FileTree) :
    SparesAllBut paths tree (FileTree.access.write path bytes tree).2 := by
  simp only [FileTree.access]
  cases written : tree.write path bytes with
  | error e => exact refl paths tree
  | ok after =>
    obtain ⟨place, found, free, rfl⟩ := write_eq_ok written
    have keeps : tree.KeepsDirectories (tree.put place (.file bytes)) := keepsDirectories_put free
    refine ⟨keeps, ?_⟩
    intro other there kept
    by_cases same : other = place
    · subst same
      exact .inr ⟨path, mem, find_of_directories keeps found⟩
    · exact .inl ((entry?_put_of_ne same).trans kept)

/-- A path reads the same bytes as before, unless one of the paths leads to the same place. -/
theorem read_eq_ok {path : Path} {bytes : Array UInt8} (h : SparesAllBut paths tree after)
    (known : tree.read path = .ok bytes) :
    after.read path = .ok bytes ∨
      ∃ other place, paths other ∧ after.find other = .ok place ∧ after.find path = .ok place := by
  obtain ⟨place, found, there⟩ := read_eq_ok_iff.1 known
  have found := find_of_directories h.directories found
  rcases h.files there with kept | ⟨other, mem, leads⟩
  · exact .inl (read_eq_ok_iff.2 ⟨place, found, kept⟩)
  · exact .inr ⟨other, place, mem, leads, found⟩

end FileTree.SparesAllBut

/-- Nothing but outputs is changed, whatever goes wrong. -/
def sparing (options : BuildOptions) (project : Project) : Rule where
  change := FileTree.SparesAllBut (project.Output options)
  cause _ := True
  refl := .refl _
  trans := .trans

theorem permits_sparing (options : BuildOptions) (project : Project) (artifacts : List Artifact) :
    Permits (sparing options project) options project artifacts where
  creating tree := .of_creates (tree.creates_createDirectories options.output)
  writing mem := .of_access mem
  file _ := trivial
  layingOut _ _ _ _ := trivial
  listing _ _ _ _ _ := ⟨fun _ _ => trivial, fun _ _ _ _ => trivial⟩

/-- Whether a build succeeds or not, every file that could be read before it, and so every source
of the project, the manifest and the definitions, holds what it held, unless the path of an output
leads to the same place. -/
theorem spares_build (tree : FileTree) (options : BuildOptions) {path : Path} {bytes : Array UInt8}
    (known : tree.read path = .ok bytes) :
    let after := ((build FileTree.access options).execute.run tree).2
    after.read path = .ok bytes ∨ ∃ project output place,
      (Project.load FileTree.access.read options.input options.opcodes).Gives tree
        (.ok project) tree ∧
      project.Output options output ∧ after.find output = .ok place ∧
        after.find path = .ok place := by
  intro after
  have load := FileTree.follows_load tree options.input options.opcodes
  -- a build that fails before it writes leaves the tree as it is
  have untouched : ∀ failure, (build FileTree.access options).Gives tree (.error failure) tree →
      after.read path = .ok bytes := by
    intro failure failed
    obtain ⟨log, ran⟩ := failed.execute
    show ((build FileTree.access options).execute.run tree).2.read path = _
    rw [ran]
    exact known
  cases loaded : tree.projectAt options.input options.opcodes with
  | error cause =>
    obtain ⟨activities, failed⟩ := load.fails loaded
    exact .inl (untouched _ failed.stop)
  | ok project =>
    have load := load.gives loaded
    cases compiled : project.compiled with
    | error cause =>
      obtain ⟨activities, failed⟩ := (project.follows_compile tree).fails compiled
      exact .inl (untouched _ (load.bind failed.stop))
    | ok artifacts =>
      have permitted := permits_sparing options project artifacts
      have spared := (permitted.obeys_build loaded compiled []).1
      rcases spared.read_eq_ok known with kept | ⟨output, place, mem, leads, found⟩
      · exact .inl kept
      · exact .inr ⟨project, output, place, load, mem, leads, found⟩

/-- The source of a script and the directory that it is built into. -/
def besideSource : FileTree :=
  ⟨[(["f.plop"], .file "(f 1)\n".toUTF8.data), (["out"], .directory)]⟩

/-- Built into another directory, the source is as it was. -/
theorem spares_build_elsewhere :
    besideSource.read ⟨"f.plop"⟩ = .ok "(f 1)\n".toUTF8.data ∧
      ((build FileTree.access ⟨⟨"f.plop"⟩, ⟨"out"⟩, none, false, false⟩).execute.run
        besideSource).2.read ⟨"f.plop"⟩ = .ok "(f 1)\n".toUTF8.data := by
  let options : BuildOptions := ⟨⟨"f.plop"⟩, ⟨"out"⟩, none, false, false⟩
  have checked : ((besideSource.projectAt options.input none).toOption.any fun project =>
      project.units.all fun source =>
        ((build FileTree.access options).execute.run besideSource).2.place?
            (options.output.join source.plan.output) ≠
          ((build FileTree.access options).execute.run besideSource).2.place? ⟨"f.plop"⟩) =
      true := by decide +kernel
  obtain ⟨project, loaded, apart⟩ := exists_ok_of_any checked
  have held : besideSource.read ⟨"f.plop"⟩ = .ok "(f 1)\n".toUTF8.data := rfl
  refine ⟨held, ?_⟩
  rcases spares_build besideSource options held with
    kept | ⟨project', output, place, load, mem, leads, found⟩
  · exact kept
  · obtain rfl := Except.ok.inj
      (((FileTree.follows_load _ _ _).eq_of_gives load).1.symm.trans loaded)
    cases mem with
    | container unit =>
      have different := of_decide_eq_true (List.all_eq_true.1 apart _ unit)
      rw [FileTree.place?, FileTree.place?, leads, found] at different
      exact absurd rfl different
    | listing asked => cases asked
    | definitions asked => cases asked

/-- Built into its own directory, the source is replaced by its container. -/
theorem source_overwritten :
    ∃ after project source bytes,
      (build FileTree.access ⟨⟨"f.plop"⟩, ⟨"."⟩, none, false, false⟩).Gives besideSource
        (.ok ()) after ∧
      (Project.load FileTree.access.read ⟨"f.plop"⟩ none).Gives besideSource
        (.ok project) besideSource ∧
      source ∈ project.units ∧ besideSource.read source.plan.source = .ok bytes ∧
      after.read source.plan.source ≠ .ok bytes := by
  let options : BuildOptions := ⟨⟨"f.plop"⟩, ⟨"."⟩, none, false, false⟩
  have checked : (((build FileTree.access options).execute.run besideSource).1.1.isOk &&
      (besideSource.projectAt options.input none).toOption.any fun project =>
        project.units.any fun source =>
          (besideSource.read source.plan.source).toOption.any fun bytes =>
            (((build FileTree.access options).execute.run besideSource).2.read
              source.plan.source).toOption ≠ some bytes) = true := by decide +kernel
  obtain ⟨ran, lost⟩ := Bool.and_eq_true_iff.1 checked
  have built := (ends_build _ options).gives_of_isOk ran
  generalize ((build FileTree.access options).execute.run besideSource).2 = after at *
  obtain ⟨project, loaded, lost⟩ := exists_ok_of_any lost
  obtain ⟨source, unit, lost⟩ := List.any_eq_true.1 lost
  obtain ⟨bytes, held, lost⟩ := exists_ok_of_any lost
  have load := (FileTree.follows_load besideSource _ _).gives loaded
  refine ⟨after, project, source, bytes, built, load, unit, held, ?_⟩
  intro same
  rw [same] at lost
  exact of_decide_eq_true lost rfl

end Libretto
