/-
What a build writes.

The files of a build are known before the first of them is written: the container of each unit, and
on demand a listing of each and the definitions.  A build that succeeds has written them one behind
the other, once the directory for them was there.

* **`outputs`** — the files of a build, in the order in which they are written;
* **`follows_containers`** — every container is laid out before a file is written;
* **`puts_writeOutputs`** — the files are what is written;
* **`gives_build_iff`** — when a build succeeds, and what it leaves.
-/
import Libretto.Proofs.Build.Loading
import Libretto.Proofs.Files.Creation

namespace Libretto

open CommandLine (BuildOptions)
open FileTree (Output)
open Job

/-! ### The files of a build -/

namespace Artifact

/-- The file with the container. -/
def container (directory : Path) (artifact : Artifact) : Except Cause Output := do
  let bytes ← artifact.unit.bytes.mapError Cause.layout
  return (artifact.path directory, bytes)

/-- The listing of the container. -/
def listingText (numbering : Numbering) (artifact : Artifact) : Except Cause String := do
  let bytes ← artifact.unit.bytes.mapError Cause.layout
  let view ← (Binary.View.ofBytes bytes).mapError Cause.view
  (view.listing numbering).mapError Cause.decode

/-- The file with the listing. -/
def listed (directory : Path) (numbering : Numbering) (artifact : Artifact) :
    Except Cause Output := do
  let text ← artifact.listingText numbering
  return (artifact.listingPath directory, text.toUTF8.data)

end Artifact

/-- The files with the containers. -/
def containers (directory : Path) (artifacts : List Artifact) : Except Cause (List Output) :=
  artifacts.mapM (Artifact.container directory)

/-- The file with the definitions, if there should be one. -/
def definitions (options : BuildOptions) (numbering : Numbering) : List Output :=
  if options.definitions then
    [(options.output.join ⟨Numbering.fileName⟩, numbering.text.toUTF8.data)]
  else []

/-- The files beside the containers: the listings, if there should be any, and the definitions. -/
def extras (options : BuildOptions) (numbering : Numbering) (artifacts : List Artifact) :
    Except Cause (List Output) :=
  if options.listings then do
    let listings ← artifacts.mapM (Artifact.listed options.output numbering)
    return listings ++ definitions options numbering
  else return definitions options numbering

/-- The files of a build, in the order in which they are written. -/
def outputs (options : BuildOptions) (numbering : Numbering) (artifacts : List Artifact) :
    Except Cause (List Output) := do
  let containers ← containers options.output artifacts
  let extras ← extras options numbering artifacts
  return containers ++ extras

/-! ### Laying out -/

theorem follows_layOut (tree : FileTree) (artifact : Artifact) :
    (artifact.layOut : Job (StateM FileTree) (Array UInt8)).Follows tree
      (artifact.unit.bytes.mapError .layout) :=
  (follows_ofExcept _ _ tree).during

/-- The containers are laid out, and the tree is left as it is. -/
theorem follows_containers (tree : FileTree) (directory : Path) (artifacts : List Artifact) :
    (artifacts.mapM fun artifact => do
      return (artifact.path directory, ← artifact.layOut) :
        Job (StateM FileTree) (List Output)).Follows tree (containers directory artifacts) :=
  follows_mapM artifacts fun artifact =>
    (follows_layOut tree artifact).bind fun _ => follows_pure _ tree

/-- There are no containers if and only if one of them cannot be laid out. -/
theorem containers_fail_iff {directory : Path} {artifacts : List Artifact} :
    (∃ cause, containers directory artifacts = .error cause) ↔
      ∃ artifact ∈ artifacts, ∃ e, artifact.unit.bytes = .error e := by
  rw [containers, mapM_fails_iff]
  refine exists_congr fun artifact => and_congr_right fun _ => ?_
  rw [Artifact.container, bind_fails_iff, mapError_fails_iff]
  simp [pure, Except.pure]

theorem follows_listing (tree : FileTree) (numbering : Numbering) (artifact : Artifact) :
    (artifact.listing numbering : Job (StateM FileTree) String).Follows tree
      (artifact.listingText numbering) := by
  refine (follows_ofExcept _ _ tree).bind fun bytes => ?_
  refine (follows_ofExcept _ _ tree).during.bind fun view => ?_
  exact follows_ofExcept _ _ tree

/-! ### Writing -/

theorem puts_writeBytes (tree : FileTree) (path : Path) (bytes : Array UInt8) (message : String) :
    (writeBytes FileTree.access path bytes >>= fun _ => inform message).Puts tree
      (.ok [(path, bytes)]) :=
  (puts_access tree path bytes).during.append fun tree => puts_inform message tree

theorem puts_writeBinaries (tree : FileTree) (directory : Path) (artifacts : List Artifact) :
    (writeBinaries FileTree.access directory artifacts).Puts tree
      (containers directory artifacts) := by
  have written (files : List Output) : (files.forM fun file => do
      writeBytes FileTree.access file.1 file.2
      inform ("wrote " ++ file.1.text ++ s!" ({file.2.size} bytes)")).Puts tree (.ok files) := by
    have all := puts_forM (g := Except.ok) (fun file tree => puts_writeBytes tree file.1 file.2
      ("wrote " ++ file.1.text ++ s!" ({file.2.size} bytes)")) files tree
    rwa [show files.mapM (Except.ok : Output → Except Cause Output) = .ok (files.map id) from
      List.mapM_pure, List.map_id] at all
  have laidOut := (follows_containers tree directory artifacts).puts written
  rw [show (Except.ok : List Output → Except Cause (List Output)) = pure from rfl,
    bind_pure] at laidOut
  exact laidOut.during

theorem puts_writeListings (tree : FileTree) (directory : Path) (numbering : Numbering)
    (artifacts : List Artifact) :
    (writeListings FileTree.access directory numbering artifacts).Puts tree
      (artifacts.mapM (Artifact.listed directory numbering)) := by
  refine Puts.during (puts_forM (fun artifact tree => ?_) artifacts tree)
  have put := (follows_listing tree numbering artifact).puts fun text =>
    puts_writeBytes tree (artifact.listingPath directory) text.toUTF8.data
      ("wrote " ++ (artifact.listingPath directory).text)
  have same : (do
      let text ← artifact.listingText numbering
      .ok [(artifact.listingPath directory, text.toUTF8.data)] : Except Cause (List Output)) =
        (do return [← artifact.listed directory numbering]) := by
    rw [Artifact.listed]
    cases artifact.listingText numbering <;> rfl
  rwa [same] at put

theorem puts_writeDefinitions (tree : FileTree) (directory : Path) (numbering : Numbering) :
    (writeDefinitions FileTree.access directory numbering).Puts tree
      (.ok [(directory.join ⟨Numbering.fileName⟩, numbering.text.toUTF8.data)]) :=
  (puts_access tree _ _).during

/-- What a build does once the directory of its files is there. -/
def writeOutputs {m : Type → Type} [Monad m] (files : FileSystem m) (options : BuildOptions)
    (numbering : Numbering) (artifacts : List Artifact) : Job m Unit := do
  writeBinaries files options.output artifacts
  if options.listings then writeListings files options.output numbering artifacts
  if options.definitions then writeDefinitions files options.output numbering

/-- The files of a build are what it writes. -/
theorem puts_writeOutputs (tree : FileTree) (options : BuildOptions) (numbering : Numbering)
    (artifacts : List Artifact) :
    (writeOutputs FileTree.access options numbering artifacts).Puts tree
      (outputs options numbering artifacts) := by
  have final (tree : FileTree) : (if options.definitions then
      writeDefinitions FileTree.access options.output numbering else pure ()).Puts tree
        (.ok (definitions options numbering)) := by
    rw [definitions]
    split
    · exact puts_writeDefinitions tree options.output numbering
    · exact puts_pure tree
  refine (puts_writeBinaries tree options.output artifacts).append fun tree => ?_
  rw [extras]
  by_cases listings : options.listings = true
  · rw [if_pos listings, if_pos listings]
    exact (puts_writeListings tree options.output numbering artifacts).append final
  · rw [if_neg listings, if_neg listings]
    exact final tree

/-- No container is written if one of them cannot be laid out. -/
theorem fails_writeOutputs {options : BuildOptions} {artifacts : List Artifact} {cause : Cause}
    (tree : FileTree) (numbering : Numbering)
    (none : containers options.output artifacts = .error cause) :
    ∃ failure, (writeOutputs FileTree.access options numbering artifacts).Gives tree
      (.error failure) tree := by
  obtain ⟨activities, failed⟩ := (follows_containers tree options.output artifacts).fails none
  have stopped : (writeBinaries FileTree.access options.output artifacts).Gives tree
      (.error ⟨.writingBinaries :: activities, cause⟩) tree := Gives.during _ failed.stop
  exact ⟨_, stopped.stop⟩

/-! ### Builds -/

variable {tree after : FileTree} {options : BuildOptions} {project : Project}
  {artifacts : List Artifact} {result : Except Failure Unit}

theorem gives_creating (tree : FileTree) (directory : Path) :
    (Job.during (.creating directory)
      (Job.access (FileTree.access.createDirectories directory))).Gives tree
        ((tree.createDirectories directory).1.mapError fun e => ⟨[.creating directory], .file e⟩)
        (tree.createDirectories directory).2 := by
  have ran : FileTree.access.createDirectories directory tree =
      ((tree.createDirectories directory).1, (tree.createDirectories directory).2) := rfl
  have given := (gives_access ran).during (.creating directory)
  cases created : (tree.createDirectories directory).1 with
  | error e =>
    rw [created] at given
    exact given
  | ok done =>
    rw [created] at given
    exact given

theorem gives_build_of_compiled
    (loaded : tree.projectAt options.input options.opcodes = .ok project)
    (compiled : project.compiled = .ok artifacts)
    (rest : (Job.during (.creating options.output)
        (Job.access (FileTree.access.createDirectories options.output)) >>= fun _ =>
          writeOutputs FileTree.access options project.numbering artifacts).Gives tree
        result after) : (build FileTree.access options).Gives tree result after :=
  ((FileTree.follows_load tree _ _).gives loaded).bind
    (((project.follows_compile tree).gives compiled).bind rest)

/-- What a tree becomes by a build, if the build succeeds. -/
def FileTree.built (tree : FileTree) (options : BuildOptions) : Option FileTree := do
  let project ← (tree.projectAt options.input options.opcodes).toOption
  let artifacts ← project.compiled.toOption
  let _ ← (tree.createDirectories options.output).1.toOption
  written (tree.createDirectories options.output).2
    (outputs options project.numbering artifacts)

/-- A build has no other outcome. -/
theorem ends_build (tree : FileTree) (options : BuildOptions) :
    (build FileTree.access options).Ends tree (tree.built options) := by
  refine (FileTree.follows_load tree _ _).ends fun project => ?_
  refine (project.follows_compile tree).ends fun artifacts => ?_
  have creating := gives_creating tree options.output
  cases created : (tree.createDirectories options.output).1 with
  | error e =>
    rw [created] at creating
    exact ⟨_, _, creating.stop⟩
  | ok done =>
    rw [created] at creating
    exact Gives.ends creating (puts_writeOutputs _ options project.numbering artifacts)

/-- A build succeeds just in case there is a project that compiles, the files of the build are known
and the directory for them can be made; and it writes them all. -/
theorem gives_build_iff :
    (build FileTree.access options).Gives tree (.ok ()) after ↔
      ∃ project artifacts files middle,
        tree.projectAt options.input options.opcodes = .ok project ∧
        project.compiled = .ok artifacts ∧
        outputs options project.numbering artifacts = .ok files ∧
        tree.createDirectories options.output = (.ok (), middle) ∧
        middle.writeAll files = .ok after := by
  rw [(ends_build tree options).gives_iff, FileTree.built]
  simp only [Option.bind_eq_bind, Option.bind_eq_some_iff, toOption_eq_some_iff, written]
  constructor
  · rintro ⟨project, loaded, artifacts, compiled, ⟨⟩, created, files, known, written⟩
    exact ⟨project, artifacts, files, _, loaded, compiled, known, Prod.ext created rfl, written⟩
  · rintro ⟨project, artifacts, files, middle, loaded, compiled, known, created, written⟩
    rw [created]
    exact ⟨project, loaded, artifacts, compiled, (), rfl, files, known, written⟩

end Libretto
