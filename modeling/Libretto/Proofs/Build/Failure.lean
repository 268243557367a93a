/-
Builds that fail before they write.

Everything is read and compiled before the directory for the outputs is created, and every container
is laid out before a file is written.  So a build that fails up to there leaves all files as they
are, wherever among its units the fault is.

* **`FailsCleanly`** — what each stage leaves when it fails;
* **`failsCleanly_build`** — so does every build of every tree;
* **`bytes_calls`** — a script with too many lines, which cannot be laid out.
-/
import Libretto.Proofs.Build.Outputs
import Libretto.Proofs.Container.Capacity

namespace Libretto

open CommandLine (BuildOptions)
open Job Script

variable {tree after : FileTree} {options : BuildOptions} {project : Project}
  {artifacts : List Artifact} {failure : Failure}

/-- The build of a tree that fails while its project is loaded or compiled leaves the tree as it is.
If a container cannot be laid out, the files are as they were, and all that is new is the directory
for the outputs, with those above it that were missing. -/
structure FailsCleanly (tree : FileTree) (options : BuildOptions) : Prop where
  unloadable : tree.Unloadable options.input options.opcodes ↔ ∃ failure,
    (Project.load FileTree.access.read options.input options.opcodes).Gives tree
      (.error failure) tree
  loading : ∀ failure after,
    (Project.load FileTree.access.read options.input options.opcodes).Gives tree
      (.error failure) after →
    (build FileTree.access options).Gives tree (.error failure) tree
  malformed : ∀ project middle,
    (Project.load FileTree.access.read options.input options.opcodes).Gives tree
      (.ok project) middle →
    ((∃ source ∈ project.units, source.Malformed) ↔
      ∃ failure, project.compile.Gives middle (.error failure) middle)
  compiling : ∀ project middle,
    (Project.load FileTree.access.read options.input options.opcodes).Gives tree
      (.ok project) middle →
    ∀ failure after, project.compile.Gives middle (.error failure) after →
      (build FileTree.access options).Gives tree (.error failure) tree
  layingOut : ∀ project middle,
    (Project.load FileTree.access.read options.input options.opcodes).Gives tree
      (.ok project) middle →
    ∀ artifacts final, project.compile.Gives middle (.ok artifacts) final →
      (∃ artifact ∈ artifacts, ∃ e, artifact.unit.bytes = .error e) →
      ∃ failure after, (build FileTree.access options).Gives tree (.error failure) after ∧
        (∀ place bytes, after.entry? place = some (.file bytes) ↔
          tree.entry? place = some (.file bytes)) ∧
        tree.Creates options.output after
  /-- Otherwise a build succeeds, as long as its files are known and can be written. -/
  succeeding : ∀ after, (build FileTree.access options).Gives tree (.ok ()) after ↔
    ∃ project artifacts files middle,
      (Project.load FileTree.access.read options.input options.opcodes).Gives tree
        (.ok project) tree ∧
      project.compile.Gives tree (.ok artifacts) tree ∧
      outputs options project.numbering artifacts = .ok files ∧
      tree.createDirectories options.output = (.ok (), middle) ∧
      middle.writeAll files = .ok after

/-! ### The stages -/

theorem loaded_of_gives {middle : FileTree}
    (loaded : (Project.load FileTree.access.read options.input options.opcodes).Gives tree
      (.ok project) middle) :
    tree.projectAt options.input options.opcodes = .ok project ∧ middle = tree :=
  (FileTree.follows_load tree _ _).eq_of_gives loaded

/-- If a container cannot be laid out, a build fails before it writes a file. -/
theorem gives_build_of_layout
    (loaded : tree.projectAt options.input options.opcodes = .ok project)
    (compiled : project.compiled = .ok artifacts)
    (large : ∃ artifact ∈ artifacts, ∃ e, artifact.unit.bytes = .error e) :
    ∃ failure after, (build FileTree.access options).Gives tree (.error failure) after ∧
      tree.Creates options.output after := by
  have creates := FileTree.creates_createDirectories tree options.output
  have creating := gives_creating tree options.output
  cases created : (tree.createDirectories options.output).1 with
  | error e =>
    rw [created] at creating
    exact ⟨_, _, gives_build_of_compiled loaded compiled creating.stop, creates⟩
  | ok done =>
    rw [created] at creating
    obtain ⟨cause, none⟩ : ∃ cause, containers options.output artifacts = .error cause :=
      containers_fail_iff.2 large
    obtain ⟨failure, failed⟩ :=
      fails_writeOutputs (tree.createDirectories options.output).2 project.numbering none
    exact ⟨_, _, gives_build_of_compiled loaded compiled (creating.bind failed), creates⟩

/-! ### A container that cannot be laid out -/

/-- The lines of a call, again and again. -/
def calls (n : Nat) : String :=
  .ofList (List.replicate n "(f)\n".toList).flatten

theorem lines_calls (n : Nat) :
    Text.lines (calls n).toList = List.replicate n "(f)".toList := by
  rw [calls, String.toList_ofList]
  induction n with
  | zero => rfl
  | succ n ih =>
    rw [List.replicate_succ, List.replicate_succ, List.flatten_cons, ← ih]
    exact Text.lines_append "(f)".toList _

/-- A script with an entry for each of so many blocks that its size does not fit a word. -/
theorem bytes_calls : ∃ e, (CompiledUnit.script (.compile .standard (calls (2 ^ 29)))).bytes =
    .error e := by
  obtain ⟨data, h⟩ := ScriptUnit.exists_holds .standard (calls (2 ^ 29))
  have limited := Binary.limitedBy_of_writesChunks (Binary.writesChunks_ofScript h)
    (Binary.length_image_script h)
  refine limited.bytes_fail.2 ?_
  have call : (Outcome.ofLine .standard "(f)".toList .empty).1.block?.isSome = true := by
    decide +kernel
  have count := ScriptUnit.length_blocks_of_replicate (lines_calls (2 ^ 29)) call
  have size := Binary.le_scriptSize (.compile .standard (calls (2 ^ 29)))
  omega

/-! ### All builds -/

/-- Every build fails cleanly. -/
theorem failsCleanly_build (tree : FileTree) (options : BuildOptions) :
    FailsCleanly tree options where
  unloadable := FileTree.unloadable_iff.trans (FileTree.follows_load tree _ _).gives_error_iff
  loading := by
    intro failure after failed
    obtain ⟨-, rfl⟩ := (FileTree.follows_load tree _ _).eq_of_gives failed
    exact failed.stop
  malformed := by
    intro project middle loaded
    exact Project.malformed_iff.trans (project.follows_compile middle).gives_error_iff
  compiling := by
    intro project middle loaded failure after failed
    obtain ⟨-, rfl⟩ := loaded_of_gives loaded
    obtain ⟨-, rfl⟩ := (project.follows_compile middle).eq_of_gives failed
    exact loaded.bind failed.stop
  layingOut := by
    intro project middle loaded artifacts final compiled large
    obtain ⟨known, rfl⟩ := loaded_of_gives loaded
    obtain ⟨result, -⟩ := (project.follows_compile middle).eq_of_gives compiled
    obtain ⟨failure, after, failed, creates⟩ := gives_build_of_layout known result large
    exact ⟨failure, after, failed, fun _ _ => creates.entry?_file, creates⟩
  succeeding := by
    intro after
    rw [gives_build_iff]
    refine exists_congr fun project => ⟨?_, ?_⟩
    · rintro ⟨artifacts, files, middle, loaded, compiled, rest⟩
      exact ⟨artifacts, files, middle, (FileTree.follows_load tree _ _).gives loaded,
        (project.follows_compile tree).gives compiled, rest⟩
    · rintro ⟨artifacts, files, middle, loaded, compiled, rest⟩
      exact ⟨artifacts, files, middle, (loaded_of_gives loaded).1,
        ((Project.follows_compile tree project).eq_of_gives compiled).1, rest⟩

/-- A script, and behind it a dialogue whose markup is malformed. -/
def malformedSecond : FileTree :=
  ⟨[(["game.json"], .file ("\x7b\"units\": [\x7b\"source\": \"ok.plop\"\x7d, " ++
      "\x7b\"source\": \"bad.drama\"\x7d]\x7d").toUTF8.data),
    (["ok.plop"], .file "(f 1)\n".toUTF8.data),
    (["bad.drama"], .file ";$<node id=\"a\"><say>x</node>\n".toUTF8.data)]⟩

/-- A script whose container would be too large. -/
def tooManyCalls : FileTree :=
  ⟨[(["big.plop"], .file (calls (2 ^ 29)).toUTF8.data)]⟩

/-- A source that is missing, a unit that does not compile, and one that cannot be laid out. -/
theorem failsCleanly_build_stages :
    (∃ failure, (build FileTree.access ⟨⟨"nope.plop"⟩, ⟨"out"⟩, none, true, true⟩).Gives ⟨[]⟩
      (.error failure) ⟨[]⟩) ∧
    (∃ failure, (build FileTree.access ⟨⟨"game.json"⟩, ⟨"out"⟩, none, true, true⟩).Gives
      malformedSecond (.error failure) malformedSecond) ∧
    ∃ failure after, (build FileTree.access ⟨⟨"big.plop"⟩, ⟨"out"⟩, none, true, true⟩).Gives
      tooManyCalls (.error failure) after ∧ tooManyCalls.Creates ⟨"out"⟩ after := by
  refine ⟨?_, ?_, ?_⟩
  · have cleanly := failsCleanly_build ⟨[]⟩ ⟨⟨"nope.plop"⟩, ⟨"out"⟩, none, true, true⟩
    have known : FileTree.manifestAt ⟨[]⟩ ⟨"nope.plop"⟩ = .ok (⟨""⟩, .ofSource ⟨"nope.plop"⟩) :=
      if_neg (by decide +kernel)
    have unread : FileTree.textAt ⟨[]⟩ ⟨"nope.plop"⟩ = .error (.file .notFound) := rfl
    have missing : FileTree.Unloadable ⟨[]⟩ ⟨"nope.plop"⟩ none :=
      .source known List.mem_cons_self unread
    obtain ⟨failure, failed⟩ := cleanly.unloadable.1 missing
    exact ⟨failure, cleanly.loading failure _ failed⟩
  · have cleanly := failsCleanly_build malformedSecond
      ⟨⟨"game.json"⟩, ⟨"out"⟩, none, true, true⟩
    obtain ⟨project, known, faulty⟩ : ∃ project,
        malformedSecond.projectAt ⟨"game.json"⟩ none = .ok project ∧
          project.units.any (fun source => source.plan.kind = .drama &&
            (Drama.Reading.ofSource source.text).error.isSome) = true :=
      exists_ok_of_any (by decide +kernel)
    have load := (FileTree.follows_load malformedSecond _ _).gives known
    obtain ⟨source, mem, fault⟩ := List.any_eq_true.1 faulty
    simp only [Bool.and_eq_true, decide_eq_true_eq] at fault
    obtain ⟨failure, failed⟩ := (cleanly.malformed project _ load).1
      ⟨source, mem, fault.1, Option.isSome_iff_exists.1 fault.2⟩
    exact ⟨failure, cleanly.compiling project _ load failure _ failed⟩
  · have cleanly := failsCleanly_build tooManyCalls ⟨⟨"big.plop"⟩, ⟨"out"⟩, none, true, true⟩
    have plan : (ManifestUnit.mk ⟨"big.plop"⟩ none none).resolve ⟨""⟩ =
        ⟨.script, ⟨"big.plop"⟩, ⟨"big.plop"⟩⟩ := by decide +kernel
    have known : tooManyCalls.projectAt ⟨"big.plop"⟩ none =
        .ok ⟨.standard, [⟨⟨.script, ⟨"big.plop"⟩, ⟨"big.plop"⟩⟩, calls (2 ^ 29)⟩]⟩ := by
      rw [FileTree.projectAt_of_source (by decide +kernel) (FileTree.textAt_of_read rfl), plan]
    have load := (FileTree.follows_load tooManyCalls _ _).gives known
    have compile := Project.follows_compile tooManyCalls
      ⟨.standard, [⟨⟨.script, ⟨"big.plop"⟩, ⟨"big.plop"⟩⟩, calls (2 ^ 29)⟩]⟩
    obtain ⟨failure, after, failed, -, creates⟩ :=
      cleanly.layingOut _ _ load _ _ compile ⟨_, List.mem_cons_self, bytes_calls⟩
    exact ⟨failure, after, failed, creates⟩

end Libretto
