/-
What the files of a build hold in the end.

Each unit of a project has its own file, but nothing keeps the files of two units, or a file and a
listing, from being at the same place.  Then the later one replaces the other, and the build does
not say so.

* **`Replaced`** — a later file is written to the same place;
* **`holds_of_build`** — after a build each unit's file holds what was written last to its place,
  and the unit's container unless it was replaced;
* **`container_lost`** — a build that succeeds and loses a container.
-/
import Libretto.Proofs.Build.Outputs

namespace Libretto

open CommandLine (BuildOptions)
open FileTree (Output)

variable {tree after : FileTree} {options : BuildOptions}

/-- A later one of some files is at the same place as the one with an index. -/
def Replaced (tree : FileTree) (files : List Output) (i : Nat) : Prop :=
  ∃ j own other, i < j ∧ files[i]? = some own ∧ files[j]? = some other ∧
    tree.place? other.1 = tree.place? own.1

/-- What was written last to the place of a file that is not replaced is that file. -/
theorem lastTo_of_not_replaced {files : List Output} {i : Nat} {own : Output} {place : Place}
    (here : files[i]? = some own) (found : tree.place? own.1 = some place)
    (kept : ¬ Replaced tree files i) : tree.lastTo place files = some own := by
  obtain ⟨inside, same⟩ := List.getElem?_eq_some_iff.1 here
  have split : files = files.take i ++ own :: files.drop (i + 1) := by
    rw [← same, ← List.drop_eq_getElem_cons inside, List.take_append_drop]
  rw [split]
  refine FileTree.lastTo_of_later found ?_
  intro other mem same
  obtain ⟨k, there⟩ := List.mem_iff_getElem?.1 mem
  rw [List.getElem?_drop] at there
  exact kept ⟨i + 1 + k, own, other, by omega, here, there, same.trans found.symm⟩

/-- The file of a unit is the container of the unit, and the containers come first. -/
theorem output_of_unit {project : Project} {artifacts : List Artifact} {files : List Output}
    (compiled : project.compiled = .ok artifacts)
    (known : outputs options project.numbering artifacts = .ok files) {i : Nat}
    {source : SourceUnit} (unit : project.units[i]? = some source) :
    ∃ artifact bytes, artifacts[i]? = some artifact ∧
      source.compiled project.numbering = .ok artifact ∧ artifact.unit.bytes = .ok bytes ∧
        files[i]? = some (options.output.join source.plan.output, bytes) := by
  obtain ⟨artifact, there, made⟩ := (mapM_eq_ok compiled).2 i source unit
  obtain ⟨binaries, written, known⟩ := exists_of_bind_eq_ok known
  obtain ⟨more, -, known⟩ := exists_of_bind_eq_ok known
  obtain rfl := Except.ok.inj known
  obtain ⟨output, file, laidOut⟩ := (mapM_eq_ok written).2 i artifact there
  obtain ⟨bytes, ok, laidOut⟩ := exists_of_bind_eq_ok laidOut
  obtain rfl := Except.ok.inj laidOut
  refine ⟨artifact, bytes, there, made, ok_of_mapError_eq_ok ok, ?_⟩
  rw [List.getElem?_append_left (List.getElem?_eq_some_iff.1 file).1, file,
    ← SourceUnit.plan_eq_of_compiled made]
  rfl

/-- Files at different places do not replace each other. -/
theorem not_replaced_of_nodup {files : List Output}
    (different : (files.map fun output => tree.place? output.1).Nodup) (i : Nat) :
    ¬ Replaced tree files i := by
  rintro ⟨j, own, other, behind, here, there, same⟩
  obtain ⟨first, rfl⟩ := List.getElem?_eq_some_iff.1 here
  obtain ⟨second, rfl⟩ := List.getElem?_eq_some_iff.1 there
  have apart := List.pairwise_iff_getElem.1 different i j (by simpa using first)
    (by simpa using second) behind
  rw [List.getElem_map, List.getElem_map] at apart
  exact apart same.symm

/-- The file of each unit of a project holds what was written last to its place, and the container
of the unit unless that was replaced. -/
def HoldsUnits (after : FileTree) (directory : Path) (project : Project)
    (artifacts : List Artifact) (files : List Output) : Prop :=
  ∀ (i : Nat) source, project.units[i]? = some source →
    ∃ artifact bytes place last,
      artifacts[i]? = some artifact ∧ artifact.plan = source.plan ∧
      artifact.unit.bytes = .ok bytes ∧
      files[i]? = some (directory.join source.plan.output, bytes) ∧
      after.find (directory.join source.plan.output) = .ok place ∧
      after.lastTo place files = some last ∧
      after.read (directory.join source.plan.output) = .ok last.2 ∧
      (¬ Replaced after files i → after.read (directory.join source.plan.output) = .ok bytes)

/-- When a build succeeds, the file of each unit holds what was written last to its place: the
container of the unit, unless a later container, a listing or the definitions replaced it. -/
theorem holds_of_build (built : (build FileTree.access options).Gives tree (.ok ()) after) :
    ∃ project artifacts files,
      (Project.load FileTree.access.read options.input options.opcodes).Gives tree
        (.ok project) tree ∧
      project.compile.Gives tree (.ok artifacts) tree ∧
      outputs options project.numbering artifacts = .ok files ∧
      HoldsUnits after options.output project artifacts files := by
  obtain ⟨project, artifacts, files, middle, loaded, compiled, known, -, written⟩ :=
    gives_build_iff.1 built
  have load := (FileTree.follows_load tree _ _).gives loaded
  have compile := (project.follows_compile tree).gives compiled
  refine ⟨project, artifacts, files, load, compile, known, ?_⟩
  intro i source unit
  obtain ⟨artifact, bytes, there, made, exported, file⟩ := output_of_unit compiled known unit
  obtain ⟨place, last, found, final, holds⟩ :=
    FileTree.read_of_writeAll written (List.mem_of_getElem? file)
  refine ⟨artifact, bytes, place, last, there, SourceUnit.plan_eq_of_compiled made, exported,
    file, found, final, holds, ?_⟩
  intro kept
  have own := lastTo_of_not_replaced file (by rw [FileTree.place?, found]; rfl) kept
  obtain rfl := Option.some.inj (final.symm.trans own)
  exact holds

/-- A script and a dialogue. -/
def scriptAndDialogue : FileTree :=
  ⟨[(["game.json"], .file ("\x7b\"units\": [\x7b\"source\": \"a.plop\"\x7d, " ++
      "\x7b\"source\": \"b.drama\"\x7d]\x7d").toUTF8.data),
    (["a.plop"], .file "(f 1)\n".toUTF8.data),
    (["b.drama"], .file ";$<node id=\"a\"><say>Hi</say></node>\n".toUTF8.data)]⟩

/-- Two containers and the definitions, at three places. -/
theorem holds_of_build_apart :
    ∃ after, (build FileTree.access ⟨⟨"game.json"⟩, ⟨"out"⟩, none, false, true⟩).Gives
        scriptAndDialogue (.ok ()) after ∧
      ∃ project artifacts files,
        (Project.load FileTree.access.read ⟨"game.json"⟩ none).Gives scriptAndDialogue
          (.ok project) scriptAndDialogue ∧
        project.compile.Gives scriptAndDialogue (.ok artifacts) scriptAndDialogue ∧
        outputs ⟨⟨"game.json"⟩, ⟨"out"⟩, none, false, true⟩ project.numbering artifacts =
          .ok files ∧
        HoldsUnits after ⟨"out"⟩ project artifacts files ∧
        files.length = 3 ∧ ∀ i, ¬ Replaced after files i := by
  let options : BuildOptions := ⟨⟨"game.json"⟩, ⟨"out"⟩, none, false, true⟩
  have checked : (((build FileTree.access options).execute.run scriptAndDialogue).1.1.isOk &&
      (scriptAndDialogue.projectAt options.input none).toOption.any fun project =>
        project.compiled.toOption.any fun artifacts =>
          (outputs options project.numbering artifacts).toOption.any fun files =>
            files.length = 3 && (files.map fun output =>
              ((build FileTree.access options).execute.run scriptAndDialogue).2.place?
                output.1).Nodup) = true := by decide +kernel
  obtain ⟨ran, places⟩ := Bool.and_eq_true_iff.1 checked
  have built := (ends_build _ options).gives_of_isOk ran
  generalize ((build FileTree.access options).execute.run scriptAndDialogue).2 = after at *
  obtain ⟨project, artifacts, files, load, compile, known, holds⟩ := holds_of_build built
  refine ⟨after, built, project, artifacts, files, load, compile, known, holds, ?_⟩
  obtain ⟨project', loaded, places⟩ := exists_ok_of_any places
  obtain rfl := Except.ok.inj (((FileTree.follows_load _ _ _).eq_of_gives load).1.symm.trans loaded)
  obtain ⟨artifacts', compiled, places⟩ := exists_ok_of_any places
  obtain rfl := Except.ok.inj (((project.follows_compile _).eq_of_gives compile).1.symm.trans
    compiled)
  obtain ⟨files', written, places⟩ := exists_ok_of_any places
  obtain rfl := Except.ok.inj (known.symm.trans written)
  rw [Bool.and_eq_true, decide_eq_true_eq, decide_eq_true_eq] at places
  exact ⟨places.1, not_replaced_of_nodup places.2⟩

/-- Two scripts of one name, in two directories. -/
def sameName : FileTree :=
  ⟨[(["game.json"], .file ("\x7b\"units\": [\x7b\"source\": \"a/f.plop\"\x7d, " ++
      "\x7b\"source\": \"b/f.plop\"\x7d]\x7d").toUTF8.data),
    (["a"], .directory), (["a", "f.plop"], .file "(f 1)\n".toUTF8.data),
    (["b"], .directory), (["b", "f.plop"], .file "(g 2)\n".toUTF8.data)]⟩

/-- The container of the first unit is lost, and the build succeeds. -/
theorem container_lost :
    ∃ after project artifacts artifact bytes,
      (build FileTree.access ⟨⟨"game.json"⟩, ⟨"out"⟩, none, false, false⟩).Gives sameName
        (.ok ()) after ∧
      (Project.load FileTree.access.read ⟨"game.json"⟩ none).Gives sameName
        (.ok project) sameName ∧
      project.compile.Gives sameName (.ok artifacts) sameName ∧
      artifacts[0]? = some artifact ∧ artifact.unit.bytes = .ok bytes ∧
      after.read (artifact.path ⟨"out"⟩) ≠ .ok bytes := by
  let options : BuildOptions := ⟨⟨"game.json"⟩, ⟨"out"⟩, none, false, false⟩
  have checked : (((build FileTree.access options).execute.run sameName).1.1.isOk &&
      (sameName.projectAt options.input none).toOption.any fun project =>
        project.compiled.toOption.any fun artifacts => artifacts[0]?.any fun artifact =>
          artifact.unit.bytes.toOption.any fun bytes =>
            (((build FileTree.access options).execute.run sameName).2.read
              (artifact.path options.output)).toOption ≠ some bytes) = true := by decide +kernel
  obtain ⟨ran, lost⟩ := Bool.and_eq_true_iff.1 checked
  have built := (ends_build _ options).gives_of_isOk ran
  generalize ((build FileTree.access options).execute.run sameName).2 = after at *
  obtain ⟨project, loaded, lost⟩ := exists_ok_of_any lost
  obtain ⟨artifacts, compiled, lost⟩ := exists_ok_of_any lost
  obtain ⟨artifact, first, lost⟩ := (Option.any_eq_true _ _).1 lost
  obtain ⟨bytes, exported, lost⟩ := exists_ok_of_any lost
  have load := (FileTree.follows_load sameName _ _).gives loaded
  have compile := (project.follows_compile sameName).gives compiled
  refine ⟨after, project, artifacts, artifact, bytes, built, load, compile, first, exported, ?_⟩
  intro same
  rw [same] at lost
  exact of_decide_eq_true lost rfl

end Libretto
