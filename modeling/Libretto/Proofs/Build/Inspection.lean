/-
Inspections of what was built.

A listing is made while a build runs, from the container in memory and with the numbering of the
project; an inspection makes one later, from the file of the container and with the definitions that
the build wrote.  Both are the same text.

* **`exists_listing_of_compiled`** — the container of every compiled unit has a listing;
* **`exists_outputs`** — hence all files of a build are known once its containers are laid out;
* **`follows_inspect`** — an inspection only reads;
* **`inspects_build`** — a build fails for its files only, and what it wrote is inspected as it was
  listed.
-/
import Libretto.Proofs.Build.Conduct
import Libretto.Proofs.Build.Overwriting
import Libretto.Proofs.Container.Listing
import Libretto.Proofs.Opcode.Definitions

namespace Libretto

open CommandLine (BuildOptions Invocation)
open FileTree (Output)
open Job

variable {tree after : FileTree} {options : BuildOptions} {project : Project}
  {artifacts : List Artifact} {files : List Output}

/-! ### Listings -/

/-- The container of a compiled unit is read back and listed. -/
theorem exists_listing_of_compiled {numbering : Numbering} {source : SourceUnit}
    {artifact : Artifact} {bytes : Array UInt8}
    (compiled : source.compiled numbering = .ok artifact)
    (laidOut : artifact.unit.bytes = .ok bytes) :
    ∃ view text, Binary.View.ofBytes bytes = .ok view ∧ view.listing numbering = .ok text := by
  obtain ⟨unit, made, same⟩ := exists_of_bind_eq_ok compiled
  obtain rfl := Except.ok.inj same
  rw [SourceUnit.compiledText] at made
  cases kind : source.plan.kind with
  | script =>
    rw [kind] at made
    obtain rfl := Except.ok.inj made
    exact Binary.exists_listing_script laidOut
  | drama =>
    rw [kind] at made
    obtain ⟨document, read, same⟩ := exists_of_bind_eq_ok made
    obtain rfl := Except.ok.inj same
    exact Binary.exists_listing_document (ok_of_mapError_eq_ok read) laidOut

/-- What a listing is made from. -/
theorem Artifact.listingText_eq_ok_iff {numbering : Numbering} {artifact : Artifact}
    {bytes : Array UInt8} (laidOut : artifact.unit.bytes = .ok bytes) {text : String} :
    artifact.listingText numbering = .ok text ↔
      ∃ view, Binary.View.ofBytes bytes = .ok view ∧ view.listing numbering = .ok text := by
  rw [listingText, laidOut]
  show ((Binary.View.ofBytes bytes).mapError Cause.view >>= fun view =>
    (view.listing numbering).mapError Cause.decode) = .ok text ↔ _
  constructor
  · intro listed
    obtain ⟨view, read, listed⟩ := exists_of_bind_eq_ok listed
    exact ⟨view, ok_of_mapError_eq_ok read, ok_of_mapError_eq_ok listed⟩
  · rintro ⟨view, read, listed⟩
    rw [read]
    show (view.listing numbering).mapError _ = _
    rw [listed]
    rfl

/-- Once its containers are laid out, all files of a build are known. -/
theorem exists_outputs (compiled : project.compiled = .ok artifacts)
    (laidOut : ∀ artifact ∈ artifacts, ∃ bytes, artifact.unit.bytes = .ok bytes) :
    ∃ files, outputs options project.numbering artifacts = .ok files := by
  have containers : ∃ files, containers options.output artifacts = .ok files := by
    refine exists_mapM_eq_ok fun artifact mem => ?_
    obtain ⟨bytes, laidOut⟩ := laidOut artifact mem
    rw [Artifact.container, laidOut]
    exact ⟨_, rfl⟩
  have listings : ∃ files,
      artifacts.mapM (Artifact.listed options.output project.numbering) = .ok files := by
    refine exists_mapM_eq_ok fun artifact mem => ?_
    obtain ⟨bytes, laidOut⟩ := laidOut artifact mem
    obtain ⟨source, -, made⟩ := exists_origin_of_mem compiled mem
    obtain ⟨view, text, read, listed⟩ := exists_listing_of_compiled made laidOut
    rw [Artifact.listed, (Artifact.listingText_eq_ok_iff laidOut).2 ⟨view, read, listed⟩]
    exact ⟨_, rfl⟩
  obtain ⟨binaries, written⟩ := containers
  obtain ⟨listings, listed⟩ := listings
  rw [outputs, extras, written, listed]
  split
  · exact ⟨_, rfl⟩
  · exact ⟨_, rfl⟩

/-! ### Inspections -/

/-- The listing of the container in a file, under the numbering of definitions. -/
def FileTree.listingAt (tree : FileTree) (file : Path) (opcodes : Option Path) :
    Except Cause String := do
  let numbering ← tree.numberingAt opcodes
  let bytes ← (tree.read file).mapError Cause.file
  let view ← (Binary.View.ofBytes bytes).mapError Cause.view
  (view.listing numbering).mapError Cause.decode

theorem follows_inspect (tree : FileTree) (file : Path) (opcodes : Option Path) :
    (inspect FileTree.access.read file opcodes).Follows tree (tree.listingAt file opcodes) := by
  refine (FileTree.follows_loadNumbering tree opcodes).bind fun numbering => ?_
  refine (follows_access tree file).during.bind fun bytes => ?_
  refine (follows_ofExcept _ _ tree).during.bind fun view => ?_
  exact (follows_ofExcept _ _ tree).during

theorem follows_info (tree : FileTree) (file : Path) (opcodes : Option Path) (verbose : Nat) :
    (Invocation.run FileTree.access ⟨.info file opcodes, verbose⟩).Follows tree
      (tree.listingAt file opcodes) := by
  rw [Invocation.run]
  exact follows_inspect tree file opcodes

namespace FileTree

theorem numberingAt_of_read {path : Path} {text : String} {numbering : Numbering}
    (held : tree.read path = .ok text.toUTF8.data)
    (accepted : Numbering.ofText text = .ok numbering) :
    tree.numberingAt (some path) = .ok numbering := by
  rw [numberingAt, textAt_of_read held]
  show (Numbering.ofText text).mapError _ = _
  rw [accepted]
  rfl

/-- The listing of a container that is there, under a numbering whose definitions are there. -/
theorem listingAt_of_read {file opcodes : Path} {numbering : Numbering} {bytes : Array UInt8}
    {view : Binary.View} {text : String}
    (defined : tree.read opcodes = .ok numbering.text.toUTF8.data)
    (held : tree.read file = .ok bytes) (viewed : Binary.View.ofBytes bytes = .ok view)
    (listed : view.listing numbering = .ok text) :
    tree.listingAt file (some opcodes) = .ok text := by
  rw [listingAt, numberingAt_of_read defined numbering.ofText_text, held]
  show ((Binary.View.ofBytes bytes).mapError Cause.view >>= fun view =>
    (view.listing numbering).mapError Cause.decode) = _
  rw [viewed]
  show (view.listing numbering).mapError _ = _
  rw [listed]
  rfl

end FileTree

/-! ### Builds with listings and definitions -/

/-- Files at different places hold what was written to them. -/
theorem FileTree.read_of_different {middle : FileTree} (written : middle.writeAll files = .ok after)
    (different : (files.map fun output => after.place? output.1).Nodup) {path : Path}
    {bytes : Array UInt8} (mem : (path, bytes) ∈ files) : after.read path = .ok bytes := by
  obtain ⟨place, last, found, final, holds⟩ := FileTree.read_of_writeAll written mem
  obtain ⟨i, here⟩ := List.mem_iff_getElem?.1 mem
  have own := lastTo_of_not_replaced here (by rw [FileTree.place?, found]; rfl)
    (not_replaced_of_nodup different i)
  obtain rfl := Option.some.inj (final.symm.trans own)
  exact holds

/-- Among the files of a build with listings and definitions there are the container of each unit,
its listing, and the definitions. -/
theorem mem_outputs (listings : options.listings = true) (asked : options.definitions = true)
    (known : outputs options project.numbering artifacts = .ok files)
    {artifact : Artifact} (mem : artifact ∈ artifacts) :
    ∃ bytes text, artifact.unit.bytes = .ok bytes ∧
      artifact.listingText project.numbering = .ok text ∧
      (artifact.path options.output, bytes) ∈ files ∧
      (artifact.listingPath options.output, text.toUTF8.data) ∈ files ∧
      (options.output.join ⟨Numbering.fileName⟩, project.numbering.text.toUTF8.data) ∈ files := by
  rw [outputs, extras, if_pos listings, definitions, if_pos asked] at known
  obtain ⟨binaries, written, known⟩ := exists_of_bind_eq_ok known
  obtain ⟨more, listed, known⟩ := exists_of_bind_eq_ok known
  obtain ⟨texts, each, same⟩ := exists_of_bind_eq_ok listed
  obtain rfl := Except.ok.inj same
  obtain rfl := Except.ok.inj known
  obtain ⟨container, first, laidOut⟩ := exists_result_of_mem written mem
  obtain ⟨bytes, ok, same⟩ := exists_of_bind_eq_ok laidOut
  obtain rfl := Except.ok.inj same
  obtain ⟨listing, second, listed⟩ := exists_result_of_mem each mem
  obtain ⟨text, made, same⟩ := exists_of_bind_eq_ok listed
  obtain rfl := Except.ok.inj same
  refine ⟨bytes, text, ok_of_mapError_eq_ok ok, made, ?_, ?_, ?_⟩
  · exact List.mem_append_left _ first
  · exact List.mem_append_right _ (List.mem_append_left _ second)
  · exact List.mem_append_right _ (List.mem_append_right _ List.mem_cons_self)

/-- A job may change any file, but it fails for a file only. -/
def filesOnly : Rule where
  change _ _ := True
  cause cause := ∃ e, cause = .file e
  refl _ := trivial
  trans _ _ := trivial

/-- With containers that are laid out, nothing else is left to fail. -/
theorem permits_filesOnly (compiled : project.compiled = .ok artifacts)
    (laidOut : ∀ artifact ∈ artifacts, ∃ bytes, artifact.unit.bytes = .ok bytes) :
    Permits filesOnly options project artifacts where
  creating _ := trivial
  writing _ _ _ := trivial
  file e := ⟨e, rfl⟩
  layingOut artifact mem e failed := by
    obtain ⟨bytes, ok⟩ := laidOut artifact mem
    cases failed.symm.trans ok
  listing _ artifact mem bytes ok := by
    obtain ⟨source, -, made⟩ := exists_origin_of_mem compiled mem
    obtain ⟨view, text, read, listed⟩ := exists_listing_of_compiled made ok
    constructor
    · intro e failed
      cases failed.symm.trans read
    · intro other viewed e failed
      obtain rfl := Except.ok.inj (viewed.symm.trans read)
      cases failed.symm.trans listed

/-- How a build of a project with listings and definitions comes out. -/
structure Inspects (tree : FileTree) (options : BuildOptions) (project : Project)
    (artifacts : List Artifact) : Prop where
  failing : ∀ failure after, (build FileTree.access options).Gives tree (.error failure) after →
    ∃ e, failure.cause = .file e
  succeeding : ∃ files, outputs options project.numbering artifacts = .ok files ∧
    ∀ after, (build FileTree.access options).Gives tree (.ok ()) after ↔
      ∃ middle, tree.createDirectories options.output = (.ok (), middle) ∧
        middle.writeAll files = .ok after
  /-- If no file replaces another one, an inspection prints what the listing of the unit holds. -/
  agreeing : ∀ files after, outputs options project.numbering artifacts = .ok files →
    (build FileTree.access options).Gives tree (.ok ()) after →
    (files.map fun output => after.place? output.1).Nodup →
    ∀ source ∈ project.units, ∃ text,
      after.read (listingPath options.output source.plan.output) = .ok text.toUTF8.data ∧
      ∀ verbose, (Invocation.run FileTree.access
        ⟨.info (options.output.join source.plan.output)
          (some (options.output.join ⟨Numbering.fileName⟩)), verbose⟩).Gives after (.ok text) after

/-- When a project was loaded and compiled and its containers can be laid out, a build with listings
and definitions fails only if the directory or a file cannot be written; and an inspection of what
it wrote, with the definitions that it wrote, agrees with the listings. -/
theorem inspects_build
    (loaded : (Project.load FileTree.access.read options.input options.opcodes).Gives tree
      (.ok project) tree)
    (compiled : project.compile.Gives tree (.ok artifacts) tree)
    (laidOut : ∀ artifact ∈ artifacts, ∃ bytes, artifact.unit.bytes = .ok bytes)
    (listings : options.listings = true) (definitions : options.definitions = true) :
    Inspects tree options project artifacts := by
  have loaded := ((FileTree.follows_load tree _ _).eq_of_gives loaded).1
  have compiled := ((project.follows_compile tree).eq_of_gives compiled).1
  obtain ⟨files, known⟩ : ∃ files, outputs options project.numbering artifacts = .ok files :=
    exists_outputs compiled laidOut
  have succeeding (after : FileTree) : (build FileTree.access options).Gives tree (.ok ()) after ↔
      ∃ middle, tree.createDirectories options.output = (.ok (), middle) ∧
        middle.writeAll files = .ok after := by
    rw [gives_build_iff]
    constructor
    · rintro ⟨project', artifacts', files', middle, loaded', compiled', known', rest⟩
      obtain rfl := Except.ok.inj (loaded.symm.trans loaded')
      obtain rfl := Except.ok.inj (compiled.symm.trans compiled')
      obtain rfl := Except.ok.inj (known.symm.trans known')
      exact ⟨middle, rest⟩
    · rintro ⟨middle, rest⟩
      exact ⟨project, artifacts, files, middle, loaded, compiled, known, rest⟩
  refine ⟨?_, ⟨files, known, succeeding⟩, ?_⟩
  · intro failure after failed
    obtain ⟨log, ran⟩ := failed []
    have obeys := ((permits_filesOnly compiled laidOut).obeys_build loaded compiled []).2
    rw [ran] at obeys
    exact obeys failure rfl
  · intro files' after known' built different source unit
    obtain rfl := Except.ok.inj (known.symm.trans known')
    obtain ⟨middle, -, written⟩ := (succeeding after).1 built
    obtain ⟨artifact, mem, made⟩ := exists_result_of_mem compiled unit
    obtain ⟨bytes, text, exported, listed, container, listing, defined⟩ :=
      mem_outputs listings definitions known mem
    rw [Artifact.path, SourceUnit.plan_eq_of_compiled made] at container
    rw [Artifact.listingPath, SourceUnit.plan_eq_of_compiled made] at listing
    obtain ⟨view, viewed, shown⟩ := (Artifact.listingText_eq_ok_iff exported).1 listed
    have inspected := FileTree.listingAt_of_read
      (FileTree.read_of_different written different defined)
      (FileTree.read_of_different written different container) viewed shown
    refine ⟨text, FileTree.read_of_different written different listing, fun verbose => ?_⟩
    exact (follows_info after _ _ verbose).gives inspected

/-- A script of one call. -/
def oneCall : FileTree :=
  ⟨[(["f.plop"], .file "(f)".toUTF8.data)]⟩

/-- Its container, the listing and the definitions, at three places. -/
theorem inspects_build_apart :
    ∃ project artifacts,
      (Project.load FileTree.access.read ⟨"f.plop"⟩ none).Gives oneCall (.ok project) oneCall ∧
      project.compile.Gives oneCall (.ok artifacts) oneCall ∧
      (∀ artifact ∈ artifacts, ∃ bytes, artifact.unit.bytes = .ok bytes) ∧
      Inspects oneCall ⟨⟨"f.plop"⟩, ⟨"out"⟩, none, true, true⟩ project artifacts ∧
      ∃ files after,
        outputs ⟨⟨"f.plop"⟩, ⟨"out"⟩, none, true, true⟩ project.numbering artifacts = .ok files ∧
        (build FileTree.access ⟨⟨"f.plop"⟩, ⟨"out"⟩, none, true, true⟩).Gives oneCall (.ok ())
          after ∧
        (files.map fun output => after.place? output.1).Nodup ∧ files.length = 3 := by
  let options : BuildOptions := ⟨⟨"f.plop"⟩, ⟨"out"⟩, none, true, true⟩
  let created := oneCall.createDirectories options.output
  have checked : ((oneCall.projectAt options.input none).toOption.any fun project =>
      project.compiled.toOption.any fun artifacts =>
        artifacts.all (fun artifact => artifact.unit.bytes.isOk) &&
        (outputs options project.numbering artifacts).toOption.any fun files =>
          created.1.isOk && (created.2.writeAll files).toOption.any fun after =>
            (files.map fun output => after.place? output.1).Nodup && files.length = 3) = true := by
    decide +kernel
  obtain ⟨project, loaded, checked⟩ := exists_ok_of_any checked
  obtain ⟨artifacts, compiled, checked⟩ := exists_ok_of_any checked
  obtain ⟨laidOut, checked⟩ := Bool.and_eq_true_iff.1 checked
  obtain ⟨files, known, checked⟩ := exists_ok_of_any checked
  obtain ⟨made, checked⟩ := Bool.and_eq_true_iff.1 checked
  obtain ⟨after, written, places⟩ := exists_ok_of_any checked
  rw [Bool.and_eq_true, decide_eq_true_eq, decide_eq_true_eq] at places
  have load := (FileTree.follows_load oneCall _ _).gives loaded
  have compile := (project.follows_compile oneCall).gives compiled
  have laidOut : ∀ artifact ∈ artifacts, ∃ bytes, artifact.unit.bytes = .ok bytes :=
    fun artifact mem => exists_ok_of_isOk (List.all_eq_true.1 laidOut artifact mem)
  have inspects : Inspects oneCall options project artifacts :=
    inspects_build load compile laidOut rfl rfl
  obtain ⟨⟨⟩, made⟩ := exists_ok_of_isOk made
  have built : (build FileTree.access options).Gives oneCall (.ok ()) after :=
    gives_build_iff.2 ⟨project, artifacts, files, created.2, loaded, compiled, known,
      Prod.ext made rfl, written⟩
  exact ⟨project, artifacts, load, compile, laidOut, inspects, files, after, known, built, places⟩

end Libretto
