/-
What is loaded and compiled from a tree of files.

A project is read from a tree by functions that only look at it, and the jobs of a build do what
these functions say.  So a project that is loaded, and what it compiles to, are values that belong
to the tree.

* **`projectAt`** — the project of an input in a tree;
* **`Unloadable`**, **`unloadable_iff`** — when there is none;
* **`follows_load`** — a load reads this project;
* **`Malformed`**, **`malformed_iff`** — when a source does not compile;
* **`follows_compile`** — a compilation gives what the sources compile to.
-/
import Libretto.Proofs.Build.Run

namespace Libretto

open Job

/-! ### Loading -/

namespace FileTree

variable {tree : FileTree} {input : Path} {opcodes : Option Path}

/-- The text of the file at a path. -/
def textAt (tree : FileTree) (path : Path) : Except Cause String := do
  let bytes ← (tree.read path).mapError Cause.file
  (decodeText bytes).mapError Cause.file

/-- The manifest of an input, and the directory from which its paths are seen. -/
def manifestAt (tree : FileTree) (input : Path) : Except Cause (Path × Manifest) :=
  if isManifest input then do
    let text ← tree.textAt input
    let manifest ← (Manifest.ofText text).mapError Cause.manifest
    return (input.parent?.getD ⟨""⟩, manifest)
  else return (⟨""⟩, .ofSource input)

/-- The numbering of opcode definitions, or else the standard one. -/
def numberingAt (tree : FileTree) : Option Path → Except Cause Numbering
  | none => return .standard
  | some path => do
    let text ← tree.textAt path
    (Numbering.ofText text).mapError Cause.definitions

/-- A unit with the text of its source. -/
def sourceAt (tree : FileTree) (directory : Path) (unit : ManifestUnit) :
    Except Cause SourceUnit := do
  let text ← tree.textAt (unit.resolve directory).source
  return ⟨unit.resolve directory, text⟩

/-- The path of the opcode definitions, seen from the directory of a manifest. -/
def definitionsPath (opcodes : Option Path) (directory : Path) (manifest : Manifest) :
    Option Path :=
  opcodes <|> manifest.opcodes.map directory.join

/-- The project of an input. -/
def projectAt (tree : FileTree) (input : Path) (opcodes : Option Path) : Except Cause Project := do
  let (directory, manifest) ← tree.manifestAt input
  let numbering ← tree.numberingAt (definitionsPath opcodes directory manifest)
  let units ← manifest.units.mapM (tree.sourceAt directory)
  return ⟨numbering, units⟩

theorem follows_readText (tree : FileTree) (path : Path) :
    (readText FileTree.access.read path).Follows tree (tree.textAt path) :=
  ((follows_access tree path).bind fun bytes =>
    follows_ofExcept .file (decodeText bytes) tree).during

theorem follows_loadManifest (tree : FileTree) (input : Path) :
    (loadManifest FileTree.access.read input).Follows tree (tree.manifestAt input) := by
  rw [loadManifest, manifestAt]
  split
  · refine (follows_readText tree input).bind fun text => ?_
    refine (follows_ofExcept _ _ tree).during.bind fun manifest => ?_
    exact follows_pure _ tree
  · exact follows_pure _ tree

theorem follows_loadNumbering (tree : FileTree) (path : Option Path) :
    (loadNumbering FileTree.access.read path).Follows tree (tree.numberingAt path) := by
  cases path with
  | none => exact follows_pure Numbering.standard tree
  | some path =>
    refine (follows_readText tree path).bind fun text => ?_
    rw [← bind_pure ((Numbering.ofText text).mapError Cause.definitions)]
    refine (follows_ofExcept _ _ tree).during.bind fun numbering => ?_
    exact (follows_pure _ tree).inform

theorem follows_loadUnit (tree : FileTree) (directory : Path) (unit : ManifestUnit) :
    (loadUnit FileTree.access.read directory unit).Follows tree (tree.sourceAt directory unit) := by
  refine (follows_readText tree _).bind fun text => ?_
  exact (follows_pure _ tree).record

/-- A load reads the project of its input, and leaves the tree as it is. -/
theorem follows_load (tree : FileTree) (input : Path) (opcodes : Option Path) :
    (Project.load FileTree.access.read input opcodes).Follows tree
      (tree.projectAt input opcodes) := by
  refine Follows.during ?_
  refine (follows_loadManifest tree input).bind fun (directory, manifest) => ?_
  refine (follows_loadNumbering tree _).bind fun numbering => ?_
  refine (follows_mapM _ fun unit => follows_loadUnit tree directory unit).bind fun units => ?_
  exact (follows_pure _ tree).inform

/-- The file of a text is read as that text. -/
theorem textAt_of_read {path : Path} {text : String}
    (read : tree.read path = .ok text.toUTF8.data) : tree.textAt path = .ok text := by
  have decoded : decodeText text.toUTF8.data = .ok text := by
    have bytes : (⟨text.toUTF8.data⟩ : ByteArray) = text.toByteArray := rfl
    rw [decodeText, bytes, String.fromUTF8?, dif_pos text.isValidUTF8]
    rfl
  rw [textAt, read]
  show (decodeText text.toUTF8.data).mapError _ = _
  rw [decoded]
  rfl

/-- A source is a project by itself. -/
theorem projectAt_of_source {text : String} (source : isManifest input = false)
    (read : tree.textAt input = .ok text) :
    tree.projectAt input none =
      .ok ⟨.standard, [⟨(ManifestUnit.mk input none none).resolve ⟨""⟩, text⟩]⟩ := by
  have here : ((ManifestUnit.mk input none none).resolve ⟨""⟩).source = input := by
    simp [ManifestUnit.resolve, Path.join]
  have unit : tree.sourceAt ⟨""⟩ ⟨input, none, none⟩ =
      .ok ⟨(ManifestUnit.mk input none none).resolve ⟨""⟩, text⟩ := by
    rw [sourceAt, here, read]
    rfl
  rw [projectAt, manifestAt, if_neg (by simp [source])]
  show (do
    let units ← [⟨input, none, none⟩].mapM (tree.sourceAt ⟨""⟩)
    return ⟨.standard, units⟩ : Except Cause Project) = _
  rw [List.mapM_cons, unit]
  rfl

/-- Why an input has no project. -/
inductive Unloadable (tree : FileTree) (input : Path) (opcodes : Option Path) : Prop
  /-- The manifest cannot be read. -/
  | manifest {cause : Cause} : isManifest input = true → tree.textAt input = .error cause →
      Unloadable tree input opcodes
  /-- The manifest is rejected. -/
  | manifestRejected {text : String} {e : ManifestError} : isManifest input = true →
      tree.textAt input = .ok text → Manifest.ofText text = .error e →
      Unloadable tree input opcodes
  /-- The opcode definitions cannot be read. -/
  | definitions {directory : Path} {manifest : Manifest} {path : Path} {cause : Cause} :
      tree.manifestAt input = .ok (directory, manifest) →
      definitionsPath opcodes directory manifest = some path →
      tree.textAt path = .error cause → Unloadable tree input opcodes
  /-- The opcode definitions are rejected. -/
  | definitionsRejected {directory : Path} {manifest : Manifest} {path : Path} {text : String}
      {e : DefinitionError} :
      tree.manifestAt input = .ok (directory, manifest) →
      definitionsPath opcodes directory manifest = some path → tree.textAt path = .ok text →
      Numbering.ofText text = .error e → Unloadable tree input opcodes
  /-- The source of a unit cannot be read. -/
  | source {directory : Path} {manifest : Manifest} {unit : ManifestUnit} {cause : Cause} :
      tree.manifestAt input = .ok (directory, manifest) → unit ∈ manifest.units →
      tree.textAt (unit.resolve directory).source = .error cause → Unloadable tree input opcodes

theorem manifestAt_fails_iff :
    (∃ cause, tree.manifestAt input = .error cause) ↔ isManifest input = true ∧
      ((∃ cause, tree.textAt input = .error cause) ∨
        ∃ text, tree.textAt input = .ok text ∧ ∃ e, Manifest.ofText text = .error e) := by
  rw [manifestAt]
  split
  next asks =>
    simp only [bind_fails_iff, mapError_fails_iff, asks, true_and]
    simp [pure, Except.pure]
  next asks =>
    simp [asks, pure, Except.pure]

theorem numberingAt_fails_iff {path : Option Path} :
    (∃ cause, tree.numberingAt path = .error cause) ↔ ∃ path', path = some path' ∧
      ((∃ cause, tree.textAt path' = .error cause) ∨
        ∃ text, tree.textAt path' = .ok text ∧ ∃ e, Numbering.ofText text = .error e) := by
  cases path with
  | none => simp [numberingAt, pure, Except.pure]
  | some path => simp [numberingAt, bind_fails_iff, mapError_fails_iff]

theorem sourceAt_fails_iff {directory : Path} {unit : ManifestUnit} :
    (∃ cause, tree.sourceAt directory unit = .error cause) ↔
      ∃ cause, tree.textAt (unit.resolve directory).source = .error cause := by
  rw [sourceAt, bind_fails_iff]
  simp [pure, Except.pure]

/-- An input has no project for these reasons only. -/
theorem unloadable_iff :
    tree.Unloadable input opcodes ↔ ∃ cause, tree.projectAt input opcodes = .error cause := by
  have steps : (∃ cause, tree.projectAt input opcodes = .error cause) ↔
      (∃ cause, tree.manifestAt input = .error cause) ∨
        ∃ directory manifest, tree.manifestAt input = .ok (directory, manifest) ∧
          ((∃ cause, tree.numberingAt (definitionsPath opcodes directory manifest) =
              .error cause) ∨
            ∃ unit ∈ manifest.units, ∃ cause, tree.sourceAt directory unit = .error cause) := by
    rw [projectAt, bind_fails_iff, Prod.exists]
    refine or_congr_right (exists_congr fun directory => exists_congr fun manifest =>
      and_congr_right fun _ => ?_)
    rw [← mapM_fails_iff, bind_fails_iff]
    cases tree.numberingAt (definitionsPath opcodes directory manifest) with
    | error cause => simp
    | ok numbering => simp [bind_fails_iff, pure, Except.pure]
  rw [steps]
  simp only [manifestAt_fails_iff, numberingAt_fails_iff, sourceAt_fails_iff]
  constructor
  · intro h
    cases h with
    | manifest asks unread => exact .inl ⟨asks, .inl ⟨_, unread⟩⟩
    | manifestRejected asks text rejected => exact .inl ⟨asks, .inr ⟨_, text, _, rejected⟩⟩
    | definitions known path unread =>
      exact .inr ⟨_, _, known, .inl ⟨_, path, .inl ⟨_, unread⟩⟩⟩
    | definitionsRejected known path text rejected =>
      exact .inr ⟨_, _, known, .inl ⟨_, path, .inr ⟨_, text, _, rejected⟩⟩⟩
    | source known mem unread => exact .inr ⟨_, _, known, .inr ⟨_, mem, _, unread⟩⟩
  · rintro (⟨asks, ⟨_, unread⟩ | ⟨_, text, _, rejected⟩⟩ |
      ⟨_, _, known, ⟨_, path, ⟨_, unread⟩ | ⟨_, text, _, rejected⟩⟩ | ⟨_, mem, _, unread⟩⟩)
    · exact .manifest asks unread
    · exact .manifestRejected asks text rejected
    · exact .definitions known path unread
    · exact .definitionsRejected known path text rejected
    · exact .source known mem unread

end FileTree

/-! ### Compiling -/

namespace SourceUnit

variable {numbering : Numbering} {source : SourceUnit}

/-- The source should be a dialogue, but there is a fault in its markup. -/
def Malformed (source : SourceUnit) : Prop :=
  source.plan.kind = .drama ∧ ∃ e, (Drama.Reading.ofSource source.text).error = some e

/-- What the text of a source compiles to, as its kind demands. -/
def compiledText (numbering : Numbering) (source : SourceUnit) : Except Cause CompiledUnit :=
  match source.plan.kind with
  | .script => return .script (.compile numbering source.text)
  | .drama => do
    let document ← (Drama.Document.compile numbering source.text).mapError Cause.markup
    return .drama document

/-- What a source compiles to. -/
def compiled (numbering : Numbering) (source : SourceUnit) : Except Cause Artifact := do
  let unit ← source.compiledText numbering
  return ⟨source.plan, unit⟩

theorem follows_compile (tree : FileTree) (numbering : Numbering) (source : SourceUnit) :
    (source.compile numbering : Job (StateM FileTree) Artifact).Follows tree
      (source.compiled numbering) := by
  have text : (source.compileText numbering : Job (StateM FileTree) CompiledUnit).Follows tree
      (source.compiledText numbering) := by
    rw [compileText, compiledText]
    cases source.plan.kind with
    | script => exact (follows_pure _ tree).record
    | drama =>
      refine Follows.record ((follows_ofExcept _ _ tree).during.bind fun document => ?_)
      exact (follows_pure _ tree).record
  exact text.bind fun unit => (follows_pure _ tree).inform

theorem malformed_iff :
    source.Malformed ↔ ∃ cause, source.compiled numbering = .error cause := by
  rw [compiled, bind_fails_iff, compiledText, Malformed]
  cases source.plan.kind with
  | script => simp [pure, Except.pure]
  | drama =>
    simp only [true_and, bind_fails_iff, mapError_fails_iff]
    rw [Drama.Document.compile, Drama.Reading.document]
    cases (Drama.Reading.ofSource source.text).error <;> simp [pure, Except.pure]

theorem plan_eq_of_compiled {artifact : Artifact} (h : source.compiled numbering = .ok artifact) :
    artifact.plan = source.plan := by
  obtain ⟨unit, -, h⟩ := exists_of_bind_eq_ok h
  obtain rfl := Except.ok.inj h
  rfl

end SourceUnit

/-- What the sources of a project compile to. -/
def Project.compiled (project : Project) : Except Cause (List Artifact) :=
  project.units.mapM (SourceUnit.compiled project.numbering)

/-- A compilation gives what the sources compile to, and leaves the tree as it is. -/
theorem Project.follows_compile (tree : FileTree) (project : Project) :
    (project.compile : Job (StateM FileTree) (List Artifact)).Follows tree project.compiled :=
  (follows_mapM _ fun source => source.follows_compile tree project.numbering).during

/-- A project does not compile if and only if the markup of one of its dialogues is malformed,
whatever else it holds. -/
theorem Project.malformed_iff {project : Project} :
    (∃ source ∈ project.units, source.Malformed) ↔ ∃ cause, project.compiled = .error cause := by
  rw [compiled, mapM_fails_iff]
  exact exists_congr fun source => and_congr_right fun _ => SourceUnit.malformed_iff

end Libretto
