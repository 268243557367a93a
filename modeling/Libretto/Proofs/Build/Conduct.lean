/-
How jobs behave whatever comes of them.

A job may fail anywhere, and then part of its work is done.  What is so of the tree all the same,
and what the job can have failed with, is a rule that every step of it keeps.

* **`Rule`** — how a tree may change, and what a job may fail with;
* **`Keeps`** — a job keeps a rule on every tree, and so do such jobs one behind the other and for
  each of many: `Keeps.bind`, `keeps_mapM`, `keeps_forM`;
* **`Permits`**, **`Permits.keeps_writeOutputs`** — what a rule has to permit, so that the writing
  of outputs keeps it;
* **`Permits.obeys_build`** — hence a whole build does.
-/
import Libretto.Proofs.Build.Outputs

namespace Libretto

open CommandLine (BuildOptions)

namespace Job

variable {α β ε : Type}

/-- How a job may change a tree, and what it may fail with. -/
structure Rule where
  change : FileTree → FileTree → Prop
  cause : Cause → Prop
  refl (tree : FileTree) : change tree tree
  trans {tree middle after : FileTree} : change tree middle → change middle after →
    change tree after

/-- Whatever the tree and the log, the job changes the tree and fails as the rule allows, and what
it gives has a property. -/
def Keeps (rule : Rule) (job : Job (StateM FileTree) α) (post : α → Prop) : Prop :=
  ∀ log tree, rule.change tree (job.run.run log tree).2 ∧
    (∀ a, (job.run.run log tree).1.1 = .ok a → post a) ∧
    ∀ failure, (job.run.run log tree).1.1 = .error failure → rule.cause failure.cause

variable {rule : Rule} {job : Job (StateM FileTree) α} {post : α → Prop}

/-- The second job may rely on what is known of the result of the first one. -/
theorem Keeps.bind {f : α → Job (StateM FileTree) β} {post' : β → Prop}
    (first : Keeps rule job post) (next : ∀ a, post a → Keeps rule (f a) post') :
    Keeps rule (job >>= f) post' := by
  intro log tree
  have held := first log tree
  rw [run_bind]
  generalize job.run.run log tree = run at held ⊢
  obtain ⟨⟨result, more⟩, middle⟩ := run
  obtain ⟨change, given, failed⟩ := held
  cases result with
  | ok a =>
    obtain ⟨change', rest⟩ := next a (given a rfl) more middle
    exact ⟨rule.trans change change', rest⟩
  | error failure =>
    refine ⟨change, nofun, ?_⟩
    intro other same
    obtain rfl := Except.error.inj same
    exact failed failure rfl

theorem keeps_pure (rule : Rule) {a : α} (h : post a) :
    Keeps rule (pure a : Job (StateM FileTree) α) post :=
  fun _ tree => ⟨rule.refl tree, fun _ same => Except.ok.inj same ▸ h, nofun⟩

theorem keeps_inform (rule : Rule) (message : String) :
    Keeps rule (inform message : Job (StateM FileTree) Unit) fun _ => True :=
  fun _ tree => ⟨rule.refl tree, fun _ _ => trivial, nofun⟩

theorem keeps_ofExcept {cause : ε → Cause} {x : Except ε α} (given : ∀ a, x = .ok a → post a)
    (failed : ∀ e, x = .error e → rule.cause (cause e)) :
    Keeps rule (ofExcept cause x : Job (StateM FileTree) α) post := by
  intro log tree
  cases x with
  | ok a => exact ⟨rule.refl tree, fun b same => Except.ok.inj same ▸ given a rfl, nofun⟩
  | error e => exact ⟨rule.refl tree, nofun, fun _ same => Except.error.inj same ▸ failed e rfl⟩

/-- Activities have no part in causes. -/
theorem Keeps.during {activity : Activity} (h : Keeps rule job post) :
    Keeps rule (Job.during activity job) post := by
  intro log tree
  have run : (Job.during activity job).run.run log tree =
      ((((job.run.run log tree).1.1.mapError fun failure =>
          { failure with activities := activity :: failure.activities }),
        (job.run.run log tree).1.2), (job.run.run log tree).2) := rfl
  rw [run]
  obtain ⟨change, given, failed⟩ := h log tree
  refine ⟨change, ?_, ?_⟩
  · intro a same
    exact given a (ok_of_mapError_eq_ok same)
  · intro failure same
    cases result : (job.run.run log tree).1.1 with
    | ok a =>
      rw [result] at same
      cases same
    | error inner =>
      rw [result] at same
      obtain rfl := Except.error.inj same
      exact failed inner result

/-- An operation on files keeps a rule, if it changes the tree as the rule allows and may fail. -/
theorem keeps_access {operation : StateM FileTree (Except FileError α)}
    (change : ∀ tree, rule.change tree (operation tree).2) (failing : ∀ e, rule.cause (.file e)) :
    Keeps rule (Job.access operation) fun _ => True := by
  intro log tree
  have run : (Job.access operation).run.run log tree =
      ((((operation tree).1.mapError fun e => ⟨[], .file e⟩), log), (operation tree).2) := by
    show (match operation tree with
      | (result, after) => (ofExcept Cause.file result : Job (StateM FileTree) α).run.run log after)
        = _
    obtain ⟨result, after⟩ := operation tree
    cases result <;> rfl
  rw [run]
  refine ⟨change tree, fun _ _ => trivial, ?_⟩
  intro failure same
  dsimp only at same
  cases result : (operation tree).1 with
  | ok a =>
    rw [result] at same
    cases same
  | error e =>
    rw [result] at same
    obtain rfl := Except.error.inj same
    exact failing e

theorem keeps_mapM {f : α → Job (StateM FileTree) β} {post : α → β → Prop} {list : List α}
    (each : ∀ a ∈ list, Keeps rule (f a) (post a)) :
    Keeps rule (list.mapM f) fun results => ∀ b ∈ results, ∃ a ∈ list, post a b := by
  induction list with
  | nil => exact keeps_pure rule nofun
  | cons first rest ih =>
    rw [List.mapM_cons]
    refine (each first List.mem_cons_self).bind fun b here => ?_
    refine (ih fun a mem => each a (List.mem_cons_of_mem _ mem)).bind fun more behind => ?_
    refine keeps_pure rule ?_
    intro other mem
    rcases List.mem_cons.1 mem with rfl | mem
    · exact ⟨first, List.mem_cons_self, here⟩
    · obtain ⟨a, mem, holds⟩ := behind other mem
      exact ⟨a, List.mem_cons_of_mem _ mem, holds⟩

theorem keeps_forM {f : α → Job (StateM FileTree) Unit} {list : List α}
    (each : ∀ a ∈ list, Keeps rule (f a) fun _ => True) :
    Keeps rule (list.forM f) fun _ => True := by
  induction list with
  | nil => exact keeps_pure rule trivial
  | cons first rest ih =>
    exact (each first List.mem_cons_self).bind fun _ _ =>
      ih fun a mem => each a (List.mem_cons_of_mem _ mem)

end Job

open Job

/-! ### Builds -/

variable {rule : Rule} {options : BuildOptions} {project : Project} {artifacts : List Artifact}

/-- The path of a file that a build writes for the units of a project. -/
inductive Project.Output (project : Project) (options : BuildOptions) : Path → Prop
  | container {source : SourceUnit} : source ∈ project.units →
      project.Output options (options.output.join source.plan.output)
  | listing {source : SourceUnit} : options.listings = true → source ∈ project.units →
      project.Output options (listingPath options.output source.plan.output)
  | definitions : options.definitions = true →
      project.Output options (options.output.join ⟨Numbering.fileName⟩)

/-- What a rule has to permit for the writing of outputs. -/
structure Permits (rule : Rule) (options : BuildOptions) (project : Project)
    (artifacts : List Artifact) : Prop where
  creating (tree : FileTree) : rule.change tree (tree.createDirectories options.output).2
  writing {path : Path} : project.Output options path → ∀ (bytes : Array UInt8) (tree : FileTree),
    rule.change tree (FileTree.access.write path bytes tree).2
  file (e : FileError) : rule.cause (.file e)
  layingOut : ∀ artifact ∈ artifacts, ∀ e, artifact.unit.bytes = .error e → rule.cause (.layout e)
  listing : options.listings = true → ∀ artifact ∈ artifacts, ∀ bytes,
    artifact.unit.bytes = .ok bytes →
      (∀ e, Binary.View.ofBytes bytes = .error e → rule.cause (.view e)) ∧
      ∀ view, Binary.View.ofBytes bytes = .ok view →
        ∀ e, view.listing project.numbering = .error e → rule.cause (.decode e)

/-- Artifacts go where the units that they are made from say. -/
theorem exists_source {artifact : Artifact} (compiled : project.compiled = .ok artifacts)
    (mem : artifact ∈ artifacts) : ∃ source ∈ project.units, artifact.plan = source.plan := by
  obtain ⟨source, unit, made⟩ := exists_origin_of_mem compiled mem
  exact ⟨source, unit, SourceUnit.plan_eq_of_compiled made⟩

theorem keeps_writeBytes {path : Path} (bytes : Array UInt8) (message : String)
    (writing : ∀ tree, rule.change tree (FileTree.access.write path bytes tree).2)
    (file : ∀ e, rule.cause (.file e)) :
    Keeps rule (writeBytes FileTree.access path bytes >>= fun _ => inform message) fun _ => True :=
  (keeps_access writing file).during.bind fun _ _ => keeps_inform rule message

theorem Permits.keeps_writeOutputs (h : Permits rule options project artifacts)
    (compiled : project.compiled = .ok artifacts) :
    Keeps rule (writeOutputs FileTree.access options project.numbering artifacts)
      fun _ => True := by
  have container : ∀ artifact ∈ artifacts,
      project.Output options (artifact.path options.output) := by
    intro artifact mem
    obtain ⟨source, mem, plan⟩ := exists_source compiled mem
    rw [Artifact.path, plan]
    exact .container mem
  have laidOut : Keeps rule (artifacts.mapM fun artifact => do
      return (artifact.path options.output, ← artifact.layOut) :
        Job (StateM FileTree) (List FileTree.Output)) fun files =>
      ∀ file ∈ files, ∃ artifact ∈ artifacts, file.1 = artifact.path options.output := by
    refine keeps_mapM fun artifact mem => ?_
    have layOut : Keeps rule (artifact.layOut : Job (StateM FileTree) (Array UInt8))
        fun _ => True :=
      (keeps_ofExcept (fun _ _ => trivial) (h.layingOut artifact mem)).during
    exact layOut.bind fun bytes _ => keeps_pure rule rfl
  have binaries : Keeps rule (writeBinaries FileTree.access options.output artifacts)
      fun _ => True := by
    refine (laidOut.bind fun files known => keeps_forM ?_).during
    rintro ⟨path, bytes⟩ there
    obtain ⟨artifact, mem, rfl⟩ : ∃ artifact ∈ artifacts, path = _ := known _ there
    exact keeps_writeBytes bytes _ (h.writing (container artifact mem) bytes) h.file
  have listings (asked : options.listings = true) :
      Keeps rule (writeListings FileTree.access options.output project.numbering artifacts)
        fun _ => True := by
    refine (keeps_forM fun artifact mem => ?_).during
    obtain ⟨source, unit, plan⟩ := exists_source compiled mem
    have listing : Keeps rule
        (artifact.listing project.numbering : Job (StateM FileTree) String) fun _ => True := by
      refine (keeps_ofExcept (fun _ exported => exported) (h.layingOut artifact mem)).bind ?_
      intro bytes exported
      obtain ⟨unviewed, undecoded⟩ := h.listing asked artifact mem bytes exported
      refine (keeps_ofExcept (fun _ viewed => viewed) unviewed).during.bind ?_
      intro view viewed
      exact keeps_ofExcept (fun _ _ => trivial) (undecoded view viewed)
    refine listing.bind fun text _ => keeps_writeBytes _ _ ?_ h.file
    rw [Artifact.listingPath, plan]
    exact h.writing (.listing asked unit) _
  have final : Keeps rule (if options.definitions then
      writeDefinitions FileTree.access options.output project.numbering else pure ())
        fun _ => True := by
    split
    next asked => exact (keeps_access (h.writing (.definitions asked) _) h.file).during
    next => exact keeps_pure rule trivial
  refine binaries.bind fun _ _ => ?_
  by_cases asked : options.listings = true
  · rw [if_pos asked]
    exact (listings asked).bind fun _ _ => final
  · rw [if_neg asked]
    exact final

/-- A build of a project that compiles changes the tree and fails as a rule permits. -/
theorem Permits.obeys_build {tree : FileTree} (h : Permits rule options project artifacts)
    (loaded : tree.projectAt options.input options.opcodes = .ok project)
    (compiled : project.compiled = .ok artifacts) (log : Log) :
    rule.change tree ((build FileTree.access options).run.run log tree).2 ∧
      ∀ failure, ((build FileTree.access options).run.run log tree).1.1 = .error failure →
        rule.cause failure.cause := by
  have creating : Keeps rule (Job.during (.creating options.output)
      (Job.access (FileTree.access.createDirectories options.output))) fun _ => True :=
    (keeps_access h.creating h.file).during
  have rest := creating.bind fun _ _ => h.keeps_writeOutputs compiled
  obtain ⟨more, load⟩ := (FileTree.follows_load tree _ _).gives loaded log
  obtain ⟨most, compile⟩ := (project.follows_compile tree).gives compiled more
  have run : (build FileTree.access options).run.run log tree =
      (Job.during (.creating options.output)
        (Job.access (FileTree.access.createDirectories options.output)) >>= fun _ =>
          writeOutputs FileTree.access options project.numbering artifacts).run.run most tree := by
    rw [build, run_bind, load]
    dsimp only
    rw [run_bind, compile]
    rfl
  obtain ⟨change, -, failed⟩ := rest most tree
  rw [run]
  exact ⟨change, failed⟩

end Libretto
