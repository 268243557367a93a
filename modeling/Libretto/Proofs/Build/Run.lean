/-
What a job gives on a tree of files.

`Gives job tree result after` says that on a tree a job has a result and leaves another tree,
whatever its log holds before.

* **`Gives.bind`**, **`Gives.stop`** — two jobs one behind the other, and a job that fails before
  the other one;
* **`Follows`** — a job that only reads does what a function of the tree says, and so do such jobs
  one behind the other and for each of many: `Follows.bind`, `follows_mapM`;
* **`Ends`** — a job that succeeds with a given tree, or else fails, and goes on from job to job:
  `Ends.seq`, `Follows.ends`;
* **`Puts`** — a job that succeeds only if it has written given files, which add up from job to job:
  `Puts.append`, `Follows.puts`, `puts_forM`.
-/
import Libretto.Build
import Libretto.Proofs.Files.Writing

namespace Libretto.Job

variable {α β ε : Type} {tree middle after : FileTree}

/-- On the first tree the job gives the result and leaves the second one. -/
def Gives (job : Job (StateM FileTree) α) (tree : FileTree) (result : Except Failure α)
    (after : FileTree) : Prop :=
  ∀ log, ∃ more, job.run.run log tree = ((result, more), after)

variable {job : Job (StateM FileTree) α} {result : Except Failure α}

/-- A job has one outcome. -/
theorem Gives.unique {result' : Except Failure α} {after' : FileTree}
    (h : job.Gives tree result after) (h' : job.Gives tree result' after') :
    result = result' ∧ after = after' := by
  obtain ⟨more, ran⟩ := h []
  obtain ⟨more', ran'⟩ := h' []
  rw [ran] at ran'
  obtain ⟨same, rfl⟩ := Prod.mk.inj ran'
  exact ⟨(Prod.mk.inj same).1, rfl⟩

/-- The job is executed with a log that is empty at first. -/
theorem Gives.execute (h : job.Gives tree result after) :
    ∃ log, job.execute.run tree = ((result, log), after) :=
  h []

/-! ### Jobs one behind the other -/

theorem run_bind (job : Job (StateM FileTree) α) (f : α → Job (StateM FileTree) β) (log : Log)
    (tree : FileTree) :
    (job >>= f).run.run log tree =
      match job.run.run log tree with
      | ((.ok a, log), tree) => (f a).run.run log tree
      | ((.error e, log), tree) => ((.error e, log), tree) := by
  show (match job.run.run log tree with
    | ((x, log), tree) => (ExceptT.bindCont f x).run log tree) = _
  obtain ⟨⟨x, more⟩, after⟩ := job.run.run log tree
  cases x <;> rfl

/-- The second job begins with what the first one gives, on the tree that it leaves. -/
theorem Gives.bind {f : α → Job (StateM FileTree) β} {a : α} {result : Except Failure β}
    (first : job.Gives tree (.ok a) middle) (next : (f a).Gives middle result after) :
    (job >>= f).Gives tree result after := by
  intro log
  obtain ⟨more, ran⟩ := first log
  obtain ⟨most, behind⟩ := next more
  exact ⟨most, by rw [run_bind, ran]; exact behind⟩

/-- Behind a job that fails nothing happens. -/
theorem Gives.stop {f : α → Job (StateM FileTree) β} {failure : Failure}
    (first : job.Gives tree (.error failure) after) :
    (job >>= f).Gives tree (.error failure) after := by
  intro log
  obtain ⟨more, ran⟩ := first log
  exact ⟨more, by rw [run_bind, ran]⟩

theorem gives_pure (a : α) (tree : FileTree) :
    (pure a : Job (StateM FileTree) α).Gives tree (.ok a) tree :=
  fun log => ⟨log, rfl⟩

theorem gives_record (more : Log) (tree : FileTree) :
    (record more : Job (StateM FileTree) Unit).Gives tree (.ok ()) tree :=
  fun log => ⟨log ++ more, rfl⟩

theorem gives_inform (message : String) (tree : FileTree) :
    (inform message : Job (StateM FileTree) Unit).Gives tree (.ok ()) tree :=
  gives_record _ tree

/-- A name for an activity shows in failures only. -/
theorem Gives.during (activity : Activity) (h : job.Gives tree result after) :
    (Job.during activity job).Gives tree
      (result.mapError fun failure => { failure with activities := activity :: failure.activities })
      after := by
  intro log
  obtain ⟨more, ran⟩ := h log
  refine ⟨more, ?_⟩
  show (match job.run.run log tree with
    | ((x, more), after) => ((x.mapError _, more), after)) = _
  rw [ran]

/-! ### Jobs that only read -/

/-- On a tree, which it leaves as it is, the job has the given result, or fails for its cause. -/
def Follows (job : Job (StateM FileTree) α) (tree : FileTree) : Except Cause α → Prop
  | .ok a => job.Gives tree (.ok a) tree
  | .error cause => ∃ activities, job.Gives tree (.error ⟨activities, cause⟩) tree

variable {x : Except Cause α}

theorem Follows.gives {a : α} (h : job.Follows tree x) (ok : x = .ok a) :
    job.Gives tree (.ok a) tree := by
  subst ok
  exact h

theorem Follows.fails {cause : Cause} (h : job.Follows tree x) (failed : x = .error cause) :
    ∃ activities, job.Gives tree (.error ⟨activities, cause⟩) tree := by
  subst failed
  exact h

theorem Follows.bind {f : α → Job (StateM FileTree) β} {g : α → Except Cause β}
    (first : job.Follows tree x) (next : ∀ a, (f a).Follows tree (g a)) :
    (job >>= f).Follows tree (x >>= g) := by
  cases x with
  | error cause =>
    obtain ⟨activities, failed⟩ := first
    exact ⟨activities, failed.stop⟩
  | ok a =>
    show (job >>= f).Follows tree (g a)
    cases result : g a with
    | error cause =>
      obtain ⟨activities, failed⟩ := (next a).fails result
      exact ⟨activities, Gives.bind first failed⟩
    | ok b => exact Gives.bind first ((next a).gives result)

theorem Follows.during {activity : Activity} (h : job.Follows tree x) :
    (Job.during activity job).Follows tree x := by
  cases x with
  | error cause =>
    obtain ⟨activities, failed⟩ := h
    exact ⟨_, failed.during activity⟩
  | ok a => exact Gives.during activity h

theorem follows_pure (a : α) (tree : FileTree) :
    (pure a : Job (StateM FileTree) α).Follows tree (.ok a) :=
  gives_pure a tree

theorem follows_ofExcept (cause : ε → Cause) (x : Except ε α) (tree : FileTree) :
    (ofExcept cause x : Job (StateM FileTree) α).Follows tree (x.mapError cause) := by
  cases x with
  | error e => exact ⟨[], fun log => ⟨log, rfl⟩⟩
  | ok a => exact fun log => ⟨log, rfl⟩

/-- Messages have no part in the result. -/
theorem Follows.record {next : Job (StateM FileTree) α} {more : Log} (h : next.Follows tree x) :
    (Job.record more >>= fun _ => next).Follows tree x :=
  Follows.bind (x := .ok ()) (gives_record more tree) fun _ => h

theorem Follows.inform {next : Job (StateM FileTree) α} {message : String}
    (h : next.Follows tree x) : (Job.inform message >>= fun _ => next).Follows tree x :=
  h.record

theorem follows_mapM {f : α → Job (StateM FileTree) β} {g : α → Except Cause β} (list : List α)
    (each : ∀ a, (f a).Follows tree (g a)) : (list.mapM f).Follows tree (list.mapM g) := by
  induction list with
  | nil => exact follows_pure [] tree
  | cons first rest ih =>
    rw [List.mapM_cons, List.mapM_cons]
    exact (each first).bind fun b => ih.bind fun more => follows_pure (b :: more) tree

/-- A job that only reads has no other outcome. -/
theorem Follows.eq_of_gives (h : job.Follows tree x) (given : job.Gives tree result after) :
    x = result.mapError Failure.cause ∧ after = tree := by
  cases x with
  | error cause =>
    obtain ⟨activities, failed⟩ := h
    obtain ⟨rfl, rfl⟩ := failed.unique given
    exact ⟨rfl, rfl⟩
  | ok a =>
    obtain ⟨rfl, rfl⟩ := Gives.unique h given
    exact ⟨rfl, rfl⟩

theorem Follows.gives_error_iff (h : job.Follows tree x) :
    (∃ cause, x = .error cause) ↔ ∃ failure, job.Gives tree (.error failure) tree := by
  constructor
  · rintro ⟨cause, rfl⟩
    obtain ⟨activities, failed⟩ := h
    exact ⟨_, failed⟩
  · rintro ⟨failure, failed⟩
    exact ⟨_, (h.eq_of_gives failed).1⟩

/-! ### Files -/

theorem gives_access {operation : StateM FileTree (Except FileError α)}
    {result : Except FileError α} (ran : operation tree = (result, after)) :
    (Job.access operation).Gives tree (result.mapError fun e => ⟨[], .file e⟩) after := by
  intro log
  refine ⟨log, ?_⟩
  show (match operation tree with
    | (result, after) => (ofExcept Cause.file result : Job (StateM FileTree) α).run.run log after) =
      _
  rw [ran]
  cases result <;> rfl

theorem follows_access (tree : FileTree) (path : Path) :
    (Job.access (FileTree.access.read path)).Follows tree ((tree.read path).mapError .file) := by
  have ran : FileTree.access.read path tree = (tree.read path, tree) := rfl
  have given := gives_access ran
  cases read : tree.read path with
  | error e =>
    rw [read] at given
    exact ⟨[], given⟩
  | ok bytes =>
    rw [read] at given
    exact given

/-! ### Jobs that write -/

/-- On a tree the job succeeds and leaves the given one, or else it fails. -/
def Ends (job : Job (StateM FileTree) Unit) (tree : FileTree) : Option FileTree → Prop
  | some after => job.Gives tree (.ok ()) after
  | none => ∃ failure after, job.Gives tree (.error failure) after

/-- What a tree becomes when files are written to it, if there are any and all of them can be. -/
def written (tree : FileTree) (outputs : Except Cause (List FileTree.Output)) : Option FileTree :=
  outputs.toOption.bind fun files => (tree.writeAll files).toOption

/-- The job succeeds just in case the given files can be written to the tree, and it writes them. -/
def Puts (job : Job (StateM FileTree) Unit) (tree : FileTree)
    (outputs : Except Cause (List FileTree.Output)) : Prop :=
  job.Ends tree (written tree outputs)

variable {first next : Job (StateM FileTree) Unit}
  {outputs more : Except Cause (List FileTree.Output)}

theorem Ends.gives_iff {target : Option FileTree} (h : first.Ends tree target) :
    first.Gives tree (.ok ()) after ↔ target = some after := by
  cases target with
  | some reached =>
    constructor
    · intro given
      rw [(Gives.unique h given).2]
    · intro same
      rwa [← Option.some.inj same]
  | none =>
    obtain ⟨failure, left, failed⟩ := h
    constructor
    · intro given
      cases (failed.unique given).1
    · intro same
      cases same

/-- Success does not depend on the log. -/
theorem Ends.gives_of_isOk {target : Option FileTree} (h : first.Ends tree target)
    (ran : (first.execute.run tree).1.1.isOk = true) :
    first.Gives tree (.ok ()) (first.execute.run tree).2 := by
  cases target with
  | some after =>
    obtain ⟨log, same⟩ := Gives.execute h
    rw [same]
    exact h
  | none =>
    obtain ⟨failure, after, failed⟩ := h
    obtain ⟨log, same⟩ := failed.execute
    rw [same] at ran
    cases ran

theorem Ends.during {activity : Activity} {target : Option FileTree} (h : first.Ends tree target) :
    (Job.during activity first).Ends tree target := by
  cases target with
  | some after => exact Gives.during activity h
  | none =>
    obtain ⟨failure, after, given⟩ := h
    exact ⟨_, after, given.during activity⟩

theorem Gives.ends {f : α → Job (StateM FileTree) Unit} {a : α} {target : Option FileTree}
    (first : job.Gives tree (.ok a) middle) (rest : (f a).Ends middle target) :
    (job >>= f).Ends tree target := by
  cases target with
  | some after => exact first.bind rest
  | none =>
    obtain ⟨failure, after, failed⟩ := rest
    exact ⟨failure, after, first.bind failed⟩

/-- The second job goes on from the tree that the first one leaves. -/
theorem Ends.seq {target : Option FileTree} {behind : FileTree → Option FileTree}
    (h : first.Ends tree target) (later : ∀ middle, next.Ends middle (behind middle)) :
    (first >>= fun _ => next).Ends tree (target.bind behind) := by
  cases target with
  | none =>
    obtain ⟨failure, after, given⟩ := h
    exact ⟨failure, after, given.stop⟩
  | some middle => exact Gives.ends h (later middle)

theorem Puts.during {activity : Activity} (h : first.Puts tree outputs) :
    (Job.during activity first).Puts tree outputs :=
  Ends.during h

theorem puts_pure (tree : FileTree) :
    (pure () : Job (StateM FileTree) Unit).Puts tree (.ok []) :=
  gives_pure () tree

theorem puts_inform (message : String) (tree : FileTree) :
    (Job.inform message : Job (StateM FileTree) Unit).Puts tree (.ok []) :=
  gives_inform message tree

theorem puts_access (tree : FileTree) (path : Path) (bytes : Array UInt8) :
    (Job.access (FileTree.access.write path bytes)).Puts tree (.ok [(path, bytes)]) := by
  have single : written tree (.ok [(path, bytes)]) = (tree.write path bytes).toOption := by
    show (tree.write path bytes >>= fun next => next.writeAll []).toOption = _
    cases tree.write path bytes <;> rfl
  rw [Puts, single]
  cases result : tree.write path bytes with
  | error e =>
    have ran : FileTree.access.write path bytes tree = (.error e, tree) := by
      simp only [FileTree.access, result]
    exact ⟨_, tree, gives_access ran⟩
  | ok after =>
    have ran : FileTree.access.write path bytes tree = (.ok (), after) := by
      simp only [FileTree.access, result]
    exact gives_access ran

theorem written_append (tree : FileTree) (outputs more : Except Cause (List FileTree.Output)) :
    written tree (do return (← outputs) ++ (← more)) =
      (written tree outputs).bind fun middle => written middle more := by
  cases outputs with
  | error cause => rfl
  | ok files =>
    cases more with
    | error cause =>
      show none = (tree.writeAll files).toOption.bind fun _ => none
      rw [Option.bind_fun_none]
    | ok others =>
      show (tree.writeAll (files ++ others)).toOption =
        (tree.writeAll files).toOption.bind fun middle => (middle.writeAll others).toOption
      rw [FileTree.writeAll_append]
      cases tree.writeAll files <;> rfl

/-- What is written by the one job and by the other. -/
theorem Puts.append (h : first.Puts tree outputs) (behind : ∀ tree, next.Puts tree more) :
    (first >>= fun _ => next).Puts tree (do return (← outputs) ++ (← more)) := by
  rw [Puts, written_append]
  exact Ends.seq h behind

/-- A job that only reads, and one that goes on with what was read. -/
theorem Follows.ends {f : α → Job (StateM FileTree) Unit} {target : α → Option FileTree}
    (h : job.Follows tree x) (behind : ∀ a, (f a).Ends tree (target a)) :
    (job >>= f).Ends tree (x.toOption.bind target) := by
  cases x with
  | error cause =>
    obtain ⟨activities, failed⟩ := h
    exact ⟨_, tree, failed.stop⟩
  | ok a => exact Gives.ends h (behind a)

theorem Follows.puts {f : α → Job (StateM FileTree) Unit}
    {g : α → Except Cause (List FileTree.Output)}
    (h : job.Follows tree x) (behind : ∀ a, (f a).Puts tree (g a)) :
    (job >>= f).Puts tree (x >>= g) := by
  have same : written tree (x >>= g) = x.toOption.bind fun a => written tree (g a) := by
    cases x <;> rfl
  rw [Puts, same]
  exact h.ends behind

/-- A file for each of many. -/
theorem puts_forM {f : α → Job (StateM FileTree) Unit} {g : α → Except Cause FileTree.Output}
    (each : ∀ a tree, (f a).Puts tree (do return [← g a])) (list : List α) (tree : FileTree) :
    (list.forM f).Puts tree (list.mapM g) := by
  induction list generalizing tree with
  | nil => exact puts_pure tree
  | cons first rest ih =>
    have both := (each first tree).append ih
    rw [List.mapM_cons]
    cases here : g first with
    | error cause =>
      rw [here] at both
      exact both
    | ok output =>
      rw [here] at both
      exact both

end Libretto.Job
