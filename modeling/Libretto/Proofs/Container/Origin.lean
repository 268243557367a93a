/-
Offsets are counted from behind their origin.

An offset is a position less the origin that it counts from, so it means something only if the
stream has reached the origin.  Every offset of a container does, whatever the rule by which the
writers count it:

* **`CountsBehind`** — a rule that counts as `offsetFrom` does wherever the stream has reached the
  origin, and may do anything where it has not;
* **`Agrees`** — two steps that do the same on every stream that has reached an origin, and leave it
  no shorter, with `Agrees.bind` and `Agrees.position`;
* **`agrees_pieces`** — a loop agrees under two rules if its pieces do;
* **`writeBy_ofScript`**, **`writeBy_ofDocument`** — whatever the rule does in front of an origin,
  nothing of it is seen.

No unit has to be compiled for this, and the stream may hold anything.
-/
import Libretto.Proofs.Container.Pieces

namespace Libretto.Binary

open Writer Script Drama

/-- A rule for offsets that counts where the stream has reached the origin. -/
def CountsBehind (rule : Nat → Writer UInt32) : Prop :=
  ∀ top stream, top ≤ stream.size → rule top stream = offsetFrom top stream

/-- The rule that refuses to count from an origin that the stream has not reached. -/
def checkedOffset (top : Nat) : Writer UInt32 := fun stream =>
  if top ≤ stream.size then offsetFrom top stream
  else .error (.offsetOverflow (top - stream.size)) stream

theorem countsBehind_checkedOffset : CountsBehind checkedOffset :=
  fun _ _ reached => if_pos reached

/-! ### Steps behind an origin -/

/-- Two steps that do the same behind an origin, and leave the stream no shorter than it was. -/
structure Agrees {α : Type} (top : Nat) (x y : Writer α) : Prop where
  same : ∀ stream : Stream, top ≤ stream.size → x stream = y stream
  grows : ∀ stream : Stream, top ≤ stream.size → ∀ result later,
    y stream = .ok result later → stream.size ≤ later.size

variable {α β : Type} {top : Nat}

theorem Agrees.bind {x y : Writer α} {f g : α → Writer β} (first : Agrees top x y)
    (rest : ∀ a, Agrees top (f a) (g a)) : Agrees top (x >>= f) (y >>= g) := by
  refine ⟨?_, ?_⟩
  · intro stream reached
    simp only [Bind.bind, EStateM.bind, first.same stream reached]
    cases run : y stream with
    | error e later => rfl
    | ok a later =>
      have more := first.grows stream reached a later run
      exact (rest a).same later (Nat.le_trans reached more)
  · intro stream reached result final run
    simp only [Bind.bind, EStateM.bind] at run
    cases step : y stream with
    | error e later =>
      rw [step] at run
      cases run
    | ok a later =>
      rw [step] at run
      have more := first.grows stream reached a later step
      exact Nat.le_trans more ((rest a).grows later (Nat.le_trans reached more) _ _ run)

theorem Agrees.seq {x y : Writer Unit} {f g : Writer β} (first : Agrees top x y)
    (rest : Agrees top f g) : Agrees top (x >>= fun _ => f) (y >>= fun _ => g) :=
  first.bind fun _ => rest

/-- A position that the stream has reached is an origin for what follows. -/
theorem Agrees.position {f g : Nat → Writer β}
    (rest : ∀ here, top ≤ here → Agrees here (f here) (g here)) :
    Agrees top (Writer.position >>= f) (Writer.position >>= g) := by
  refine ⟨?_, ?_⟩
  · intro stream reached
    exact (rest stream.size reached).same stream (Nat.le_refl _)
  · intro stream reached
    exact (rest stream.size reached).grows stream (Nat.le_refl _)

theorem Agrees.ite {x y : Writer α} {f g : Writer α} {p : Prop} [Decidable p]
    (yes : Agrees top x y) (no : Agrees top f g) :
    Agrees top (if p then x else f) (if p then y else g) := by
  split
  · exact yes
  · exact no

/-- A step agrees with itself if it does not shorten the stream. -/
theorem agrees_self {x : Writer α} (grows : ∀ stream result later,
    x stream = .ok result later → stream.size ≤ later.size) : Agrees top x x :=
  ⟨fun _ _ => rfl, fun stream _ => grows stream⟩

theorem agrees_pure (result : α) : Agrees top (pure result : Writer α) (pure result) := by
  refine agrees_self ?_
  intro stream result later run
  obtain ⟨-, rfl⟩ := EStateM.Result.ok.inj run
  exact Nat.le_refl _

theorem agrees_throw (e : ExportError) : Agrees top (throw e : Writer α) (throw e) :=
  agrees_self fun _ _ _ run => nomatch run

theorem agrees_bytes (bytes : List UInt8) :
    Agrees top (writeBytes bytes) (writeBytes bytes) := by
  refine agrees_self ?_
  intro stream result later run
  have written : writeBytes bytes stream = .ok () (.ofList (stream.bytes.toList ++ bytes)) :=
    writeBytes_apply bytes stream.bytes.toList
  rw [written] at run
  obtain ⟨-, rfl⟩ := EStateM.Result.ok.inj run
  simp [Stream.size, Stream.ofList]

theorem agrees_tag (tag : Tag) : Agrees top (writeTag tag) (writeTag tag) :=
  agrees_bytes _

theorem agrees_word (word : UInt32) : Agrees top (writeWord word) (writeWord word) :=
  agrees_bytes _

theorem agrees_count (count : Nat) : Agrees top (writeCount count) (writeCount count) :=
  agrees_bytes _

theorem agrees_position : Agrees top position position := by
  refine agrees_self ?_
  intro stream result later run
  obtain ⟨-, rfl⟩ := EStateM.Result.ok.inj run
  exact Nat.le_refl _

theorem agrees_reserve : Agrees top reserve reserve :=
  agrees_position.bind fun at_ => (agrees_word 0).bind fun _ => agrees_pure at_

theorem agrees_align (boundary : Nat) : Agrees top (align boundary) (align boundary) :=
  agrees_position.bind fun _ => agrees_bytes _

theorem size_overwrite (target : Array UInt8) (position : Nat) (bytes : List UInt8) :
    (overwrite target position bytes).size = target.size := by
  induction bytes generalizing target position with
  | nil => rfl
  | cons byte rest ih => rw [overwrite, ih, Array.size_setIfInBounds]

theorem agrees_patch (at_ : Nat) (word : UInt32) :
    Agrees top (patch at_ word) (patch at_ word) := by
  refine agrees_position.bind fun size => ?_
  split
  · refine agrees_self ?_
    intro stream result later run
    obtain ⟨-, rfl⟩ := EStateM.Result.ok.inj run
    simp only [Stream.size, size_overwrite, Nat.le_refl]
  · exact agrees_throw _

variable {rule : Nat → Writer UInt32}

/-- A rule is consulted about an origin that the stream has reached. -/
theorem agrees_rule (h : CountsBehind rule) : Agrees top (rule top) (offsetFrom top) := by
  have grows : Agrees top (offsetFrom top) (offsetFrom top) :=
    agrees_position.bind fun _ => .ite (agrees_pure _) (agrees_throw _)
  exact ⟨h top, grows.grows⟩

theorem agrees_patchHere (h : CountsBehind rule) (at_ : Nat) :
    Agrees top (patchHereBy rule at_ top) (patchHere at_ top) :=
  (agrees_rule h).bind fun word => agrees_patch at_ word

/-! ### Containers behind an origin -/

/-- The loop agrees, if each piece does. -/
theorem agrees_pieces (h : CountsBehind rule) {near far : α → Writer Unit}
    (agree : ∀ item, Agrees top (near item) (far item)) (boundary : Nat) (items : List α)
    (entries : List Nat) :
    Agrees top (writePiecesBy rule boundary top ((items.map near).zip entries))
      (writePiecesBy offsetFrom boundary top ((items.map far).zip entries)) := by
  induction items generalizing entries with
  | nil => exact agrees_pure ()
  | cons item rest ih =>
    cases entries with
    | nil => exact agrees_pure ()
    | cons entry entries =>
      simp only [List.map_cons, List.zip_cons_cons, writePiecesBy]
      exact (agrees_align _).seq ((agrees_patchHere h entry).seq ((agree item).seq (ih entries)))

theorem agrees_strings (h : CountsBehind rule) (base entry : Nat) (strings : List String) :
    Agrees base (writeStringsBy rule base entry strings)
      (writeStringsBy offsetFrom base entry strings) := by
  rw [writeStringsBy_eq, writeStringsBy_eq]
  exact agrees_pieces h (fun text => agrees_bytes _) 1 strings _

theorem agrees_stringList (h : CountsBehind rule) (ids : WriteIds) :
    Agrees top (writeStringListBy rule ids) (writeStringListBy offsetFrom ids) := by
  refine Agrees.position fun base _ => ?_
  refine (agrees_tag _).seq ((agrees_count _).seq (agrees_position.bind fun table => ?_))
  exact (agrees_bytes _).seq (agrees_strings h base table ids.strings)

/-- A container agrees, if its chunks do behind the position where it begins. -/
theorem agrees_write (h : CountsBehind rule) {kind : Tag} {table : StringTable}
    {references : List StringId} {near far : Nat → WriteIds → Writer Unit}
    (agree : ∀ here ids, Agrees here (near here ids) (far here ids)) :
    Agrees top (Contents.writeBy rule ⟨kind, table, references, near⟩)
      (Contents.write ⟨kind, table, references, far⟩) := by
  refine (agrees_align _).seq (Agrees.position fun here _ => ?_)
  refine (agrees_tag _).seq ((agrees_word 0).seq (agrees_reserve.bind fun size => ?_))
  refine (agrees_count _).seq (agrees_reserve.bind fun strings => ?_)
  refine (agrees_word 0).seq ((agree here _).seq ?_)
  have sealed : Agrees here (patchHereBy rule size here) (patchHere size here) :=
    agrees_patchHere h size
  refine Agrees.ite ?_ sealed
  refine (agrees_align _).seq ((agrees_patchHere h strings).seq ?_)
  exact (agrees_stringList h _).seq sealed

theorem agrees_block (ids : WriteIds) (block : Block) :
    Agrees top (writeBlock ids block) (writeBlock ids block) := by
  rw [writeBlock]
  cases block.resolve ids with
  | error id => exact agrees_throw _
  | ok code => exact agrees_bytes _

theorem agrees_blocks (h : CountsBehind rule) (ids : WriteIds) (blocks : List Block)
    (entries : List Nat) :
    Agrees top (writeBlocksBy rule top ids (blocks.zip entries))
      (writeBlocksBy offsetFrom top ids (blocks.zip entries)) := by
  rw [writeBlocksBy_eq, writeBlocksBy_eq]
  exact agrees_pieces h (agrees_block ids) alignment blocks entries

theorem agrees_entries (blocks : List Block) :
    Agrees top (writeEntries blocks) (writeEntries blocks) := by
  induction blocks with
  | nil => exact agrees_pure []
  | cons block rest ih =>
    refine agrees_reserve.bind fun entry => (agrees_count _).seq ?_
    exact ih.bind fun entries => agrees_pure (entry :: entries)

theorem agrees_script (h : CountsBehind rule) (unit : ScriptUnit) (ids : WriteIds) :
    Agrees top (writeScriptBy rule unit top ids) (writeScript unit top ids) := by
  refine (agrees_tag _).seq ((agrees_count _).seq (agrees_reserve.bind fun body => ?_))
  refine (agrees_entries _).bind fun entries => (agrees_align _).seq ?_
  exact (agrees_patchHere h body).seq ((agrees_tag _).seq (agrees_blocks h ids _ entries))

theorem agrees_ofScript (h : CountsBehind rule) (unit : ScriptUnit) :
    Agrees top ((ofScriptBy rule unit).writeBy rule) (ofScript unit).write :=
  agrees_write h fun _ ids => agrees_script h unit ids

theorem agrees_snippets (h : CountsBehind rule) (units : List ScriptUnit) (entries : List Nat) :
    Agrees top (writeSnippetsBy rule top (units.zip entries))
      (writeSnippetsBy offsetFrom top (units.zip entries)) := by
  rw [writeSnippetsBy_eq, writeSnippetsBy_eq]
  exact agrees_pieces h (agrees_ofScript h) alignment units entries

theorem agrees_reserveMany (count : Nat) :
    Agrees top (reserveMany count) (reserveMany count) := by
  induction count with
  | zero => exact agrees_pure []
  | succ count ih =>
    refine agrees_reserve.bind fun entry => ?_
    exact ih.bind fun entries => agrees_pure (entry :: entries)

theorem agrees_stringWord (ids : WriteIds) (id? : Option StringId) :
    Agrees top (stringWord ids id?) (stringWord ids id?) := by
  cases id? with
  | none => exact agrees_pure _
  | some id =>
    rw [stringWord]
    split
    · exact agrees_throw _
    · exact agrees_pure _

theorem agrees_snippetWord (index? : Option Nat) :
    Agrees top (snippetWord index?) (snippetWord index?) := by
  cases index? with
  | none => exact agrees_pure _
  | some index => exact .ite (agrees_pure _) (agrees_throw _)

theorem agrees_node (ids : WriteIds) (node : Node) :
    Agrees top (writeNode ids node) (writeNode ids node) := by
  refine (agrees_stringWord ids _).bind fun word => (agrees_word word).seq ?_
  refine (agrees_snippetWord _).bind fun word => (agrees_word word).seq ?_
  refine (agrees_snippetWord _).bind fun word => (agrees_word word).seq ?_
  refine (agrees_stringWord ids _).bind fun word => (agrees_word word).seq ?_
  exact (agrees_stringWord ids _).bind fun word => agrees_word word

theorem agrees_nodes (ids : WriteIds) (nodes : List Node) :
    Agrees top (nodes.forM (writeNode ids)) (nodes.forM (writeNode ids)) := by
  induction nodes with
  | nil => exact agrees_pure ()
  | cons node rest ih => exact (agrees_node ids node).seq ih

theorem agrees_drama (h : CountsBehind rule) (document : Document) (ids : WriteIds) :
    Agrees top (writeDramaBy rule document top ids) (writeDrama document top ids) := by
  refine (agrees_tag _).seq ((agrees_count _).seq ((agrees_count _).seq ?_))
  refine agrees_reserve.bind fun body => (agrees_reserveMany _).bind fun entries => ?_
  refine Agrees.ite ?_ (agrees_pure ())
  refine (agrees_align _).seq ((agrees_tag _).seq ((agrees_patchHere h body).seq ?_))
  exact (agrees_nodes ids _).seq (agrees_snippets h _ entries)

/-- Every offset in the container of a script is counted from an origin that was reached. -/
theorem writeBy_ofScript (h : CountsBehind rule) (unit : ScriptUnit) :
    (ofScriptBy rule unit).writeBy rule = (ofScript unit).write :=
  funext fun stream => (agrees_ofScript h unit).same stream (Nat.zero_le _)

/-- The rule is asked: one that refuses everything fails. -/
example : ∃ later, (ofScriptBy (fun _ => throw (.offsetOverflow 7)) (.compile .standard "")).writeBy
    (fun _ => throw (.offsetOverflow 7)) (.ofList []) = .error (.offsetOverflow 7) later :=
  ⟨_, rfl⟩

/-- Every offset in the container of a dialogue is counted from an origin that was reached. -/
theorem writeBy_ofDocument (h : CountsBehind rule) (document : Document) :
    (ofDocumentBy rule document).writeBy rule = (ofDocument document).write := by
  have agree : Agrees 0 ((ofDocumentBy rule document).writeBy rule)
      (ofDocument document).write := agrees_write h fun _ ids => agrees_drama h document ids
  exact funext fun stream => agree.same stream (Nat.zero_le _)

end Libretto.Binary
