/-
The account of lines.

Every line of a script comes to one of three ends: it has no tokens, it makes a block, or it is
skipped for an error.  The line alone decides which, and the unit is nothing but what its lines come
to:

* **`IsTokenless`** — a line holds nothing but blanks and a comment;
* **`FirstForm`** — the lexemes that spell the first form of a line, and those behind it;
* **`ofTokens?_eq_some_iff`**, **`firstForm_iff`** — reading a line finds exactly these;
* **`Outcome.Befits`**, **`befits_ofLine`** — the outcome of a line, whatever the table;
* **`blockOf`**, **`reportsOf`** — what a unit holds of one line;
* **`Fate.Holds`** — the three ends, by what the unit holds of the line;
* **`accounts_of_compile`** — each line has one of them, and together they make up the unit.
-/
import Libretto.Proofs.Script.Balance
import Libretto.Proofs.Script.Grammar
import Libretto.Proofs.Script.Line
import Libretto.Proofs.Script.Report

namespace Libretto.Script

open Outcome (withoutTabs)

variable {line : List Char} {front behind : List Lexeme}

/-- A line holds nothing but blanks and a comment. -/
def IsTokenless (line : List Char) : Prop :=
  ∀ c ∈ stripComment line, Text.isBlank c

instance (line : List Char) : Decidable (IsTokenless line) := List.decidableBAll ..

/-- The first form of a line and what stands behind it: the line is nothing but lexemes, the first
ones spell an expression, and the parentheses of the others match. -/
structure FirstForm (line : List Char) (front behind : List Lexeme) : Prop where
  complete : ∃ segments, Complete (stripComment (withoutTabs line)) segments ∧
    segments.map Segment.lexeme = front ++ behind
  spells : ∀ id, ∃ expr : Expr, expr.Spells (front.map (Lexeme.token id)) ∧ expr.ShallowAt 0
  balanced : ∀ id, Balanced (behind.map (Lexeme.token id))

/-! ### Lines without tokens -/

theorem isBlank_withoutTab_eq (c : Char) :
    Text.isBlank (if c = '\t' then ' ' else c) = Text.isBlank c := by
  split
  · next tab =>
    subst tab
    decide
  · rfl

theorem isTokenless_withoutTabs : IsTokenless (withoutTabs line) ↔ IsTokenless line := by
  have kept : ((· ≠ ';') ∘ fun c => if c = '\t' then ' ' else c : Char → Bool) = (· ≠ ';') := by
    funext c
    by_cases tab : c = '\t'
    · subst tab
      decide
    · simp [tab]
  rw [IsTokenless, IsTokenless, stripComment, stripComment, withoutTabs, List.takeWhile_map, kept,
    List.forall_mem_map]
  simp only [isBlank_withoutTab_eq]

/-- A scan of a line whose quotes are closed finds the lexemes that it consists of. -/
theorem exists_complete (closed : (Scan.ofLine line).openQuote = none) :
    ∃ segments, Complete (stripComment line) segments ∧
      segments.map Segment.lexeme = (Scan.ofLine line).lexemes := by
  obtain ⟨segments, complete | ⟨column, broken⟩⟩ := complete_or_breaksOff (stripComment line)
  · exact ⟨segments, complete, by rw [Scan.ofLine, scan_of_complete complete]⟩
  · rw [Scan.ofLine, scan_of_breaksOff broken] at closed
    cases closed

/-- The lines without tokens are those in which a scan finds neither lexemes nor an open quote. -/
theorem isTokenless_iff :
    IsTokenless line ↔
      (Scan.ofLine (withoutTabs line)).openQuote = none ∧ lineLexemes line = [] := by
  rw [← isTokenless_withoutTabs]
  constructor
  · intro blank
    have complete : Complete (stripComment (withoutTabs line)) [] :=
      ⟨⟨nofun, .nil⟩, _, blank, rfl⟩
    rw [lineLexemes, Scan.ofLine, scan_of_complete complete]
    exact ⟨rfl, rfl⟩
  · rintro ⟨closed, none⟩
    obtain ⟨segments, ⟨-, blanks, blank, whole⟩, lexemes⟩ := exists_complete closed
    obtain rfl : segments = [] := List.map_eq_nil_iff.1 (lexemes.trans none)
    rw [IsTokenless, whole]
    exact blank

/-! ### The first form of a line -/

theorem checkBalance_eq_ok_iff {tokens : List Token} :
    checkBalance 0 tokens = .ok () ↔ Balanced tokens := by
  rw [checkBalance_eq, Balanced, dips_iff, Int.ofNat_zero, Int.zero_add, Int.zero_add, settle]
  by_cases dips : lowest tokens < 0
  · simp [dips]
  · by_cases even : balance tokens = 0 <;> simp [dips, even]

/-- Tokens without a form are none. -/
theorem ofTokens?_eq_none_iff {tokens : List Token} :
    Form.ofTokens? tokens = .ok none ↔ tokens = [] := by
  refine ⟨fun read => ?_, fun none => none ▸ rfl⟩
  cases tokens with
  | nil => rfl
  | cons token rest =>
    rw [Form.ofTokens?_cons] at read
    cases run : Expr.readInside 0 [] (token :: rest) with
    | error e =>
      rw [run] at read
      cases read
    | ok found =>
      cases balance : checkBalance 0 found.2 with
      | error e => simp [run, bind, Except.bind, balance] at read
      | ok => simp [run, bind, Except.bind, balance, pure, Except.pure] at read

/-- The form of tokens is spelled by the first ones, and the parentheses of the others match. -/
theorem ofTokens?_eq_some_iff {tokens : List Token} {form : Form} :
    Form.ofTokens? tokens = .ok (some form) ↔
      ∃ front behind, tokens = front ++ behind ∧ form.expr.Spells front ∧
        form.expr.ShallowAt 0 ∧ Balanced behind ∧ form.trailing = behind.length := by
  constructor
  · intro read
    cases tokens with
    | nil => cases read
    | cons token rest =>
      rw [Form.ofTokens?_cons] at read
      cases run : Expr.readInside 0 [] (token :: rest) with
      | error e =>
        rw [run] at read
        cases read
      | ok found =>
        obtain ⟨expr, behind⟩ := found
        cases balance : checkBalance 0 behind with
        | error e => simp [run, bind, Except.bind, balance] at read
        | ok =>
          have same : some ⟨expr, behind.length⟩ = some form := by
            simpa [run, bind, Except.bind, balance, pure, Except.pure] using read
          cases same
          have nothing : Expr.Spoken 0 [] [] := rfl
          obtain ⟨front, parts, spelled, fits⟩ := Expr.spells_of_readInside nothing run
          exact ⟨front, behind, parts, spelled, fits, checkBalance_eq_ok_iff.1 balance, rfl⟩
  · rintro ⟨front, behind, rfl, spelled, fits, balanced, count⟩
    have run : Expr.readInside 0 [] (front ++ behind) = Expr.deliver 0 form.expr [] behind :=
      Expr.readInside_spelled spelled fits
    have balance := checkBalance_eq_ok_iff.2 balanced
    cases parts : front ++ behind with
    | nil =>
      rw [parts] at run
      cases run
    | cons token rest =>
      rw [Form.ofTokens?_cons, ← parts, run]
      simp [Expr.deliver, bind, Except.bind, balance, pure, Except.pure, ← count]

/-- A line is split by its first form as reading splits it, whatever the ids. -/
theorem firstForm_iff :
    FirstForm line front behind ↔
      (Scan.ofLine (withoutTabs line)).openQuote = none ∧ lineLexemes line = front ++ behind ∧
        ∀ id, ∃ expr, Form.ofTokens? ((lineLexemes line).map (Lexeme.token id)) =
          .ok (some ⟨expr, behind.length⟩) := by
  constructor
  · rintro ⟨⟨segments, complete, parts⟩, spells, balanced⟩
    have scan : Scan.ofLine (withoutTabs line) = ⟨front ++ behind, none⟩ := by
      rw [Scan.ofLine, scan_of_complete complete, parts]
    rw [lineLexemes, scan]
    refine ⟨rfl, rfl, fun id => ?_⟩
    obtain ⟨expr, spelled, fits⟩ := spells id
    exact ⟨expr, ofTokens?_eq_some_iff.2
      ⟨_, _, List.map_append, spelled, fits, balanced id, (List.length_map _).symm⟩⟩
  · rintro ⟨closed, parts, read⟩
    have split : ∀ id, (∃ expr : Expr, expr.Spells (front.map (Lexeme.token id)) ∧
        expr.ShallowAt 0) ∧ Balanced (behind.map (Lexeme.token id)) := by
      intro id
      obtain ⟨expr, found⟩ := read id
      obtain ⟨front', behind', parts', spelled, fits, balanced, count⟩ :=
        ofTokens?_eq_some_iff.1 found
      -- as many tokens stand behind the form as lexemes do
      rw [parts, List.map_append] at parts'
      obtain ⟨rfl, rfl⟩ := List.append_inj' parts' (by rw [List.length_map, ← count])
      exact ⟨⟨expr, spelled, fits⟩, balanced⟩
    obtain ⟨segments, complete, lexemes⟩ := exists_complete closed
    exact ⟨⟨segments, complete, lexemes.trans parts⟩, fun id => (split id).1,
      fun id => (split id).2⟩

/-- A line has one first form at most. -/
theorem FirstForm.unique {front' behind' : List Lexeme} (h : FirstForm line front behind)
    (h' : FirstForm line front' behind') : front = front' ∧ behind = behind' := by
  obtain ⟨-, parts, read⟩ := firstForm_iff.1 h
  obtain ⟨-, parts', read'⟩ := firstForm_iff.1 h'
  obtain ⟨expr, found⟩ := read default
  obtain ⟨expr', found'⟩ := read' default
  rw [found] at found'
  have count : behind.length = behind'.length :=
    congrArg Form.trailing (Option.some.inj (Except.ok.inj found'))
  exact List.append_inj' (parts.symm.trans parts') count

theorem FirstForm.not_isTokenless (h : FirstForm line front behind) : ¬ IsTokenless line := by
  intro blank
  obtain ⟨-, -, read⟩ := firstForm_iff.1 h
  obtain ⟨expr, found⟩ := read default
  rw [(isTokenless_iff.1 blank).2] at found
  cases found

/-! ### The outcome of a line -/

namespace Outcome

/-- The outcome is one that the line can have. -/
def Befits (line : List Char) : Outcome → Prop
  | blank => IsTokenless line
  | unreadable _ | malformed _ =>
    ¬ IsTokenless line ∧ ∀ front behind, ¬ FirstForm line front behind
  | faulty form _ | compiled form _ =>
    ∃ front behind, FirstForm line front behind ∧ form.trailing = behind.length

/-- The outcome of a line befits it, whatever stands in the table. -/
theorem befits_ofLine (numbering : Numbering) (line : List Char) (table : StringTable) :
    (ofLine numbering line table).1.Befits line := by
  cases quote : (Scan.ofLine (withoutTabs line)).openQuote with
  | some column =>
    rw [ofLine_of_open quote]
    refine ⟨fun blank => ?_, fun front behind first => ?_⟩
    · cases quote.symm.trans (isTokenless_iff.1 blank).1
    · cases quote.symm.trans (firstForm_iff.1 first).1
  | none =>
    obtain ⟨reading, run, -⟩ := ofTokens?_token (lineLexemes line)
    rw [ofLine_of_closed quote]
    rcases reading with e | (_ | ⟨d, trailing⟩)
    · simp only [ofTokens, run]
      refine ⟨fun blank => ?_, fun front behind first => ?_⟩
      · have here := run default
        rw [(isTokenless_iff.1 blank).2] at here
        cases here
      · obtain ⟨expr, found⟩ := (firstForm_iff.1 first).2.2 default
        cases (run default).symm.trans found
    · simp only [ofTokens, run]
      refine isTokenless_iff.2 ⟨quote, ?_⟩
      exact List.map_eq_nil_iff.1 (ofTokens?_eq_none_iff.1 (run default))
    · -- the lexemes are split where the tokens are
      obtain ⟨front', behind', parts', -, -, -, count⟩ := ofTokens?_eq_some_iff.1 (run default)
      have few : trailing ≤ (lineLexemes line).length := by
        have all := congrArg List.length parts'
        rw [List.length_map, List.length_append] at all
        have count : trailing = behind'.length := count
        omega
      obtain ⟨front, behind, parts, count⟩ :
          ∃ front behind, lineLexemes line = front ++ behind ∧ trailing = behind.length :=
        ⟨_, _, (List.take_append_drop ((lineLexemes line).length - trailing) _).symm, by
          rw [List.length_drop]
          omega⟩
      have first : FirstForm line front behind := firstForm_iff.2
        ⟨quote, parts, fun id => ⟨d.expr id, by rw [run, ← count]; rfl⟩⟩
      simp only [ofTokens, run, Except.map, Option.map_some]
      split
      · exact ⟨front, behind, first, count⟩
      · exact ⟨front, behind, first, count⟩

/-- What is reported about a line that makes no block. -/
theorem errors_eq {outcome : Outcome} {message : String} (fault : outcome.fault? = some message)
    (location : Location) : outcome.errors location = [⟨.error, location, message⟩] := by
  rw [errors, fault]
  rfl

end Outcome

/-- The warning about lexemes behind the first form of a line; lines are counted from 0 here. -/
def surplus (position : Nat) (behind : List Lexeme) : List Diagnostic :=
  if behind = [] then []
  else [⟨.warning, .line (position + 1),
    s!"{behind.length} token(s) after the first form ignored"⟩]

/-- What is reported about a line whose errors are known: the warning about what stands behind its
first form comes first, if it has one. -/
structure Reported (line : List Char) (position : Nat) (errors reports : List Diagnostic) :
    Prop where
  warned : ∀ front behind, FirstForm line front behind →
    reports = surplus position behind ++ errors
  plain : (∀ front behind, ¬ FirstForm line front behind) → reports = errors

namespace Outcome

variable {outcome : Outcome}

/-- The reports of an outcome are those of a line that it befits. -/
theorem Befits.reported (befits : outcome.Befits line) (token : ¬ IsTokenless line)
    (position : Nat) :
    Reported line position (outcome.errors (.line (position + 1)))
      (outcome.diagnostics (.line (position + 1))) := by
  have formed : ∀ form, outcome.form? = some form →
      (∃ front behind, FirstForm line front behind ∧ form.trailing = behind.length) →
      Reported line position (outcome.errors (.line (position + 1)))
        (outcome.diagnostics (.line (position + 1))) := by
    rintro form found ⟨front, behind, first, count⟩
    refine ⟨fun front' behind' first' => ?_, fun none => absurd first (none front behind)⟩
    obtain ⟨-, rfl⟩ := first.unique first'
    rw [diagnostics, warnings, found, surplus]
    simp only [count, List.length_eq_zero_iff]
  cases outcome with
  | blank => exact absurd befits token
  | unreadable e | malformed e =>
    exact ⟨fun front behind first => absurd first (befits.2 front behind), fun _ => rfl⟩
  | faulty form e | compiled form block => exact formed form rfl befits

theorem severity_of_warnings {location : Location} {d : Diagnostic}
    (mem : d ∈ outcome.warnings location) : d.severity = .warning := by
  unfold warnings at mem
  split at mem
  · cases mem
  · split at mem
    · cases mem
    · rw [List.mem_singleton.1 mem]

/-- An outcome counts once: as a line without tokens, as a block, or as an error. -/
theorem Befits.count (befits : outcome.Befits line) (location : Location) :
    outcome.block?.toList.length +
      (outcome.diagnostics location).countP (·.severity = .error) +
      [line].countP (IsTokenless ·) = 1 := by
  have noErrors : (outcome.warnings location).countP (·.severity = .error) = 0 := by
    refine List.countP_eq_zero.2 fun d mem => ?_
    simp [severity_of_warnings mem]
  rw [diagnostics, List.countP_append, noErrors, List.countP_singleton]
  cases outcome with
  | blank =>
    have here : IsTokenless line := befits
    rw [if_pos (decide_eq_true here)]
    rfl
  | unreadable e | malformed e =>
    rw [if_neg (by simpa using befits.1), errors_eq rfl]
    rfl
  | faulty form e =>
    obtain ⟨front, behind, first, -⟩ := befits
    rw [if_neg (by simpa using first.not_isTokenless), errors_eq rfl]
    rfl
  | compiled form block =>
    obtain ⟨front, behind, first, -⟩ := befits
    rw [if_neg (by simpa using first.not_isTokenless)]
    rfl

/-- Each line has the outcome that it has with some table. -/
theorem ofLines_forall₂ (numbering : Numbering) (lines : List (List Char)) (table : StringTable) :
    List.Forall₂ (fun line outcome => ∃ table, outcome = (ofLine numbering line table).1) lines
      (ofLines numbering lines table).1 := by
  induction lines generalizing table with
  | nil => exact .nil
  | cons line rest ih => exact .cons ⟨table, rfl⟩ (ih _)

end Outcome

/-! ### What a unit holds of its lines -/

/-- A list by its positions. -/
theorem map_getElem?_range {α : Type} (l : List α) :
    (List.range l.length).map (l[·]?) = l.map some := by
  refine List.ext_getElem? fun i => ?_
  rw [List.getElem?_map, List.getElem?_map]
  by_cases inside : i < l.length
  · simp [inside]
  · simp [inside]

/-- What is made of the entries of a list and their numbers, by positions. -/
theorem flatMap_zipIdx {α β : Type} (f : α → Nat → List β) (l : List α) (first : Nat) :
    ((l.zipIdx first).flatMap fun entry => f entry.1 entry.2) =
      (List.range l.length).flatMap fun i => l[i]?.toList.flatMap fun a => f a (first + i) := by
  induction l generalizing first with
  | nil => rfl
  | cons a rest ih =>
    rw [List.zipIdx_cons, List.flatMap_cons, ih, List.length_cons, List.range_succ_eq_map,
      List.flatMap_cons, List.flatMap_map]
    simp [Nat.add_comm 1, Nat.add_assoc]

/-- What is made of one entry can be picked out, if it shows the number. -/
theorem filter_flatMap_zipIdx {α β : Type} {p : Nat → β → Bool} {f : α → Nat → List β}
    (own : ∀ a k, ∀ b ∈ f a k, ∀ n, p n b = decide (k = n)) (l : List α) (first i : Nat) :
    ((l.zipIdx first).flatMap fun entry => f entry.1 entry.2).filter (p (first + i)) =
      l[i]?.toList.flatMap fun a => f a (first + i) := by
  have kept : ∀ a k, (f a k).filter (p k) = f a k := fun a k =>
    List.filter_eq_self.2 fun b mem => by rw [own a k b mem, decide_eq_true rfl]
  have dropped : ∀ a k n, k ≠ n → (f a k).filter (p n) = [] := fun a k n other =>
    List.filter_eq_nil_iff.2 fun b mem => by simp [own a k b mem, other]
  induction l generalizing first i with
  | nil => simp
  | cons a rest ih =>
    rw [List.zipIdx_cons, List.flatMap_cons, List.filter_append]
    cases i with
    | zero =>
      have behind : ((rest.zipIdx (first + 1)).flatMap fun entry => f entry.1 entry.2).filter
          (p (first + 0)) = [] := by
        rw [List.filter_flatMap, List.flatMap_eq_nil_iff]
        rintro ⟨b, k⟩ mem
        have later := (List.mem_zipIdx mem).1
        exact dropped b k _ (by omega)
      rw [behind, List.append_nil, Nat.add_zero, kept]
      simp
    | succ i =>
      have next := ih (first + 1) i
      rw [dropped a first _ (by omega), List.nil_append,
        show first + (i + 1) = first + 1 + i by omega, next]
      rfl

namespace ScriptUnit

/-- The block of a line, by its position. -/
def blockOf (unit : ScriptUnit) (position : Nat) : Option Block :=
  unit.outcomes[position]?.bind Outcome.block?

/-- What a unit reports about a line, by its position. -/
def reportsOf (unit : ScriptUnit) (position : Nat) : List Diagnostic :=
  unit.diagnostics.filter (·.location = .line (position + 1))

theorem reportsOf_eq (unit : ScriptUnit) (position : Nat) :
    unit.reportsOf position = unit.outcomes[position]?.toList.flatMap
      fun outcome => outcome.diagnostics (.line (position + 1)) := by
  -- a report shows its line, so those about one line can be told from the others
  let told (outcome : Outcome) (k : Nat) := outcome.diagnostics (.line k)
  have own : ∀ outcome k, ∀ d ∈ told outcome k, ∀ n,
      decide (d.location = .line n) = decide (k = n) := by
    intro outcome k d mem n
    rw [Outcome.location_of_diagnostics mem]
    exact decide_eq_decide.2 ⟨Location.line.inj, congrArg _⟩
  rw [reportsOf, Nat.add_comm position]
  exact filter_flatMap_zipIdx own unit.outcomes 1 position

theorem blocks_eq (unit : ScriptUnit) :
    unit.blocks = (List.range unit.outcomes.length).filterMap unit.blockOf := by
  have positions := congrArg (List.filterMap (Option.bind · Outcome.block?))
    (map_getElem?_range unit.outcomes)
  rw [List.filterMap_map, List.filterMap_map] at positions
  exact positions.symm

theorem diagnostics_eq (unit : ScriptUnit) :
    unit.diagnostics = (List.range unit.outcomes.length).flatMap unit.reportsOf := by
  simp only [funext unit.reportsOf_eq, Nat.add_comm _ 1]
  exact flatMap_zipIdx (fun (outcome : Outcome) k => outcome.diagnostics (.line k)) unit.outcomes 1

end ScriptUnit

/-- What can become of a line. -/
inductive Fate where
  | tokenless
  | compiled
  | skipped

/-- What becomes of the line at a position, by what the unit holds of it. -/
def Fate.Holds (numbering : Numbering) (unit : ScriptUnit) (line : List Char) (position : Nat) :
    Fate → Prop
  | tokenless =>
    IsTokenless line ∧ unit.blockOf position = none ∧ unit.reportsOf position = []
  | compiled =>
    (∃ d, LineHas numbering line d) ∧ (∃ front behind, FirstForm line front behind) ∧
      (∃ block, unit.blockOf position = some block) ∧
        Reported line position [] (unit.reportsOf position)
  | skipped =>
    (∀ d, ¬ LineHas numbering line d) ∧ unit.blockOf position = none ∧
      ∃ message, Reported line position [⟨.error, .line (position + 1), message⟩]
        (unit.reportsOf position)

namespace Fate

variable {numbering : Numbering} {unit : ScriptUnit} {position : Nat} {fate other : Fate}

/-- A line that is reported has some report if it has errors. -/
theorem ne_nil_of_reported {errors reports : List Diagnostic}
    (h : Reported line position errors reports) (some : errors ≠ []) : reports ≠ [] := by
  by_cases formed : ∃ front behind, FirstForm line front behind
  · obtain ⟨front, behind, first⟩ := formed
    rw [h.warned front behind first]
    exact List.append_ne_nil_of_right_ne_nil _ some
  · rw [h.plain fun front behind first => formed ⟨front, behind, first⟩]
    exact some

theorem eq_compiled_iff (h : fate.Holds numbering unit line position) :
    fate = compiled ↔ unit.blockOf position ≠ none := by
  cases fate with
  | tokenless => exact ⟨nofun, absurd h.2.1⟩
  | compiled =>
    obtain ⟨-, -, ⟨block, made⟩, -⟩ := h
    exact ⟨fun _ none => (nomatch made.symm.trans none), fun _ => rfl⟩
  | skipped => exact ⟨nofun, absurd h.2.1⟩

theorem eq_skipped_iff (h : fate.Holds numbering unit line position) :
    fate = skipped ↔ unit.blockOf position = none ∧ unit.reportsOf position ≠ [] := by
  cases fate with
  | tokenless => exact ⟨nofun, fun some => absurd h.2.2 some.2⟩
  | compiled =>
    obtain ⟨-, -, ⟨block, made⟩, -⟩ := h
    exact ⟨nofun, fun none => (nomatch made.symm.trans none.1)⟩
  | skipped =>
    obtain ⟨-, none, message, reported⟩ := h
    exact ⟨fun _ => ⟨none, ne_nil_of_reported reported (List.cons_ne_nil _ _)⟩, fun _ => rfl⟩

/-- The unit shows what became of a line, by its block and its reports. -/
theorem unique (h : fate.Holds numbering unit line position)
    (h' : other.Holds numbering unit line position) : fate = other := by
  have compiled_iff : fate = compiled ↔ other = compiled :=
    (eq_compiled_iff h).trans (eq_compiled_iff h').symm
  have skipped_iff : fate = skipped ↔ other = skipped :=
    (eq_skipped_iff h).trans (eq_skipped_iff h').symm
  cases fate with
  | compiled => exact (compiled_iff.1 rfl).symm
  | skipped => exact (skipped_iff.1 rfl).symm
  | tokenless =>
    cases other with
    | tokenless => rfl
    | compiled => exact compiled_iff.2 rfl
    | skipped => exact skipped_iff.2 rfl

end Fate

namespace ScriptUnit

/-- What becomes of a line that has the given outcome. -/
theorem exists_fate {numbering : Numbering} {unit : ScriptUnit} {position : Nat}
    {outcome : Outcome} {table : StringTable} (at_ : unit.outcomes[position]? = some outcome)
    (ofLine : outcome = (Outcome.ofLine numbering line table).1) :
    ∃ fate : Fate, fate.Holds numbering unit line position := by
  have befits : outcome.Befits line := ofLine ▸ Outcome.befits_ofLine numbering line table
  have block : unit.blockOf position = outcome.block? := by
    rw [blockOf, at_]
    rfl
  have reports : unit.reportsOf position = outcome.diagnostics (.line (position + 1)) := by
    rw [reportsOf_eq, at_]
    exact List.flatMap_singleton _ _
  by_cases token : IsTokenless line
  · cases outcome with
    | blank => exact ⟨.tokenless, token, block, reports⟩
    | unreadable e | malformed e => exact absurd token befits.1
    | faulty form e | compiled form made =>
      obtain ⟨front, behind, first, -⟩ := befits
      exact absurd token first.not_isTokenless
  · have reported := befits.reported token position
    rw [← reports] at reported
    cases fault : outcome.fault? with
    | some message =>
      rw [Outcome.errors_eq fault] at reported
      have skipped : outcome.block? = none := by
        cases outcome <;> first | rfl | cases fault
      exact ⟨.skipped, not_has_of_skipped (ofLine ▸ skipped), block.trans skipped, message,
        reported⟩
    | none =>
      cases outcome with
      | blank => exact absurd befits token
      | unreadable e | malformed e | faulty form e => cases fault
      | compiled form made =>
        obtain ⟨front, behind, first, -⟩ := befits
        have has : ∃ d, LineHas numbering line d :=
          exists_has_of_compiled (congrArg (·.block?.isSome) ofLine).symm
        exact ⟨.compiled, has, ⟨front, behind, first⟩, ⟨made, block⟩, reported⟩

/-- All lines of a list of outcomes are counted. -/
theorem count_of_forall₂ {lines : List (List Char)} {outcomes : List Outcome}
    (befit : List.Forall₂ (fun line (outcome : Outcome) => outcome.Befits line) lines outcomes)
    (first : Nat) :
    (outcomes.filterMap Outcome.block?).length +
      ((outcomes.zipIdx first).flatMap fun (outcome, number) =>
        outcome.diagnostics (.line number)).countP (·.severity = .error) +
      lines.countP (IsTokenless ·) = lines.length := by
  induction befit generalizing first with
  | nil => rfl
  | @cons line outcome lines outcomes befits _ ih =>
    -- the number of a line has no part in what it counts
    have here := befits.count (.line first)
    have rest := ih (first + 1)
    have blocks : ((outcome :: outcomes).filterMap Outcome.block?).length =
        outcome.block?.toList.length + (outcomes.filterMap Outcome.block?).length := by
      cases made : outcome.block? <;> simp [made, Nat.add_comm]
    rw [List.zipIdx_cons, List.flatMap_cons, List.countP_append, blocks, List.length_cons,
      ← List.singleton_append, List.countP_append]
    dsimp only at rest ⊢
    omega

/-- Each line has no tokens and leaves nothing, or makes one block, or is skipped for one error; a
warning comes first if and only if its first form is read and something stands behind it.  The
blocks and reports of the unit are those of its lines, one after the other, so that every line
counts as a block, as an error, or as a line without tokens. -/
theorem accounts_of_compile (numbering : Numbering) (source : String) :
    (∀ position line, (Text.lines source.toList)[position]? = some line →
      ∃! fate : Fate, fate.Holds numbering (compile numbering source) line position) ∧
    (compile numbering source).blocks =
      (List.range (Text.lines source.toList).length).filterMap
        (compile numbering source).blockOf ∧
    (compile numbering source).diagnostics =
      (List.range (Text.lines source.toList).length).flatMap
        (compile numbering source).reportsOf ∧
    (∀ d ∈ (compile numbering source).diagnostics, ∃ number, d.location = .line number ∧
      1 ≤ number ∧ number ≤ (Text.lines source.toList).length) ∧
    ((compile numbering source).diagnostics.Pairwise fun first second =>
      ∃ k l, k ≤ l ∧ first.location = .line k ∧ second.location = .line l) ∧
    (compile numbering source).blocks.length +
        (compile numbering source).diagnostics.countP (·.severity = .error) +
        (Text.lines source.toList).countP (IsTokenless ·) =
      (Text.lines source.toList).length := by
  have each := Outcome.ofLines_forall₂ numbering (Text.lines source.toList) .empty
  have number : (compile numbering source).outcomes.length = (Text.lines source.toList).length :=
    each.length_eq.symm
  refine ⟨?_, ?_, ?_, fun d mem => location_of_compile mem, pairwise_diagnosticsAt _ _, ?_⟩
  · intro position line at_
    obtain ⟨inside, rfl⟩ := List.getElem?_eq_some_iff.1 at_
    obtain ⟨table, outcome⟩ := each.get inside (number ▸ inside)
    have at_ : (compile numbering source).outcomes[position]? = some _ :=
      List.getElem?_eq_getElem (number ▸ inside)
    obtain ⟨fate, holds⟩ := exists_fate at_ outcome
    exact ⟨fate, holds, fun other holds' => Fate.unique holds' holds⟩
  · rw [← number]
    exact blocks_eq _
  · rw [← number]
    exact diagnostics_eq _
  · refine count_of_forall₂ (each.imp ?_) 1
    rintro line outcome ⟨table, rfl⟩
    exact Outcome.befits_ofLine numbering line table

end ScriptUnit

end Libretto.Script
