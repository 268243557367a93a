/-
Opcode definitions that nothing closes.

The closing parenthesis of a definition only ends it: what stands behind is passed over, and where
there is none the line ends the definition.  So a text is read alike with and without it:

* **`Unclosed`** — a line opens a definition and does not close it;
* **`Closes`** — the parenthesis is put behind such a line, or the line is left as it is;
* **`Closes.defines_iff`** — a line defines the same before and after;
* **`ofText_eq_ok_of_same`** — texts whose lines define the same are read alike;
* **`ofText_of_unclosed`** — hence an unclosed line is rejected if and only if the closed one is,
  and always if what stands on it up to its end is no definition;
* **`unclosed_line_accepted`** — but not merely for being unclosed.
-/
import Libretto.Proofs.Opcode.Acceptance

namespace Libretto

namespace Definitions

/-- A line that opens a definition and does not close it. -/
def Unclosed (line : List Char) : Prop :=
  opens line = true ∧ ')' ∉ line

instance (line : List Char) : Decidable (Unclosed line) :=
  inferInstanceAs (Decidable (_ ∧ _))

/-- A line and what it may become: an unclosed one can be closed at its end. -/
inductive Closes : List Char → List Char → Prop where
  | same (line : List Char) : Closes line line
  | close {line : List Char} (unclosed : Unclosed line) : Closes line (line ++ [')'])

/-- The fields of an unclosed line reach to its end. -/
theorem Unclosed.hasFields_iff {line name value : List Char} (unclosed : Unclosed line) :
    HasFields line name value ↔ ∃ front back, line = opening ++ (front ++ ',' :: back) ∧
      ',' ∉ front ∧ name = Text.trim front ∧ value = Text.trim back := by
  constructor
  · rintro ⟨front, back, behind, rfl, -, ends, rest⟩
    obtain rfl : behind = [] := by
      rcases behind with _ | ⟨c, behind⟩
      · rfl
      · obtain rfl := ends c rfl
        exact absurd (by simp) unclosed.2
    exact ⟨front, back, by rw [List.append_nil], rest⟩
  · rintro ⟨front, back, rfl, rest⟩
    have inside : ')' ∉ front ++ ',' :: back :=
      fun mem => unclosed.2 (List.mem_append_right _ mem)
    exact ⟨front, back, [], by rw [List.append_nil], inside, by simp, rest⟩

/-- Closing a line leaves its fields as they are. -/
theorem Unclosed.hasFields_close_iff {line name value : List Char} (unclosed : Unclosed line) :
    HasFields (line ++ [')']) name value ↔ HasFields line name value := by
  obtain ⟨body, found⟩ := opens_iff.1 unclosed.1
  obtain rfl := body?_eq_some_iff.1 found
  have inside : ')' ∉ body := fun mem => unclosed.2 (List.mem_append_right _ mem)
  have closed : body? (opening ++ body ++ [')']) = some (body ++ [')']) :=
    body?_eq_some_iff.2 (List.append_assoc _ _ _)
  -- the body is cut in front of its first parenthesis
  have cut : fields? (body ++ [')']) = fields? body := by
    have here : (body ++ []).takeWhile (· ≠ ')') = body := (Text.takeWhile_ne inside (by simp)).1
    rw [List.append_nil] at here
    rw [fields?, fields?, (Text.takeWhile_ne inside (by simp)).1, here]
  rw [Definitions.hasFields_iff, Definitions.hasFields_iff]
  simp only [found, closed, Option.some_inj, exists_eq_left', cut]

theorem Closes.opens_eq {line closed : List Char} (h : Closes line closed) :
    opens line = opens closed := by
  cases h with
  | same => rfl
  | close unclosed =>
    obtain ⟨body, found⟩ := opens_iff.1 unclosed.1
    rw [unclosed.1, opens_iff.2 ⟨body ++ [')'], body?_eq_some_iff.2 ?_⟩]
    rw [body?_eq_some_iff.1 found, List.append_assoc]

theorem Closes.defines_iff {line closed : List Char} (h : Closes line closed) {op : Opcode}
    {word : UInt32} : Defines line op word ↔ Defines closed op word := by
  cases h with
  | same => rfl
  | close unclosed =>
    refine exists_congr fun value => ?_
    rw [unclosed.hasFields_close_iff]

/-- Lines that define the same: what is said of one is said of the other. -/
def SameDefinition (line other : List Char) : Prop :=
  opens line = opens other ∧ ∀ op word, Defines line op word ↔ Defines other op word

theorem Closes.sameDefinition {line closed : List Char} (h : Closes line closed) :
    SameDefinition line closed :=
  ⟨h.opens_eq, fun _ _ => h.defines_iff⟩

theorem SameDefinition.symm {line other : List Char} (h : SameDefinition line other) :
    SameDefinition other line :=
  ⟨h.1.symm, fun op word => (h.2 op word).symm⟩

/-- The entries of lines are those of lines that define the same. -/
theorem forall₂_of_same {lines others : List (List Char)} {entries : List (Opcode × UInt32)}
    (same : List.Forall₂ SameDefinition lines others)
    (each : List.Forall₂ (fun line entry => Defines line entry.1 entry.2) (lines.filter opens)
      entries) :
    List.Forall₂ (fun line entry => Defines line entry.1 entry.2) (others.filter opens)
      entries := by
  induction same generalizing entries with
  | nil => exact each
  | @cons line other lines others here _ ih =>
    cases begins : opens line with
    | false =>
      rw [List.filter_cons_of_neg (by simp [begins])] at each
      rw [List.filter_cons_of_neg (by simp [← here.1, begins])]
      exact ih each
    | true =>
      rw [List.filter_cons_of_pos begins] at each
      rw [List.filter_cons_of_pos (here.1 ▸ begins)]
      cases each with
      | cons defines rest => exact .cons ((here.2 _ _).1 defines) (ih rest)

end Definitions

namespace Numbering

open Definitions

/-- A text is read as a numbering if its lines define the same as those of a text that is. -/
theorem ofText_eq_ok_of_same {text other : String} {numbering : Numbering}
    (same : List.Forall₂ SameDefinition (linesOf text) (linesOf other))
    (read : ofText text = .ok numbering) : ofText other = .ok numbering := by
  obtain ⟨entries, each, rest⟩ := ofText_eq_ok_iff.1 read
  exact ofText_eq_ok_iff.2 ⟨entries, forall₂_of_same same each, rest⟩

theorem ofText_eq_ok_iff_of_closes {text other : String}
    (closes : List.Forall₂ Closes (linesOf text) (linesOf other)) {numbering : Numbering} :
    ofText text = .ok numbering ↔ ofText other = .ok numbering := by
  have same := closes.imp fun _ _ => Closes.sameDefinition
  exact ⟨ofText_eq_ok_of_same same, ofText_eq_ok_of_same (same.imp fun _ _ => .symm).flip⟩

/-- A line that opens a definition and is none is never accepted. -/
theorem exists_error_of_unfit {text : String} {line : List Char} (mem : line ∈ linesOf text)
    (begins : opens line = true) (unfit : ∀ op word, ¬ Defines line op word) :
    ∃ e, ofText text = .error e := by
  cases read : ofText text with
  | error e => exact ⟨e, rfl⟩
  | ok numbering =>
    obtain ⟨entries, each, -⟩ := ofText_eq_ok_iff.1 read
    obtain ⟨front, back, split⟩ :=
      List.append_of_mem (List.mem_filter.2 ⟨mem, begins⟩ : line ∈ (linesOf text).filter opens)
    rw [split] at each
    obtain ⟨-, entry, -, -, -, defines⟩ := exists_split_of_forall₂ each
    exact absurd defines (unfit entry.1 entry.2)

/-- The line that is written for an opcode defines it. -/
theorem defines_line (numbering : Numbering) (op : Opcode) :
    Defines (numbering.line op) op (numbering.word op) := by
  have digits := Numeral.isPlain_decimal (numbering.word op).toNat
  exact ⟨_, hasFields_iff.2 ⟨_, body?_eq_some_iff.2 rfl, fields?_body op.isPlain_name digits⟩,
    Numeral.readWord_eq_ok_iff.1 (Numeral.readWord_decimal _)⟩

theorem map_trim_line (numbering : Numbering) (ops : List Opcode) :
    (ops.map numbering.line).map Text.trim = ops.map numbering.line := by
  rw [List.map_map]
  exact congrArg (ops.map ·) (funext numbering.trim_line)

theorem linesOf_definitionLines (numbering : Numbering) (ops : List Opcode) :
    linesOf (String.join (ops.map numbering.definitionLine)) = ops.map numbering.line := by
  rw [linesOf, lines_definitionLines, map_trim_line]

/-- The lines of a numbering are read as it, closed or not. -/
theorem ofText_of_lines {text : String} {numbering : Numbering}
    (closes : List.Forall₂ Closes (linesOf text) (Opcode.all.map numbering.line)) :
    ofText text = .ok numbering := by
  have same := (closes.imp fun _ _ h => h.sameDefinition.symm).flip
  have each : List.Forall₂ (fun line entry => Defines line entry.1 entry.2)
      ((Opcode.all.map numbering.line).filter opens) (Opcode.all.map (entry numbering)) := by
    rw [List.filter_eq_self.2]
    · rw [List.forall₂_map_left_iff, List.forall₂_map_right_iff, List.forall₂_same]
      exact fun op _ => numbering.defines_line op
    · intro line mem
      obtain ⟨op, -, rfl⟩ := List.mem_map.1 mem
      exact (numbering.defines_line op).opens
  have different : Opcode.all.Nodup := by decide
  refine ofText_eq_ok_iff.2 ⟨_, forall₂_of_same same each, ?_, ?_, ?_⟩
  · intro op
    have names : (Opcode.all.map (entry numbering)).map Prod.fst = Opcode.all := by
      rw [List.map_map]
      exact List.map_id Opcode.all
    rw [names]
    exact List.count_eq_one_of_mem different op.mem_all
  · rw [List.map_map]
    exact different.map numbering.word_injective
  · intro entry mem
    obtain ⟨op, -, rfl⟩ := List.mem_map.1 mem
    rfl

/-- The lines of the standard numbering, the last one without its parenthesis. -/
def unclosedText : String :=
  String.join (Opcode.all.dropLast.map standard.definitionLine) ++ "PLOP_OP(LGET, 128"

/-- The last line of `unclosedText`. -/
def unclosedLine : List Char :=
  "PLOP_OP(LGET, 128".toList

theorem unclosed_unclosedLine : Unclosed unclosedLine := by
  decide +kernel

theorem linesOf_unclosedText :
    linesOf unclosedText = Opcode.all.dropLast.map standard.line ++ [unclosedLine] := by
  have last : (Text.lines unclosedLine).map Text.trim = [unclosedLine] := by decide +kernel
  rw [linesOf, unclosedText, String.toList_append, lines_definitionLines_append, List.map_append,
    map_trim_line]
  exact congrArg _ last

theorem closes_unclosedText : List.Forall₂ Closes (linesOf unclosedText)
    (linesOf (String.join (Opcode.all.map standard.definitionLine))) := by
  have all : Opcode.all.map standard.line =
      Opcode.all.dropLast.map standard.line ++ [unclosedLine ++ [')']] := by decide +kernel
  rw [linesOf_unclosedText, linesOf_definitionLines, all]
  refine List.rel_append (List.forall₂_same.2 fun line _ => .same line) ?_
  exact .cons (.close unclosed_unclosedLine) .nil

/-- A line that nothing closes is a definition that ends with the line.  If it is no definition, the
text is rejected, whatever its other lines are; and a text is accepted with such lines exactly if it
is with any of them closed. -/
theorem ofText_of_unclosed (text : String) :
    (∀ line ∈ linesOf text, Unclosed line →
      (∀ front back (op : Opcode) word, line = opening ++ (front ++ ',' :: back) →
        Text.trim front = op.name.toList → ¬ Numeral.SaysWord (Text.trim back) word) →
      ∃ e, ofText text = .error e) ∧
    ∀ other, List.Forall₂ Closes (linesOf text) (linesOf other) →
      ∀ numbering, ofText text = .ok numbering ↔ ofText other = .ok numbering := by
  refine ⟨?_, fun other closes numbering => ofText_eq_ok_iff_of_closes closes⟩
  intro line mem unclosed unfit
  refine exists_error_of_unfit mem unclosed.1 ?_
  rintro op word ⟨value, fields, number⟩
  obtain ⟨front, back, same, -, name, rfl⟩ := unclosed.hasFields_iff.1 fields
  exact unfit front back op word same name.symm number

/-- A line without a comma, and a complete text whose last line is not closed. -/
theorem ofText_of_unclosed_last :
    ("PLOP_OP(LGET 128".toList ∈ linesOf "PLOP_OP(LGET 128" ∧ Unclosed "PLOP_OP(LGET 128".toList ∧
        ∃ e, ofText "PLOP_OP(LGET 128" = .error e) ∧
      List.Forall₂ Closes (linesOf unclosedText)
        (linesOf (String.join (Opcode.all.map standard.definitionLine))) ∧
      ∀ numbering, ofText unclosedText = .ok numbering ↔
        ofText (String.join (Opcode.all.map standard.definitionLine)) = .ok numbering := by
  have mem : "PLOP_OP(LGET 128".toList ∈ linesOf "PLOP_OP(LGET 128" := by decide +kernel
  have unclosed : Unclosed "PLOP_OP(LGET 128".toList := by decide +kernel
  have noComma : ',' ∉ "PLOP_OP(LGET 128".toList := by decide +kernel
  refine ⟨⟨mem, unclosed, (ofText_of_unclosed _).1 _ mem unclosed ?_⟩, closes_unclosedText,
    (ofText_of_unclosed _).2 _ closes_unclosedText⟩
  intro front back op word same
  rw [same] at noComma
  exact absurd (by simp) noComma

/-- A complete text whose last line is not closed is accepted. -/
theorem unclosed_line_accepted :
    (∃ line ∈ linesOf unclosedText, Unclosed line) ∧ ofText unclosedText = .ok standard := by
  have mem : unclosedLine ∈ linesOf unclosedText := by
    rw [linesOf_unclosedText]
    exact List.mem_append_right _ (List.mem_singleton.2 rfl)
  refine ⟨⟨unclosedLine, mem, unclosed_unclosedLine⟩, ofText_of_lines ?_⟩
  rw [← linesOf_definitionLines]
  exact closes_unclosedText

end Numbering

end Libretto
