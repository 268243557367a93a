/-
Lines by themselves.

The only thing that one line leaves to the next is the string table, and what becomes of a line does
not depend on it:

* **`LineHas`** — the datum of a line, by its lexemes alone;
* **`Finds`** — what becomes of a line, whatever stands in the table: a datum that compiles, or
  none;
* **`finds_of_has`** — every line finds its datum, if it has one;
* **`ofLine_grows`** — a line adds only texts that stand in it to the table.
-/
import Libretto.Proofs.Code.Block
import Libretto.Proofs.Code.Compilation
import Libretto.Proofs.Script.Form
import Libretto.Proofs.Script.Scan
import Libretto.Script.Unit

namespace Libretto.Script

/-- The lexemes of a line of a source. -/
def lineLexemes (line : List Char) : List Lexeme :=
  (Scan.ofLine (Outcome.withoutTabs line)).lexemes

/-- The texts of the literals and words in a line. -/
def lineTexts (line : List Char) : List String :=
  (lineLexemes line).filterMap Lexeme.text?

/-- The table when the literals of a line stand in it. -/
def tableOfLine (line : List Char) (table : StringTable) : StringTable :=
  table.insertAll (Scan.ofLine (Outcome.withoutTabs line)).quoted

namespace Outcome

/-- The form that was compiled. -/
def compiled? : Outcome → Option Form
  | compiled form _ => some form
  | _ => none

/-- The outcome of a line that compiles, in a unit with the given table: a form with the given
datum, and a block that holds it. -/
structure Gives (outcome : Outcome) (numbering : Numbering) (table : StringTable) (d : Datum) :
    Prop where
  compiled : ∃ trailing block, outcome = .compiled ⟨d.expr table.idOf, trailing⟩ block ∧
    block.Holds numbering table d
  literals : ∀ text, .quoted text ∈ d.lexemes → text ∈ table.texts

theorem Gives.mono {outcome : Outcome} {numbering : Numbering} {table later : StringTable}
    {d : Datum} (h : outcome.Gives numbering table d) (le : table ≤ later) :
    outcome.Gives numbering later d := by
  obtain ⟨⟨trailing, block, rfl, holds⟩, literals⟩ := h
  have same : d.expr table.idOf = d.expr later.idOf := Datum.expr_congr fun text mem =>
    (StringTable.idOf_of_le le (literals text mem)).symm
  exact ⟨⟨trailing, block, by rw [same], holds.mono le⟩,
    fun text mem => StringTable.mem_of_le le (literals text mem)⟩

/-- The outcome shows a datum that compiled, or that none did. -/
def Shows (outcome : Outcome) (numbering : Numbering) (table : StringTable) :
    Option Datum → Prop
  | some d => outcome.Gives numbering table d
  | none => outcome.block? = none

/-- What a line finds, whatever stands in the table: a datum that compiles, or none. -/
def Finds (numbering : Numbering) (line : List Char) (found : Option Datum) : Prop :=
  ∀ table, (ofLine numbering line table).1.Shows numbering (ofLine numbering line table).2 found

end Outcome

/-- The datum that lexemes read as, whatever ids their literals have. -/
def Reads (lexemes : List Lexeme) (d : Datum) : Prop :=
  ∀ id : String → StringId,
    (Form.ofTokens? (lexemes.map (Lexeme.token id))).map (Option.map Form.expr) =
      .ok (some (d.expr id))

theorem Reads.unique {lexemes : List Lexeme} {d other : Datum} (h : Reads lexemes d)
    (h' : Reads lexemes other) : d = other :=
  Datum.eq_of_forall_expr fun id => Option.some.inj (Except.ok.inj ((h id).symm.trans (h' id)))

/-- A datum whose expressions compile. -/
def Datum.Compiles (numbering : Numbering) (d : Datum) : Prop :=
  ∃ block, ((d.expr default).compile numbering .empty).1 = .ok block

/-- A line whose form has the given datum, and compiles. -/
structure LineHas (numbering : Numbering) (line : List Char) (d : Datum) : Prop where
  closed : (Scan.ofLine (Outcome.withoutTabs line)).openQuote = none
  reads : Reads (lineLexemes line) d
  compiles : d.Compiles numbering

namespace Outcome

variable {numbering : Numbering}

/-- A line with an open quote finds nothing. -/
theorem ofLine_of_open {line : List Char} {column : Nat}
    (h : (Scan.ofLine (withoutTabs line)).openQuote = some column) (table : StringTable) :
    ofLine numbering line table = (unreadable (.unterminated column), tableOfLine line table) := by
  simp [ofLine, tokenize, h, tableOfLine]

/-- A line without an open quote is read from its lexemes. -/
theorem ofLine_of_closed {line : List Char}
    (h : (Scan.ofLine (withoutTabs line)).openQuote = none) (table : StringTable) :
    ofLine numbering line table =
      ofTokens numbering ((lineLexemes line).map (Lexeme.token (tableOfLine line table).idOf))
        (tableOfLine line table) := by
  simp [ofLine, tokenize, h, tableOfLine, lineLexemes, Token.ofLexeme]

theorem mem_tableOfLine {line : List Char} {text : String} (mem : .quoted text ∈ lineLexemes line)
    (table : StringTable) : text ∈ (tableOfLine line table).texts :=
  StringTable.mem_insertAll (List.mem_filterMap.2 ⟨_, mem, rfl⟩)

/-- The outcome of a form that compiles. -/
theorem gives_of_compile {d : Datum} {table later : StringTable} {block : Block} (trailing : Nat)
    (literals : ∀ text, .quoted text ∈ d.lexemes → text ∈ table.texts)
    (h : (d.expr table.idOf).compile numbering table = (.ok block, later)) :
    (compiled ⟨d.expr table.idOf, trailing⟩ block).Gives numbering later d := by
  obtain ⟨le, holds⟩ := Expr.compile_holds literals h
  have same : d.expr table.idOf = d.expr later.idOf := Datum.expr_congr fun text mem =>
    (StringTable.idOf_of_le le (literals text mem)).symm
  exact ⟨⟨trailing, block, by rw [same], holds⟩,
    fun text mem => StringTable.mem_of_le le (literals text mem)⟩

/-- What becomes of the datum that lexemes read as. -/
theorem shows_ofTokens {lexemes : List Lexeme} {found : Option Datum}
    (h : ∀ d, found = some d ↔ Reads lexemes d ∧ d.Compiles numbering) {table : StringTable}
    (known : ∀ text, .quoted text ∈ lexemes → text ∈ table.texts) :
    (ofTokens numbering (lexemes.map (Lexeme.token table.idOf)) table).1.Shows numbering
      (ofTokens numbering (lexemes.map (Lexeme.token table.idOf)) table).2 found := by
  obtain ⟨reading, run, mem⟩ := ofTokens?_token lexemes
  have absent : (∀ d, ¬ (Reads lexemes d ∧ d.Compiles numbering)) → found = none := fun no =>
    Option.eq_none_iff_forall_not_mem.2 fun d hd => no d ((h d).1 hd)
  -- lexemes that read as no datum under one assignment of ids do so under none
  have unread : ∀ d, Reads lexemes d → ∃ found, reading = .ok (some found) := by
    intro d reads
    have here := reads default
    rw [run] at here
    rcases reading with e | (_ | found)
    · cases here
    · cases here
    · exact ⟨found, rfl⟩
  rcases reading with e | (_ | ⟨d, trailing⟩)
  · rw [absent fun d has => nomatch unread d has.1]
    simp only [ofTokens, run]
    rfl
  · rw [absent fun d has => nomatch unread d has.1]
    simp only [ofTokens, run]
    rfl
  · have mem : ∀ a ∈ d.lexemes, a ∈ lexemes := mem (d, trailing) rfl
    have reads : Reads lexemes d := by
      intro id
      rw [run]
      rfl
    simp only [ofTokens, run, Except.map, Option.map_some]
    by_cases compiles : d.Compiles numbering
    · obtain rfl := (h d).2 ⟨reads, compiles⟩
      obtain ⟨block, hblock⟩ := d.isOk_compile_expr numbering compiles table.idOf table
      have outcome : (d.expr table.idOf).compile numbering table =
          (.ok block, ((d.expr table.idOf).compile numbering table).2) := by rw [← hblock]
      have gives := gives_of_compile trailing (fun text h => known text (mem _ h)) outcome
      rw [outcome]
      exact gives
    · rw [absent fun other has => compiles (reads.unique has.1 ▸ has.2)]
      split
      · rfl
      · next block later h =>
        -- it would compile in the empty table, too
        exact absurd (d.isOk_compile_expr numbering ⟨block, by rw [h]⟩ default .empty) compiles

/-- A line finds its datum, if it has one. -/
theorem finds_of_has {line : List Char} {found : Option Datum}
    (h : ∀ d, found = some d ↔ LineHas numbering line d) : Finds numbering line found := by
  intro table
  cases quote : (Scan.ofLine (withoutTabs line)).openQuote with
  | some column =>
    have none : found = none := by
      refine Option.eq_none_iff_forall_not_mem.2 ?_
      intro d hd
      have closed := ((h d).1 hd).closed
      rw [quote] at closed
      cases closed
    rw [ofLine_of_open quote, none]
    rfl
  | none =>
    rw [ofLine_of_closed quote]
    refine shows_ofTokens (fun d => ?_) fun text mem => mem_tableOfLine mem table
    rw [h d]
    exact ⟨fun has => ⟨has.reads, has.compiles⟩, fun has => ⟨quote, has.1, has.2⟩⟩

end Outcome

theorem LineHas.finds {numbering : Numbering} {line : List Char} {d : Datum}
    (h : LineHas numbering line d) : Outcome.Finds numbering line (some d) :=
  Outcome.finds_of_has fun _ =>
    ⟨fun same => Option.some.inj same ▸ h, fun other => congrArg some (h.reads.unique other.reads)⟩

theorem finds_none {numbering : Numbering} {line : List Char}
    (h : ∀ d, ¬ LineHas numbering line d) : Outcome.Finds numbering line none :=
  Outcome.finds_of_has fun d => ⟨(nomatch ·), fun has => absurd has (h d)⟩

/-- A line has one datum, or none. -/
theorem exists_found (numbering : Numbering) (line : List Char) :
    ∃ found, ∀ d, found = some d ↔ LineHas numbering line d := by
  by_cases has : ∃ d, LineHas numbering line d
  · obtain ⟨d, here⟩ := has
    refine ⟨some d, fun other => ⟨fun same => Option.some.inj same ▸ here, fun also => ?_⟩⟩
    rw [here.reads.unique also.reads]
  · exact ⟨none, fun d => ⟨(nomatch ·), fun here => absurd ⟨d, here⟩ has⟩⟩

/-- A line that makes no block has no datum. -/
theorem not_has_of_skipped {numbering : Numbering} {line : List Char} {table : StringTable}
    (skipped : (Outcome.ofLine numbering line table).1.block? = none) (d : Datum) :
    ¬ LineHas numbering line d := by
  intro has
  obtain ⟨⟨trailing, block, compiled, -⟩, -⟩ := has.finds table
  rw [compiled] at skipped
  cases skipped

/-- A line that makes a block, whatever stands in the table, has a datum. -/
theorem exists_has_of_compiled {numbering : Numbering} {line : List Char} {table : StringTable}
    (compiled : (Outcome.ofLine numbering line table).1.block?.isSome = true) :
    ∃ d, LineHas numbering line d := by
  obtain ⟨found, has⟩ := exists_found numbering line
  cases found with
  | some d => exact ⟨d, (has d).1 rfl⟩
  | none =>
    have skipped : (Outcome.ofLine numbering line table).1.block? = none :=
      finds_none (fun d here => nomatch (has d).2 here) table
    rw [skipped] at compiled
    cases compiled

namespace Outcome

/-- A line adds only its own texts to the table. -/
theorem ofLine_grows (numbering : Numbering) (line : List Char) (table : StringTable) :
    table ≤ (ofLine numbering line table).2 ∧
      ∀ text ∈ (ofLine numbering line table).2.texts,
        text ∈ table.texts ∨ text ∈ lineTexts line := by
  have le : table ≤ tableOfLine line table := StringTable.le_insertAll _ _
  have texts : ∀ text ∈ (tableOfLine line table).texts,
      text ∈ table.texts ∨ text ∈ lineTexts line := by
    intro text mem
    refine (StringTable.mem_texts_insertAll mem).imp id ?_
    intro mem
    obtain ⟨lexeme, hlexeme, htext⟩ := List.mem_filterMap.1 mem
    refine List.mem_filterMap.2 ⟨lexeme, hlexeme, ?_⟩
    cases lexeme <;> simp_all [Lexeme.quoted?, Lexeme.text?]
  cases quote : (Scan.ofLine (withoutTabs line)).openQuote with
  | some column =>
    rw [ofLine_of_open quote]
    exact ⟨le, texts⟩
  | none =>
    obtain ⟨reading, run, mem⟩ := ofTokens?_token (lineLexemes line)
    rw [ofLine_of_closed quote, ofTokens, run]
    rcases reading with e | (_ | ⟨d, trailing⟩)
    · exact ⟨le, texts⟩
    · exact ⟨le, texts⟩
    · have grows := d.compile_grows numbering (tableOfLine line table).idOf (tableOfLine line table)
      have mem : ∀ a ∈ d.lexemes, a ∈ lineLexemes line := mem (d, trailing) rfl
      -- the outcome tells whether the form compiled, the table does not
      have later : (ofTokens numbering ((lineLexemes line).map
          (Lexeme.token (tableOfLine line table).idOf)) (tableOfLine line table)).2 =
          ((d.expr (tableOfLine line table).idOf).compile numbering
            (tableOfLine line table)).2 := by
        simp only [ofTokens, run, Except.map, Option.map_some]
        split <;> simp_all
      rw [ofTokens, run] at later
      rw [later]
      refine ⟨StringTable.le_trans le grows.1, ?_⟩
      intro text h
      rcases grows.2 text h with h | h
      · exact texts text h
      · exact .inr (List.mem_filterMap.2 ⟨_, mem _ h, rfl⟩)

end Outcome

end Libretto.Script
