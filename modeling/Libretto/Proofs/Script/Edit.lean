/-
Edits that leave the forms of a source as they are.

* **`LineEdit`** — a comment, blanks between lexemes, or balanced tokens behind the first expression
  of a line;
* **`Edit`** — such a change of one line, or a further line that makes no block;
* **`LineEdit.has_iff`**, **`Edit.has_iff`** — an edited line has the same datum, and an edited
  source the same data;
* **`sourceHas_iff_of_eqvGen`** — so do any number of edits, made or undone.

An edit can still intern strings.  So the blocks of the two sources may differ in the ids that they
hold.
-/
import Libretto.Proofs.Script.Unit
import Mathlib.Logic.Relation

namespace Libretto.Script

open Outcome (withoutTabs)

/-- A change of a line that leaves its form. -/
inductive LineEdit : List Char → List Char → Prop where
  /-- A semicolon and all that follows. -/
  | comment (line text : List Char) : LineEdit line (line ++ ';' :: text)
  /-- Blanks in front of a lexeme, behind the last one, or between two of them. -/
  | blanks {front blanks back : List Char} (blank : ∀ c ∈ blanks, Text.isBlank c)
      (between : (Position.gap.reach 1 (withoutTabs front)).2.Between (withoutTabs back)) :
      LineEdit (front ++ back) (front ++ (blanks ++ back))
  /-- Tokens with balanced parentheses, somewhere behind the first expression. -/
  | trailing (table table' : StringTable) {front extra back : List Char} {c c' : Char}
      {tokens more rest : List Token} {e : Expr} {later later' : StringTable}
      (blank : Text.isBlank c) (blank' : Text.isBlank c')
      (first : tokenize (.ofList (withoutTabs front)) table = (.ok tokens, later))
      (complete : Expr.ofTokens 0 tokens = .ok (e, rest)) (code : ';' ∉ extra)
      (behind : tokenize (.ofList (withoutTabs extra)) table' = (.ok more, later'))
      (balanced : checkBalance 0 more = .ok ()) :
      LineEdit (front ++ c :: back) (front ++ c :: (extra ++ c' :: back))

/-- A change of a source that leaves its forms: of one line, or by a line that makes no block. -/
inductive Edit (numbering : Numbering) : List (List Char) → List (List Char) → Prop where
  | change (front back : List (List Char)) {line line' : List Char} (h : LineEdit line line') :
      Edit numbering (front ++ line :: back) (front ++ line' :: back)
  | insert (front back : List (List Char)) (table : StringTable) {line : List Char}
      (skipped : (Outcome.ofLine numbering line table).1.block? = none) :
      Edit numbering (front ++ back) (front ++ line :: back)

/-! ### Lines without their comments -/

theorem withoutTabs_append (front back : List Char) :
    withoutTabs (front ++ back) = withoutTabs front ++ withoutTabs back :=
  List.map_append

theorem withoutTabs_cons (c : Char) (line : List Char) :
    withoutTabs (c :: line) = (if c = '\t' then ' ' else c) :: withoutTabs line := rfl

theorem semicolon_mem_withoutTabs {line : List Char} : ';' ∈ withoutTabs line ↔ ';' ∈ line := by
  refine ⟨?_, fun mem => List.mem_map.2 ⟨';', mem, rfl⟩⟩
  intro mem
  obtain ⟨c, hc, same⟩ := List.mem_map.1 mem
  split at same
  · exact absurd same (by decide)
  · exact same ▸ hc

/-- Nothing behind a semicolon counts. -/
theorem stripComment_append_of_mem {front : List Char} (h : ';' ∈ front) (back : List Char) :
    stripComment (front ++ back) = stripComment front := by
  induction front with
  | nil => cases h
  | cons c rest ih =>
    rw [List.cons_append, stripComment, stripComment, List.takeWhile_cons, List.takeWhile_cons]
    by_cases comment : c = ';'
    · rw [if_neg (by simpa using comment), if_neg (by simpa using comment)]
    · have behind : ';' ∈ rest := (List.mem_cons.1 h).resolve_left (Ne.symm comment)
      rw [if_pos (by simpa using comment), if_pos (by simpa using comment)]
      exact congrArg (c :: ·) (ih behind)

theorem stripComment_append {front : List Char} (h : ';' ∉ front) (back : List Char) :
    stripComment (front ++ back) = front ++ stripComment back := by
  refine List.takeWhile_append_of_pos fun c hc => decide_eq_true ?_
  rintro rfl
  exact h hc

theorem stripComment_eq_self {line : List Char} (h : ';' ∉ line) : stripComment line = line := by
  have whole := stripComment_append h []
  rwa [List.append_nil, show stripComment [] = [] from rfl, List.append_nil] at whole

theorem stripComment_comment (line text : List Char) :
    stripComment (line ++ ';' :: text) = stripComment line := by
  by_cases h : ';' ∈ line
  · exact stripComment_append_of_mem h _
  · rw [stripComment_append h, stripComment_eq_self h]
    exact List.append_nil line

theorem semicolon_not_mem_blanks {blanks : List Char} (h : ∀ c ∈ blanks, Text.isBlank c) :
    ';' ∉ blanks :=
  fun mem => absurd (h _ mem) (by decide)

theorem isBlank_withoutTab {c : Char} (h : Text.isBlank c) :
    Text.isBlank (if c = '\t' then ' ' else c) := by
  split
  · decide
  · exact h

theorem isBlank_withoutTabs {blanks : List Char} (h : ∀ c ∈ blanks, Text.isBlank c) :
    ∀ c ∈ withoutTabs blanks, Text.isBlank c := by
  intro c mem
  obtain ⟨d, hd, rfl⟩ := List.mem_map.1 mem
  exact isBlank_withoutTab (h d hd)

/-- A word that ends in front of what follows ends in front of the comment, too. -/
theorem between_stripComment {position : Position} {back : List Char}
    (h : position.Between back) : position.Between (stripComment back) := by
  cases position with
  | gap => trivial
  | word reversed =>
    cases back with
    | nil => exact h
    | cons c rest =>
      intro d hd
      rw [stripComment, List.takeWhile_cons] at hd
      split at hd
      · exact h d hd
      · cases hd
  | literal column reversed | escape column reversed => exact h.elim

/-! ### Edited lines -/

theorem tokenize_eq_ok {line : List Char} {table later : StringTable} {tokens : List Token}
    (h : tokenize (.ofList line) table = (.ok tokens, later)) :
    (Scan.ofLine line).openQuote = none ∧
      tokens = (Scan.ofLine line).lexemes.map (Lexeme.token later.idOf) := by
  rw [tokenize, String.toList_ofList] at h
  cases quote : (Scan.ofLine line).openQuote with
  | some column => simp [quote] at h
  | none =>
    simp only [quote, Prod.mk.injEq, Except.ok.injEq] at h
    obtain ⟨rfl, rfl⟩ := h
    exact ⟨rfl, rfl⟩

/-- Lines whose scans agree have the same datum. -/
theorem has_iff_of_agree {line line' : List Char}
    (h : Scan.Agree (Scan.ofLine (withoutTabs line)) (Scan.ofLine (withoutTabs line')))
    (numbering : Numbering) (d : Datum) : LineHas numbering line d ↔ LineHas numbering line' d := by
  obtain ⟨lexemes, quote⟩ := h
  have same : lineLexemes line = lineLexemes line' := lexemes
  exact ⟨fun has => ⟨quote.1 has.closed, same ▸ has.reads, has.compiles⟩,
    fun has => ⟨quote.2 has.closed, same ▸ has.reads, has.compiles⟩⟩

/-- Balanced lexemes behind an expression do not change what a line reads as. -/
theorem reads_insert_iff {first extra : List Lexeme} {id other : String → StringId}
    (complete : ∃ found, Expr.ofTokens 0 (first.map (Lexeme.token id)) = .ok found)
    (balanced : checkBalance 0 (extra.map (Lexeme.token other)) = .ok ()) (back : List Lexeme)
    (d : Datum) :
    Reads (first ++ (extra ++ back)) d ↔ Reads (first ++ back) d := by
  have same : ∀ id, (Form.ofTokens? ((first ++ (extra ++ back)).map (Lexeme.token id))).map
      (Option.map Form.expr) =
        (Form.ofTokens? ((first ++ back).map (Lexeme.token id))).map (Option.map Form.expr) := by
    intro id
    obtain ⟨⟨e, rest⟩, found⟩ := ofTokens_token complete id
    rw [List.map_append, List.map_append, List.map_append]
    exact ofTokens?_insert found ((checkBalance_token id other 0 extra).trans balanced) _
  unfold Reads
  simp only [same]

/-- Behind a blank, in front of which no quote is open, a line is scanned by itself. -/
theorem scan_behind_blank {front : List Char} {c : Char} (blank : Text.isBlank c)
    (code : ';' ∉ front) (closed : (Scan.ofLine front).openQuote = none) (back : List Char) :
    (Scan.ofLine (front ++ c :: back)).lexemes =
        (Scan.ofLine front).lexemes ++ (Scan.ofLine back).lexemes ∧
      ((Scan.ofLine (front ++ c :: back)).openQuote = none ↔
        (Scan.ofLine back).openQuote = none) := by
  have stop : stripComment (c :: back) = c :: stripComment back := by
    refine List.takeWhile_cons_of_pos (decide_eq_true ?_)
    rintro rfl
    exact absurd blank (by decide)
  rw [Scan.ofLine, stripComment_eq_self code] at closed
  rw [Scan.ofLine, Scan.ofLine, Scan.ofLine, stripComment_append code, stripComment_eq_self code,
    stop]
  obtain ⟨lexemes, quote⟩ := Scan.agree_append blank closed (stripComment back)
  exact ⟨lexemes.symm, quote.symm⟩

/-- An edited line has the same datum. -/
theorem LineEdit.has_iff {line line' : List Char} (h : LineEdit line line') (numbering : Numbering)
    (d : Datum) : LineHas numbering line d ↔ LineHas numbering line' d := by
  cases h with
  | comment line text =>
    have same : Scan.ofLine (withoutTabs (line ++ ';' :: text)) =
        Scan.ofLine (withoutTabs line) := by
      rw [withoutTabs_append, show withoutTabs (';' :: text) = ';' :: withoutTabs text from rfl,
        Scan.ofLine, stripComment_comment]
      rfl
    exact has_iff_of_agree (same ▸ ⟨rfl, Iff.rfl⟩) numbering d
  | @blanks front blanks back blank between =>
    refine has_iff_of_agree ?_ numbering d
    rw [withoutTabs_append, withoutTabs_append, withoutTabs_append, Scan.ofLine, Scan.ofLine]
    by_cases comment : ';' ∈ withoutTabs front
    · -- the blanks stand in a comment
      rw [stripComment_append_of_mem comment, stripComment_append_of_mem comment]
      exact ⟨rfl, Iff.rfl⟩
    · have blank := isBlank_withoutTabs blank
      rw [stripComment_append comment, stripComment_append comment,
        stripComment_append (semicolon_not_mem_blanks blank)]
      exact Scan.agree_blanks blank (between_stripComment between)
  | @trailing table table' front extra back c c' tokens more rest e _ _ blank blank' first complete
      code behind balanced =>
    obtain ⟨closed, rfl⟩ := tokenize_eq_ok first
    obtain ⟨closed', rfl⟩ := tokenize_eq_ok behind
    rw [← semicolon_mem_withoutTabs] at code
    by_cases comment : ';' ∈ withoutTabs front
    · refine has_iff_of_agree ?_ numbering d
      rw [withoutTabs_append, withoutTabs_append, Scan.ofLine, Scan.ofLine,
        stripComment_append_of_mem comment, stripComment_append_of_mem comment]
      exact ⟨rfl, Iff.rfl⟩
    · -- the edited line is three pieces between blanks, the other one the first and the last
      have blank := isBlank_withoutTab blank
      have blank' := isBlank_withoutTab blank'
      obtain ⟨short, quote⟩ := scan_behind_blank blank comment closed (withoutTabs back)
      obtain ⟨middle, quote'⟩ := scan_behind_blank blank' code closed' (withoutTabs back)
      obtain ⟨long, quote''⟩ := scan_behind_blank blank comment closed
        (withoutTabs (extra ++ c' :: back))
      rw [withoutTabs_append extra, withoutTabs_cons] at long quote''
      have reads := reads_insert_iff ⟨_, complete⟩ balanced
        (Scan.ofLine (withoutTabs back)).lexemes d
      rw [← middle, ← long, ← short] at reads
      have open_ := quote.trans (quote'.symm.trans quote''.symm)
      simp only [← withoutTabs_cons, ← withoutTabs_append] at reads open_
      exact ⟨fun has => ⟨open_.1 has.closed, reads.2 has.reads, has.compiles⟩,
        fun has => ⟨open_.2 has.closed, reads.1 has.reads, has.compiles⟩⟩

/-! ### Edited sources -/

/-- Lines in front keep their data, whatever becomes of the lines behind them. -/
theorem SourceHas.append {numbering : Numbering} {lines lines' : List (List Char)}
    (h : ∀ data, SourceHas numbering lines data → SourceHas numbering lines' data)
    {front : List (List Char)} {data : List Datum}
    (has : SourceHas numbering (front ++ lines) data) :
    SourceHas numbering (front ++ lines') data := by
  induction front generalizing data with
  | nil => exact h data has
  | cons line rest ih =>
    cases has with
    | has here behind => exact .has here (ih behind)
    | skip here behind => exact .skip here (ih behind)

/-- A line can be replaced by one with the same datum. -/
theorem SourceHas.replace {numbering : Numbering} {line line' : List Char}
    {lines : List (List Char)} {data : List Datum}
    (same : ∀ d, LineHas numbering line d ↔ LineHas numbering line' d)
    (has : SourceHas numbering (line :: lines) data) :
    SourceHas numbering (line' :: lines) data := by
  cases has with
  | has here behind => exact .has ((same _).1 here) behind
  | skip here behind => exact .skip (fun d has => here d ((same d).2 has)) behind

/-- An edited source has the same data. -/
theorem Edit.has_iff {numbering : Numbering} {lines lines' : List (List Char)}
    (h : Edit numbering lines lines') (data : List Datum) :
    SourceHas numbering lines data ↔ SourceHas numbering lines' data := by
  cases h with
  | change front back edit =>
    have same := edit.has_iff numbering
    exact ⟨.append fun _ => .replace same, .append fun _ => .replace fun d => (same d).symm⟩
  | insert front back table skipped =>
    -- the line is skipped in one table, hence in the one that it meets here
    have none := not_has_of_skipped skipped
    refine ⟨.append fun _ => .skip none, .append ?_⟩
    intro data has
    cases has with
    | has here _ => exact absurd here (none _)
    | skip _ behind => exact behind

/-- Edits, made or undone one after the other, leave the data of a source. -/
theorem sourceHas_iff_of_eqvGen {numbering : Numbering} {lines lines' : List (List Char)}
    (h : Relation.EqvGen (Edit numbering) lines lines') (data : List Datum) :
    SourceHas numbering lines data ↔ SourceHas numbering lines' data := by
  induction h with
  | rel _ _ edit => exact edit.has_iff data
  | refl _ => exact Iff.rfl
  | symm _ _ _ ih => exact ih.symm
  | trans _ _ _ _ _ ih ih' => exact ih.trans ih'

end Libretto.Script
