/-
The grammar of lines.

A line without its comment is a sequence of lexemes with blanks in front of them and behind the
last one.  Blanks may be left out everywhere but between two words.

* **`Quotable`**, **`Unclosed`** — what stands between two quotes, and behind a quote that nothing
  closes;
* **`Segment`** — a lexeme with the blanks in front of it;
* **`Complete`**, **`BreaksOff`** — a line is nothing but such segments, or has an open quote behind
  them;
* **`scan_of_complete`**, **`scan_of_breaksOff`** — a scan finds the lexemes of the segments;
* **`complete_or_breaksOff`** — one of the two is so of every line;
* **`tokenize_follows_grammar`** — hence the tokens of a line are those of its lexemes.

The scan goes character by character and the grammar lexeme by lexeme.  They meet in lemmas about
one lexeme with an arbitrary rest behind it.
-/
import Libretto.Proofs.Interning
import Libretto.Proofs.Script.Scan
import Libretto.Script.Token
import Mathlib.Data.List.Chain
import Mathlib.Data.List.TakeWhile

namespace Libretto.Script

/-! ### Lexemes as they are written -/

/-- The inside of a literal: a quote or a backslash stands there only behind a backslash. -/
inductive Quotable : List Char → Prop where
  | nil : Quotable []
  | plain {c : Char} {rest : List Char} (quote : c ≠ '"') (backslash : c ≠ '\\')
      (more : Quotable rest) : Quotable (c :: rest)
  | escape (c : Char) {rest : List Char} (more : Quotable rest) : Quotable ('\\' :: c :: rest)

/-- The rest of a line behind a quote that nothing closes.  A backslash at its end protects
nothing. -/
def Unclosed (rest : List Char) : Prop :=
  Quotable rest ∨ ∃ front, Quotable front ∧ rest = front ++ ['\\']

namespace Lexeme

/-- The characters of a lexeme. -/
def chars : Lexeme → List Char
  | opening => ['(']
  | closing => [')']
  | quoted text => '"' :: (text.toList ++ ['"'])
  | word text => text.toList

/-- The text of a lexeme is one that its kind can have. -/
def Proper : Lexeme → Prop
  | opening | closing => True
  | quoted text => Quotable text.toList
  | word text => text.toList ≠ [] ∧ ∀ c ∈ text.toList, isWordChar c

def isWord : Lexeme → Bool
  | word _ => true
  | _ => false

/-- The rest of a line does not go on with a lexeme. -/
def Ends (lexeme : Lexeme) (back : List Char) : Prop :=
  lexeme.isWord → ∀ c ∈ back.head?, isWordChar c = false

theorem chars_ne_nil {lexeme : Lexeme} (proper : lexeme.Proper) : lexeme.chars ≠ [] := by
  cases lexeme with
  | word text => exact proper.1
  | opening | closing | quoted => exact List.cons_ne_nil _ _

end Lexeme

/-- A lexeme with the blanks in front of it. -/
structure Segment where
  blanks : List Char
  lexeme : Lexeme

namespace Segment

def chars (segment : Segment) : List Char :=
  segment.blanks ++ segment.lexeme.chars

structure Proper (segment : Segment) : Prop where
  blank : ∀ c ∈ segment.blanks, Text.isBlank c
  lexeme : segment.lexeme.Proper

/-- Two words do not touch. -/
def Apart (first second : Segment) : Prop :=
  first.lexeme.isWord → second.lexeme.isWord → second.blanks ≠ []

end Segment

/-- The characters of segments one behind the other. -/
def charsOf (segments : List Segment) : List Char :=
  segments.flatMap Segment.chars

theorem charsOf_cons (segment : Segment) (segments : List Segment) :
    charsOf (segment :: segments) = segment.chars ++ charsOf segments :=
  List.flatMap_cons

/-- The texts of the literals among segments. -/
def literalsOf (segments : List Segment) : List String :=
  (segments.map Segment.lexeme).filterMap Lexeme.quoted?

/-- Segments that can stand one behind the other. -/
structure WellSpaced (segments : List Segment) : Prop where
  proper : ∀ segment ∈ segments, segment.Proper
  apart : segments.IsChain Segment.Apart

/-- The line is nothing but the segments and blanks behind them. -/
def Complete (line : List Char) (segments : List Segment) : Prop :=
  WellSpaced segments ∧
    ∃ blanks, (∀ c ∈ blanks, Text.isBlank c) ∧ line = charsOf segments ++ blanks

/-- Behind the segments a quote is opened in a column, counted from 1, and not closed. -/
def BreaksOff (line : List Char) (segments : List Segment) (column : Nat) : Prop :=
  WellSpaced segments ∧
    ∃ blanks rest, (∀ c ∈ blanks, Text.isBlank c) ∧ Unclosed rest ∧
      line = charsOf segments ++ (blanks ++ '"' :: rest) ∧
        column = (charsOf segments).length + blanks.length + 1

/-! ### Scanning one lexeme -/

namespace Position

variable {opened column : Nat} {reversed : List Char}

/-- What a scan finds behind the lexemes that were found already. -/
def found (lexemes : List Lexeme) (behind : Scan) : Scan :=
  ⟨lexemes ++ behind.lexemes, behind.openQuote⟩

theorem scan_step (position : Position) (column : Nat) (c : Char) (rest : List Char) :
    position.scan column (c :: rest) =
      found (position.step column c).1 ((position.step column c).2.scan (column + 1) rest) := rfl

/-- A literal ends with the first quote that is not protected. -/
theorem scan_quotable {inside : List Char} (h : Quotable inside) (back : List Char) :
    (literal opened reversed).scan column (inside ++ '"' :: back) =
      found [.quoted (.ofList (reversed.reverse ++ inside))]
        (gap.scan (column + inside.length + 1) back) := by
  induction h generalizing column reversed with
  | nil =>
    rw [List.nil_append, List.append_nil, scan_step]
    rfl
  | @plain c rest quote backslash _ ih =>
    have next : (literal opened reversed).step column c = ([], literal opened (c :: reversed)) := by
      simp [step, quote, backslash]
    rw [List.cons_append, scan_step, next, ih, List.reverse_cons, List.append_assoc,
      List.length_cons, Nat.add_right_comm column 1]
    rfl
  | @escape c rest _ ih =>
    show found [] (found [] ((literal opened (c :: '\\' :: reversed)).scan (column + 1 + 1)
      (rest ++ '"' :: back))) = _
    rw [ih, List.reverse_cons, List.reverse_cons, List.append_assoc, List.append_assoc,
      show column + 1 + 1 + rest.length = column + ('\\' :: c :: rest).length by
        simp only [List.length_cons]; omega]
    rfl

/-- A literal that nothing closes is reported. -/
theorem scan_quotable_end {inside : List Char} (h : Quotable inside) (tail : List Char)
    (ends : tail = [] ∨ tail = ['\\']) :
    (literal opened reversed).scan column (inside ++ tail) = ⟨[], some opened⟩ := by
  induction h generalizing column reversed with
  | nil =>
    rcases ends with rfl | rfl
    · rfl
    · rfl
  | @plain c rest quote backslash _ ih =>
    have next : (literal opened reversed).step column c = ([], literal opened (c :: reversed)) := by
      simp [step, quote, backslash]
    rw [List.cons_append, scan_step, next, ih]
    rfl
  | @escape c rest _ ih =>
    show found [] (found [] ((literal opened (c :: '\\' :: reversed)).scan (column + 1 + 1)
      (rest ++ tail))) = _
    rw [ih]
    rfl

theorem scan_unclosed {rest : List Char} (h : Unclosed rest) (column : Nat) :
    gap.scan column ('"' :: rest) = ⟨[], some column⟩ := by
  show found [] ((literal column []).scan (column + 1) rest) = _
  rcases h with h | ⟨front, h, rfl⟩
  · have scanned : (literal column []).scan (column + 1) (rest ++ []) = ⟨[], some column⟩ :=
      scan_quotable_end h [] (.inl rfl)
    rw [List.append_nil] at scanned
    rw [scanned]
    rfl
  · rw [scan_quotable_end h _ (.inr rfl)]
    rfl

/-- A word ends in front of a character that it cannot hold. -/
theorem scan_word {inside : List Char} (h : ∀ c ∈ inside, isWordChar c) {back : List Char}
    (ends : ∀ c ∈ back.head?, isWordChar c = false) :
    (word reversed).scan column (inside ++ back) =
      found [.word (.ofList (reversed.reverse ++ inside))]
        (gap.scan (column + inside.length) back) := by
  induction inside generalizing column reversed with
  | nil =>
    rw [List.nil_append, List.append_nil]
    cases back with
    | nil => rfl
    | cons c rest =>
      have next : (word reversed).step column c =
          (.word (.ofList reversed.reverse) :: (start column c).1, (start column c).2) := by
        rw [step, if_neg (by simp [ends c rfl])]
      rw [scan_step, next]
      rfl
  | cons c rest ih =>
    rw [List.forall_mem_cons] at h
    rw [List.cons_append, scan_step, step, if_pos h.1, ih h.2, List.reverse_cons, List.append_assoc,
      List.length_cons, Nat.add_assoc column 1, Nat.add_comm 1]
    rfl

/-- A lexeme is found, if the rest of the line does not go on with it. -/
theorem scan_lexeme {lexeme : Lexeme} (proper : lexeme.Proper) {back : List Char}
    (ends : lexeme.Ends back) :
    gap.scan column (lexeme.chars ++ back) =
      found [lexeme] (gap.scan (column + lexeme.chars.length) back) := by
  cases lexeme with
  | opening => rfl
  | closing => rfl
  | quoted text =>
    have scanned : (literal column []).scan (column + 1) (text.toList ++ '"' :: back) = _ :=
      scan_quotable proper back
    rw [List.reverse_nil, List.nil_append, String.ofList_toList] at scanned
    show found [] ((literal column []).scan (column + 1) (text.toList ++ ['"'] ++ back)) = _
    rw [List.append_assoc, List.singleton_append, scanned, Lexeme.chars, List.length_cons,
      List.length_append, List.length_singleton,
      show column + 1 + text.toList.length + 1 = column + (text.toList.length + 1 + 1) by omega]
    rfl
  | word text =>
    obtain ⟨nonempty, inside⟩ := proper
    obtain ⟨c, rest, split⟩ := List.exists_cons_of_ne_nil nonempty
    have whole : String.ofList (c :: rest) = text := by rw [← split, String.ofList_toList]
    rw [split, List.forall_mem_cons] at inside
    have begins : start column c = ([], word [c]) := by
      have first := inside.1
      simp only [isWordChar, Bool.and_eq_true, Bool.not_eq_true', decide_eq_true_eq] at first
      simp [start, first]
    rw [Lexeme.chars, split, List.cons_append, scan_step, step, begins,
      scan_word inside.2 (ends rfl), List.reverse_singleton, List.singleton_append, whole,
      List.length_cons, Nat.add_assoc column 1, Nat.add_comm 1]
    rfl

/-- The blanks in front of a lexeme are skipped. -/
theorem scan_segment {segment : Segment} (proper : segment.Proper) {back : List Char}
    (ends : segment.lexeme.Ends back) :
    gap.scan column (segment.chars ++ back) =
      found [segment.lexeme] (gap.scan (column + segment.chars.length) back) := by
  have skipped : ∀ back, gap.scan column (segment.blanks ++ back) =
      gap.scan (column + segment.blanks.length) back := by
    intro back
    rw [scan_append, reach_gap_blanks proper.blank]
    rfl
  rw [Segment.chars, List.append_assoc, skipped, scan_lexeme proper.lexeme ends,
    List.length_append, Nat.add_assoc]

/-! ### Scanning segments -/

/-- A word does not begin where a blank or a parenthesis stands, nor where nothing does. -/
theorem not_isWordChar_head {segments : List Segment} (proper : ∀ s ∈ segments, s.Proper)
    (free : ∀ s ∈ segments.head?, s.lexeme.isWord → s.blanks ≠ []) {tail : List Char}
    (ends : ∀ c ∈ tail.head?, isWordChar c = false) :
    ∀ c ∈ (charsOf segments ++ tail).head?, isWordChar c = false := by
  cases segments with
  | nil => exact ends
  | cons segment rest =>
    obtain ⟨blanks, lexeme⟩ := segment
    have here := proper _ List.mem_cons_self
    intro c mem
    cases blanks with
    | cons b blanks =>
      obtain rfl : b = c := Option.some.inj mem
      exact isWordChar_blank (here.blank b List.mem_cons_self)
    | nil =>
      cases lexeme with
      | word text => exact absurd rfl (free _ rfl rfl)
      | opening =>
        obtain rfl : '(' = c := Option.some.inj mem
        rfl
      | closing =>
        obtain rfl : ')' = c := Option.some.inj mem
        rfl
      | quoted text =>
        obtain rfl : '"' = c := Option.some.inj mem
        rfl

/-- The lexemes of segments are found, whatever follows that does not go on with a word. -/
theorem scan_segments {segments : List Segment} (h : WellSpaced segments) {tail : List Char}
    (ends : ∀ c ∈ tail.head?, isWordChar c = false) :
    gap.scan column (charsOf segments ++ tail) =
      found (segments.map Segment.lexeme)
        (gap.scan (column + (charsOf segments).length) tail) := by
  induction segments generalizing column with
  | nil => rfl
  | cons segment rest ih =>
    obtain ⟨here, proper⟩ := List.forall_mem_cons.1 h.proper
    obtain ⟨next, apart⟩ := List.isChain_cons.1 h.apart
    have stops : segment.lexeme.Ends (charsOf rest ++ tail) :=
      fun isWord => not_isWordChar_head proper (fun s mem => next s mem isWord) ends
    rw [charsOf_cons, List.append_assoc, scan_segment here stops, ih ⟨proper, apart⟩,
      List.length_append, Nat.add_assoc]
    rfl

end Position

/-! ### Every line is of one of the two kinds -/

variable {line back : List Char} {segment : Segment} {segments : List Segment}

/-- A segment in front of others stays apart from them, if the characters do. -/
theorem WellSpaced.cons (proper : segment.Proper) (h : WellSpaced segments) {tail : List Char}
    (ends : segment.lexeme.Ends (charsOf segments ++ tail)) : WellSpaced (segment :: segments) := by
  refine ⟨List.forall_mem_cons.2 ⟨proper, h.proper⟩, List.isChain_cons.2 ⟨?_, h.apart⟩⟩
  intro next mem isWord isWord' none
  obtain ⟨blanks, lexeme⟩ := next
  obtain rfl : blanks = [] := none
  obtain ⟨more, rfl⟩ : ∃ more, segments = ⟨[], lexeme⟩ :: more := List.head?_eq_some_iff.1 mem
  cases lexeme with
  | word text =>
    obtain ⟨nonempty, inside⟩ := (h.proper _ List.mem_cons_self).lexeme
    obtain ⟨c, rest, split⟩ := List.exists_cons_of_ne_nil nonempty
    have first : c ∈ (charsOf (⟨[], .word text⟩ :: more) ++ tail).head? := by
      rw [charsOf_cons, Segment.chars, Lexeme.chars, split]
      rfl
    have wordChar := inside c (by rw [split]; exact List.mem_cons_self)
    rw [ends isWord c first] at wordChar
    exact Bool.false_ne_true wordChar
  | opening | closing | quoted => cases isWord'

theorem Complete.cons (proper : segment.Proper) (ends : segment.lexeme.Ends back)
    (h : Complete back segments) : Complete (segment.chars ++ back) (segment :: segments) := by
  obtain ⟨spaced, blanks, blank, rfl⟩ := h
  exact ⟨spaced.cons proper ends, blanks, blank, by rw [charsOf_cons, List.append_assoc]⟩

theorem BreaksOff.cons {column : Nat} (proper : segment.Proper) (ends : segment.lexeme.Ends back)
    (h : BreaksOff back segments column) :
    BreaksOff (segment.chars ++ back) (segment :: segments) (segment.chars.length + column) := by
  obtain ⟨spaced, blanks, rest, blank, unclosed, rfl, rfl⟩ := h
  refine ⟨spaced.cons proper ends, blanks, rest, blank, unclosed, ?_, ?_⟩
  · rw [charsOf_cons, List.append_assoc]
  · rw [charsOf_cons, List.length_append]
    omega

/-- Behind a quote stands one that closes it, or none does. -/
theorem closed_or_unclosed : ∀ rest : List Char,
    (∃ inside back, Quotable inside ∧ rest = inside ++ '"' :: back) ∨ Unclosed rest
  | [] => .inr (.inl .nil)
  | c :: rest => by
    by_cases quote : c = '"'
    · exact .inl ⟨[], rest, .nil, by rw [quote]; rfl⟩
    by_cases backslash : c = '\\'
    · subst backslash
      match rest with
      | [] => exact .inr (.inr ⟨[], .nil, rfl⟩)
      | d :: rest =>
        rcases closed_or_unclosed rest with ⟨inside, back, h, rfl⟩ | h | ⟨front, h, rfl⟩
        · exact .inl ⟨'\\' :: d :: inside, back, .escape d h, rfl⟩
        · exact .inr (.inl (.escape d h))
        · exact .inr (.inr ⟨'\\' :: d :: front, .escape d h, rfl⟩)
    rcases closed_or_unclosed rest with ⟨inside, back, h, rfl⟩ | h | ⟨front, h, rfl⟩
    · exact .inl ⟨c :: inside, back, .plain quote backslash h, rfl⟩
    · exact .inr (.inl (.plain quote backslash h))
    · exact .inr (.inr ⟨c :: front, .plain quote backslash h, rfl⟩)

/-- A character that is no blank begins a lexeme, or is a quote that nothing closes. -/
theorem exists_lexeme {c : Char} (visible : ¬Text.isBlank c) (rest : List Char) :
    (∃ (lexeme : Lexeme) (back : List Char), lexeme.Proper ∧ lexeme.Ends back ∧
      c :: rest = lexeme.chars ++ back) ∨ c = '"' ∧ Unclosed rest := by
  by_cases opening : c = '('
  · exact .inl ⟨.opening, rest, trivial, nofun, by rw [opening]; rfl⟩
  by_cases closing : c = ')'
  · exact .inl ⟨.closing, rest, trivial, nofun, by rw [closing]; rfl⟩
  by_cases quote : c = '"'
  · rcases closed_or_unclosed rest with ⟨inside, back, h, rfl⟩ | h
    · refine .inl ⟨.quoted (.ofList inside), back, ?_, nofun, ?_⟩
      · rwa [Lexeme.Proper, String.toList_ofList]
      · rw [Lexeme.chars, String.toList_ofList, List.cons_append, List.append_assoc, quote]
        rfl
    · exact .inr ⟨quote, h⟩
  -- all that is left begins a word, which goes on as far as it can
  · have first : isWordChar c := by simp [isWordChar, visible, opening, closing, quote]
    refine .inl ⟨.word (.ofList (c :: rest.takeWhile isWordChar)), rest.dropWhile isWordChar, ?_,
      ?_, ?_⟩
    · rw [Lexeme.Proper, String.toList_ofList, List.forall_mem_cons]
      exact ⟨List.cons_ne_nil _ _, first, fun d mem => List.mem_takeWhile_imp mem⟩
    · intro _ d mem
      have stops := List.head?_dropWhile_not isWordChar rest
      rw [Option.mem_def.1 mem] at stops
      exact stops
    · rw [Lexeme.chars, String.toList_ofList, List.cons_append, List.takeWhile_append_dropWhile]

/-- A line is nothing but blanks and lexemes, or has an open quote behind them. -/
theorem complete_or_breaksOff (line : List Char) :
    ∃ segments, Complete line segments ∨ ∃ column, BreaksOff line segments column := by
  have none : WellSpaced [] := ⟨nofun, .nil⟩
  have whole : line.takeWhile Text.isBlank ++ line.dropWhile Text.isBlank = line :=
    List.takeWhile_append_dropWhile
  have blank : ∀ c ∈ line.takeWhile Text.isBlank, Text.isBlank c :=
    fun c mem => List.mem_takeWhile_imp mem
  cases split : line.dropWhile Text.isBlank with
  | nil =>
    rw [split, List.append_nil] at whole
    exact ⟨[], .inl ⟨none, line, by rwa [whole] at blank, rfl⟩⟩
  | cons c rest =>
    have visible : ¬Text.isBlank c := by
      have stops := List.head?_dropWhile_not Text.isBlank line
      rw [split] at stops
      simpa using stops
    rcases exists_lexeme visible rest with ⟨lexeme, back, proper, ends, parts⟩ | ⟨rfl, unclosed⟩
    · let segment : Segment := ⟨line.takeWhile Text.isBlank, lexeme⟩
      have here : segment.Proper := ⟨blank, proper⟩
      have shorter : back.length < line.length := by
        have some := List.length_pos_iff.2 (Lexeme.chars_ne_nil proper)
        have sum := congrArg List.length whole
        rw [split, parts, List.length_append, List.length_append] at sum
        omega
      have parts : line = segment.chars ++ back := by
        rw [Segment.chars, List.append_assoc, ← parts, ← split, whole]
      obtain ⟨segments, h | ⟨column, h⟩⟩ := complete_or_breaksOff back
      · exact ⟨segment :: segments, .inl (by rw [parts]; exact h.cons here ends)⟩
      · exact ⟨segment :: segments, .inr ⟨_, by rw [parts]; exact h.cons here ends⟩⟩
    · refine ⟨[], .inr ⟨_, none, _, rest, blank, unclosed, ?_, rfl⟩⟩
      rw [← split, whole]
      rfl
  termination_by line.length
  decreasing_by exact shorter

/-! ### The tokens of a line -/

/-- A scan of a line of lexemes finds them. -/
theorem scan_of_complete (h : Complete line segments) :
    Position.gap.scan 1 line = ⟨segments.map Segment.lexeme, none⟩ := by
  obtain ⟨spaced, blanks, blank, rfl⟩ := h
  have ends : ∀ c ∈ blanks.head?, isWordChar c = false :=
    fun c mem => Position.isWordChar_blank (blank c (List.mem_of_mem_head? mem))
  have behind : ∀ column, Position.gap.scan column blanks = ⟨[], none⟩ := by
    intro column
    rw [← List.append_nil blanks, Position.scan_append, Position.reach_gap_blanks blank]
    rfl
  rw [Position.scan_segments spaced ends, behind, Position.found, List.append_nil]

/-- A scan of lexemes and an open quote finds them and reports the quote. -/
theorem scan_of_breaksOff {column : Nat} (h : BreaksOff line segments column) :
    Position.gap.scan 1 line = ⟨segments.map Segment.lexeme, some column⟩ := by
  obtain ⟨spaced, blanks, rest, blank, unclosed, rfl, rfl⟩ := h
  have ends : ∀ c ∈ (blanks ++ '"' :: rest).head?, isWordChar c = false := by
    cases blanks with
    | nil =>
      intro c mem
      obtain rfl : '"' = c := Option.some.inj mem
      rfl
    | cons b more =>
      intro c mem
      obtain rfl : b = c := Option.some.inj mem
      exact Position.isWordChar_blank (blank b List.mem_cons_self)
  have behind : ∀ column, Position.gap.scan column (blanks ++ '"' :: rest) =
      ⟨[], some (column + blanks.length)⟩ := by
    intro column
    rw [Position.scan_append, Position.reach_gap_blanks blank, Position.scan_unclosed unclosed]
    rfl
  rw [Position.scan_segments spaced ends, behind, Position.found, List.append_nil]
  exact congrArg (fun column => (⟨_, some column⟩ : Scan)) (by omega)

theorem tokenize_of_complete {line : String} (table : StringTable)
    (h : Complete (stripComment line.toList) segments) :
    tokenize line table =
      (.ok (segments.map fun segment =>
          Token.ofLexeme (table.insertAll (literalsOf segments)) segment.lexeme),
        table.insertAll (literalsOf segments)) := by
  rw [tokenize, Scan.ofLine, scan_of_complete h]
  exact Prod.ext (congrArg Except.ok List.map_map) rfl

theorem tokenize_of_breaksOff {line : String} (table : StringTable) {column : Nat}
    (h : BreaksOff (stripComment line.toList) segments column) :
    tokenize line table =
      (.error (.unterminated column), table.insertAll (literalsOf segments)) := by
  rw [tokenize, Scan.ofLine, scan_of_breaksOff h]
  rfl

/-- The table after a line, by its texts. -/
theorem eq_insertAll_iff {table later : StringTable} {texts : List String} :
    later = table.insertAll texts ↔ later.texts = (table.texts ++ texts).eraseDups := by
  rw [← StringTable.texts_insertAll]
  constructor
  · intro same
    rw [same]
  · intro same
    obtain ⟨laterTexts, _⟩ := later
    obtain rfl : laterTexts = _ := same
    rfl

/-- A line has tokens if it consists of lexemes, with blanks between words at least, and the tokens
are those of the lexemes in order.  Otherwise the first quote that nothing closes is reported.  All
literals that were closed are interned either way. -/
theorem tokenize_follows_grammar (line : String) (table later : StringTable) :
    (∀ tokens, tokenize line table = (.ok tokens, later) ↔
      ∃ segments, Complete (stripComment line.toList) segments ∧
        tokens = segments.map (fun segment => Token.ofLexeme later segment.lexeme) ∧
        later.texts = (table.texts ++ literalsOf segments).eraseDups) ∧
    ∀ fault, tokenize line table = (.error fault, later) ↔
      ∃ segments column, BreaksOff (stripComment line.toList) segments column ∧
        fault = .unterminated column ∧
        later.texts = (table.texts ++ literalsOf segments).eraseDups := by
  obtain ⟨segments, h | ⟨column, h⟩⟩ := complete_or_breaksOff (stripComment line.toList)
  · constructor
    · intro tokens
      constructor
      · intro result
        obtain ⟨same, rfl⟩ := Prod.mk.inj ((tokenize_of_complete table h).symm.trans result)
        exact ⟨segments, h, (Except.ok.inj same).symm, StringTable.texts_insertAll _ _⟩
      · rintro ⟨segments, h, rfl, texts⟩
        rw [tokenize_of_complete table h, eq_insertAll_iff.2 texts]
    · intro fault
      constructor
      · intro result
        cases (tokenize_of_complete table h).symm.trans result
      · rintro ⟨others, column, broken, -, -⟩
        cases (tokenize_of_complete table h).symm.trans (tokenize_of_breaksOff table broken)
  · constructor
    · intro tokens
      constructor
      · intro result
        cases (tokenize_of_breaksOff table h).symm.trans result
      · rintro ⟨others, complete, -, -⟩
        cases (tokenize_of_complete table complete).symm.trans (tokenize_of_breaksOff table h)
    · intro fault
      constructor
      · intro result
        obtain ⟨same, rfl⟩ := Prod.mk.inj ((tokenize_of_breaksOff table h).symm.trans result)
        exact ⟨segments, column, h, (Except.error.inj same).symm, StringTable.texts_insertAll _ _⟩
      · rintro ⟨segments, column, h, rfl, texts⟩
        rw [tokenize_of_breaksOff table h, eq_insertAll_iff.2 texts]

end Libretto.Script
