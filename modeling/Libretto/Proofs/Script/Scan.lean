/-
Scanning in pieces.

* **`Position.reach`**, **`scan_append`** — a scan of two pieces goes on where the first one ended;
* **`Scan.Agree`**, **`scan_agree`** — columns matter for nothing but reports;
* **`scan_blanks`** — blanks between lexemes change nothing;
* **`length_lexemes_le`**, **`mem_line_of_mem_text`** — a line has no more lexemes than characters,
  and their texts consist of its characters.
-/
import Libretto.Script.Lexeme

namespace Libretto.Script

/-- The text of a literal or a word. -/
def Lexeme.text? : Lexeme → Option String
  | quoted text | word text => some text
  | opening | closing => none

/-- Scans with the same lexemes, of which both or neither leave a quote open. -/
def Scan.Agree (a b : Scan) : Prop :=
  a.lexemes = b.lexemes ∧ (a.openQuote = none ↔ b.openQuote = none)

namespace Position

/-- The lexemes that a piece of a line completes, and where the scan stands behind it. -/
def reach (position : Position) (column : Nat) : List Char → List Lexeme × Position
  | [] => ([], position)
  | c :: rest =>
    let (lexemes, next) := position.step column c
    let (more, last) := next.reach (column + 1) rest
    (lexemes ++ more, last)

theorem scan_cons (position : Position) (column : Nat) (c : Char) (rest : List Char) :
    position.scan column (c :: rest) =
      ⟨(position.step column c).1 ++ ((position.step column c).2.scan (column + 1) rest).lexemes,
        ((position.step column c).2.scan (column + 1) rest).openQuote⟩ := rfl

theorem reach_cons (position : Position) (column : Nat) (c : Char) (rest : List Char) :
    position.reach column (c :: rest) =
      ((position.step column c).1 ++ ((position.step column c).2.reach (column + 1) rest).1,
        ((position.step column c).2.reach (column + 1) rest).2) := rfl

/-- A scan of two pieces goes on where the first one ended. -/
theorem scan_append (position : Position) (column : Nat) (front back : List Char) :
    position.scan column (front ++ back) =
      ⟨(position.reach column front).1 ++
          ((position.reach column front).2.scan (column + front.length) back).lexemes,
        ((position.reach column front).2.scan (column + front.length) back).openQuote⟩ := by
  induction front generalizing position column with
  | nil => rfl
  | cons c rest ih =>
    have assoc : column + 1 + rest.length = column + (c :: rest).length := by
      rw [List.length_cons]
      omega
    rw [List.cons_append, scan_cons, ih, reach_cons, assoc]
    simp only [List.append_assoc]

/-! ### Columns -/

/-- Positions that differ in columns only. -/
inductive SameShape : Position → Position → Prop where
  | gap : SameShape gap gap
  | word (reversed : List Char) : SameShape (word reversed) (word reversed)
  | literal (a b : Nat) (reversed : List Char) : SameShape (literal a reversed) (literal b reversed)
  | escape (a b : Nat) (reversed : List Char) : SameShape (escape a reversed) (escape b reversed)


theorem start_sameShape (a b : Nat) (c : Char) :
    (start a c).1 = (start b c).1 ∧ SameShape (start a c).2 (start b c).2 := by
  unfold start
  repeat' split
  all_goals exact ⟨rfl, by constructor⟩

theorem step_sameShape {p q : Position} (h : SameShape p q) (a b : Nat) (c : Char) :
    (p.step a c).1 = (q.step b c).1 ∧ SameShape (p.step a c).2 (q.step b c).2 := by
  cases h with
  | gap => exact start_sameShape a b c
  | word reversed =>
    have next := start_sameShape a b c
    simp only [step]
    split
    · exact ⟨rfl, .word _⟩
    · exact ⟨congrArg (Lexeme.word (.ofList reversed.reverse) :: ·) next.1, next.2⟩
  | literal x y reversed =>
    simp only [step]
    repeat' split
    all_goals exact ⟨rfl, by constructor⟩
  | escape x y reversed => exact ⟨rfl, .literal _ _ _⟩

/-- The same characters give the same lexemes in all columns. -/
theorem scan_agree {p q : Position} (h : SameShape p q) (a b : Nat) (line : List Char) :
    (p.scan a line).Agree (q.scan b line) := by
  induction line generalizing p q a b with
  | nil => cases h <;> exact ⟨rfl, by simp [scan, finish]⟩
  | cons c rest ih =>
    obtain ⟨lexemes, next⟩ := step_sameShape h a b c
    obtain ⟨more, quote⟩ := ih next (a + 1) (b + 1)
    rw [scan_cons, scan_cons]
    exact ⟨by rw [lexemes, more], quote⟩

/-! ### Blanks -/

/-- A position at which no lexeme runs on into the following characters. -/
def Between (position : Position) (back : List Char) : Prop :=
  match position with
  | gap => True
  | word _ => ∀ c ∈ back.head?, isWordChar c = false
  | literal .. | escape .. => False

theorem start_blank {c : Char} (h : Text.isBlank c) (column : Nat) :
    start column c = ([], gap) := by
  have opening : c ≠ '(' := by rintro rfl; exact absurd h (by decide)
  have closing : c ≠ ')' := by rintro rfl; exact absurd h (by decide)
  have quote : c ≠ '"' := by rintro rfl; exact absurd h (by decide)
  simp [start, opening, closing, quote, h]

theorem isWordChar_blank {c : Char} (h : Text.isBlank c) : isWordChar c = false := by
  simp [isWordChar, h]

/-- Blanks in a gap are skipped. -/
theorem reach_gap_blanks {blanks : List Char} (h : ∀ c ∈ blanks, Text.isBlank c) (column : Nat) :
    gap.reach column blanks = ([], gap) := by
  induction blanks generalizing column with
  | nil => rfl
  | cons c rest ih =>
    rw [List.forall_mem_cons] at h
    rw [reach_cons, step, start_blank h.1, ih h.2]
    rfl

/-- A word ends in front of a character that it cannot hold, and in front of a blank. -/
theorem scan_word_eq (reversed : List Char) {back : List Char} (column other : Nat)
    (h : ∀ c ∈ back.head?, isWordChar c = false) :
    Scan.Agree
      ⟨.word (.ofList reversed.reverse) :: (gap.scan other back).lexemes,
        (gap.scan other back).openQuote⟩
      ((word reversed).scan column back) := by
  cases back with
  | nil => exact ⟨rfl, Iff.rfl⟩
  | cons c rest =>
    have ends := h c rfl
    have next := start_sameShape other column c
    obtain ⟨more, quote⟩ := scan_agree next.2 (other + 1) (column + 1) rest
    rw [scan_cons, scan_cons]
    simp only [step, ends, Bool.false_eq_true, if_false]
    exact ⟨by rw [next.1, more, List.cons_append], quote⟩

/-- Blanks between lexemes change nothing. -/
theorem scan_blanks {position : Position} {blanks back : List Char}
    (h : ∀ c ∈ blanks, Text.isBlank c) (between : position.Between back) (column : Nat) :
    (position.scan column back).Agree (position.scan column (blanks ++ back)) := by
  cases position with
  | gap =>
    rw [scan_append, reach_gap_blanks h]
    exact scan_agree .gap _ _ _
  | word reversed =>
    cases blanks with
    | nil => exact ⟨rfl, Iff.rfl⟩
    | cons c rest =>
      -- the word ends either way: at the first blank here, at the head of `back` there
      obtain ⟨lexemes, quote⟩ := scan_word_eq reversed column (column + (c :: rest).length)
        between
      have shape : (word reversed).reach column (c :: rest) =
          ([.word (.ofList reversed.reverse)], gap) := by
        rw [List.forall_mem_cons] at h
        rw [reach_cons, step, if_neg (by simp [isWordChar_blank h.1]), start_blank h.1,
          reach_gap_blanks h.2]
        rfl
      rw [scan_append, shape]
      exact ⟨lexemes.symm, quote.symm⟩
  | literal column reversed => exact between.elim
  | escape column reversed => exact between.elim

end Position

/-- Blanks between two pieces of a line change nothing. -/
theorem Scan.agree_blanks {front blanks back : List Char} (h : ∀ c ∈ blanks, Text.isBlank c)
    (between : (Position.gap.reach 1 front).2.Between back) :
    Scan.Agree (Position.gap.scan 1 (front ++ back))
      (Position.gap.scan 1 (front ++ (blanks ++ back))) := by
  obtain ⟨lexemes, quote⟩ := Position.scan_blanks h between (1 + front.length)
  rw [Position.scan_append, Position.scan_append _ _ front]
  exact ⟨by rw [lexemes], quote⟩

/-- Behind a line without an open quote and a blank, a scan begins anew. -/
theorem Scan.agree_append {front : List Char} {c : Char} (blank : Text.isBlank c)
    (closed : (Position.gap.scan 1 front).openQuote = none) (back : List Char) :
    Scan.Agree
      ⟨(Position.gap.scan 1 front).lexemes ++ (Position.gap.scan 1 back).lexemes,
        (Position.gap.scan 1 back).openQuote⟩
      (Position.gap.scan 1 (front ++ c :: back)) := by
  have whole := Position.scan_append .gap 1 front []
  rw [List.append_nil] at whole
  rw [whole] at closed ⊢
  rw [Position.scan_append]
  obtain ⟨more, quote⟩ := Position.scan_agree .gap 1 (1 + front.length + 1) back
  have begins := Position.start_blank blank (1 + front.length)
  -- a word that reaches the end of `front` is completed by the end of line or by the blank
  cases last : (Position.gap.reach 1 front).2 with
  | gap =>
    rw [Position.scan_cons, Position.step, begins]
    exact ⟨by simp [Position.scan, Position.finish, more], quote⟩
  | word reversed =>
    rw [Position.scan_cons, Position.step, if_neg (by simp [Position.isWordChar_blank blank]),
      begins]
    exact ⟨by simp [Position.scan, Position.finish, more], quote⟩
  | literal column reversed =>
    rw [last] at closed
    cases closed
  | escape column reversed =>
    rw [last] at closed
    cases closed

/-! ### Lexemes and characters -/

namespace Position

/-- What was read of a lexeme that is not complete. -/
def held : Position → List Char
  | gap => []
  | word reversed | literal _ reversed | escape _ reversed => reversed

/-- The number of lexemes that the end of the line completes. -/
def pending : Position → Nat
  | word _ => 1
  | gap | literal .. | escape .. => 0

theorem length_start_le (column : Nat) (c : Char) :
    (start column c).1.length + (start column c).2.pending ≤ 1 := by
  unfold start
  repeat' split
  all_goals simp [pending]

theorem length_step_le (position : Position) (column : Nat) (c : Char) :
    (position.step column c).1.length + (position.step column c).2.pending ≤
      position.pending + 1 := by
  have starts := length_start_le column c
  cases position with
  | gap => simpa [step, pending] using starts
  | word reversed =>
    -- a parenthesis behind a word gives two lexemes at once, of which the word was pending
    have held : (word reversed).pending = 1 := rfl
    simp only [step]
    split
    · simp [pending]
    · simp only [List.length_cons]
      omega
  | literal opened reversed =>
    simp only [step]
    repeat' split
    all_goals simp [pending]
  | escape opened reversed => simp [step, pending]

/-- A scan makes no more lexemes than it reads characters, but for a word that has begun. -/
theorem length_lexemes_le (position : Position) (column : Nat) (line : List Char) :
    (position.scan column line).lexemes.length ≤ line.length + position.pending := by
  induction line generalizing position column with
  | nil => cases position <;> simp [scan, finish, pending]
  | cons c rest ih =>
    have first := length_step_le position column c
    have more := ih (position.step column c).2 (column + 1)
    rw [scan_cons, List.length_append, List.length_cons]
    omega

/-- Every text consists of characters that were held or have been read. -/
def TextsOf (chars : List Char) (lexemes : List Lexeme) : Prop :=
  ∀ lexeme ∈ lexemes, ∀ text, lexeme.text? = some text → ∀ c ∈ text.toList, c ∈ chars

theorem start_textsOf (column : Nat) (c : Char) (chars : List Char) :
    TextsOf chars (start column c).1 ∧ ∀ d ∈ (start column c).2.held, d = c := by
  unfold start
  repeat' split
  all_goals simp [TextsOf, Lexeme.text?, held]

theorem textsOf_ofList {chars : List Char} (reversed : List Char) {lexeme : Lexeme}
    (h : lexeme.text? = some (.ofList reversed.reverse)) (mem : ∀ c ∈ reversed, c ∈ chars) :
    TextsOf chars [lexeme] := by
  intro other hother text htext c hc
  obtain rfl := List.mem_singleton.1 hother
  obtain rfl := Option.some.inj (h.symm.trans htext)
  exact mem c (by simpa using hc)

theorem step_textsOf (position : Position) (column : Nat) (c : Char) :
    TextsOf position.held (position.step column c).1 ∧
      ∀ d ∈ (position.step column c).2.held, d = c ∨ d ∈ position.held := by
  cases position with
  | gap =>
    obtain ⟨texts, mem⟩ := start_textsOf column c []
    exact ⟨texts, fun d hd => .inl (mem d hd)⟩
  | word reversed =>
    obtain ⟨texts, mem⟩ := start_textsOf column c reversed
    simp only [step, held]
    split
    · exact ⟨by simp [TextsOf], by simp⟩
    · refine ⟨?_, fun d hd => .inl (mem d hd)⟩
      intro lexeme hlexeme
      rcases List.mem_cons.1 hlexeme with rfl | hlexeme
      · exact textsOf_ofList reversed rfl (fun _ h => h) _ List.mem_cons_self
      · exact texts lexeme hlexeme
  | literal opened reversed =>
    simp only [step, held]
    split
    · exact ⟨textsOf_ofList reversed rfl fun _ h => h, by simp⟩
    · split
      all_goals exact ⟨by simp [TextsOf], by simp⟩
  | escape opened reversed => exact ⟨by simp [step, TextsOf], by simp [step, held]⟩

theorem scan_textsOf (position : Position) (column : Nat) (line : List Char) :
    TextsOf (position.held ++ line) (position.scan column line).lexemes := by
  induction line generalizing position column with
  | nil =>
    cases position with
    | word reversed => exact textsOf_ofList reversed rfl (by simp [held])
    | gap | literal | escape => simp [scan, finish, TextsOf]
  | cons c rest ih =>
    obtain ⟨texts, mem⟩ := step_textsOf position column c
    rw [scan_cons]
    intro lexeme hlexeme text htext d hd
    rcases List.mem_append.1 hlexeme with hlexeme | hlexeme
    · exact List.mem_append_left _ (texts lexeme hlexeme text htext d hd)
    · rcases List.mem_append.1 (ih _ _ lexeme hlexeme text htext d hd) with hd | hd
      · rcases mem d hd with rfl | hd
        · simp
        · exact List.mem_append_left _ hd
      · simp [hd]

end Position

theorem Scan.length_lexemes_le (line : List Char) :
    (Scan.ofLine line).lexemes.length ≤ line.length := by
  have scanned := Position.length_lexemes_le .gap 1 (stripComment line)
  have stripped : (stripComment line).length ≤ line.length :=
    (List.takeWhile_prefix _).length_le
  rw [Scan.ofLine]
  simp only [Position.pending] at scanned
  omega

/-- The texts of a line consist of its characters. -/
theorem Scan.mem_line_of_mem_text {line : List Char} {lexeme : Lexeme} {text : String} {c : Char}
    (mem : lexeme ∈ (Scan.ofLine line).lexemes) (htext : lexeme.text? = some text)
    (hc : c ∈ text.toList) : c ∈ line :=
  (List.takeWhile_prefix _).subset (Position.scan_textsOf .gap 1 _ lexeme mem text htext c hc)

end Libretto.Script
