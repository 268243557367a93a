/-
Opcode definitions that were written are read back.

Names and numbers hold neither blanks nor separators, so nothing in a line that was written is
trimmed or taken for the end of a field.

* **`readWord_decimal`** — a word in base ten is read from its digits;
* **`addLine_line`** — the line of an opcode defines it, if its name and its word are new;
* **`addLines_lines`** — such lines define their opcodes one behind the other;
* **`ofText_text`** — the text of a numbering is read as that numbering.
-/
import Libretto.Opcode.Definitions
import Mathlib.Data.List.Perm.Basic
import Mathlib.Data.List.TakeDrop

namespace Libretto

/-! ### Numbers -/

namespace Numeral

theorem isDigit_bounds {c : Char} (digit : c.isDigit = true) : 48 ≤ c.toNat ∧ c.toNat ≤ 57 := by
  obtain ⟨low, high⟩ := Bool.and_eq_true_iff.1 digit
  exact ⟨UInt32.le_iff_toNat_le.1 (of_decide_eq_true low),
    UInt32.le_iff_toNat_le.1 (of_decide_eq_true high)⟩

theorem digitIn?_isDigit {c : Char} (digit : c.isDigit = true) :
    digitIn? 10 c = some (c.toNat - '0'.toNat) := by
  have bounds := isDigit_bounds digit
  have small : c.toNat - '0'.toNat < 10 := by
    show c.toNat - 48 < 10
    omega
  rw [digitIn?, if_pos digit]
  exact if_pos small

theorem le_ofDigitChars (digits : List Char) (value : Nat) :
    value ≤ Nat.ofDigitChars 10 digits value := by
  induction digits generalizing value with
  | nil => exact Nat.le_refl value
  | cons c rest ih =>
    rw [Nat.ofDigitChars_cons]
    refine Nat.le_trans ?_ (ih _)
    omega

/-- Digits are read up to the end, as long as the number fits a word. -/
theorem readDigits_ofDigitChars {digits : List Char} (decimal : ∀ c ∈ digits, c.isDigit = true)
    {value : Nat} (bound : Nat.ofDigitChars 10 digits value < 0x100000000) :
    readDigits 10 value digits = .ok (Nat.ofDigitChars 10 digits value) := by
  induction digits generalizing value with
  | nil => rfl
  | cons c rest ih =>
    rw [List.forall_mem_cons] at decimal
    rw [Nat.ofDigitChars_cons] at bound ⊢
    have small := Nat.lt_of_le_of_lt (le_ofDigitChars rest _) bound
    rw [readDigits, digitIn?_isDigit decimal.1]
    exact (if_pos small).trans (ih decimal.2 bound)

/-- Without a sign all characters are digits. -/
theorem readWord_cons {base : Nat} {c : Char} (unsigned : c ≠ '+') (rest : List Char) :
    readWord base (c :: rest) =
      (do return (← readDigits base 0 (c :: rest)).toUInt32 : Except WordError UInt32) := by
  rw [readWord]
  · rfl
  · intro _ _ same
    exact unsigned (List.cons.inj same).1

theorem isDigit_decimal (n : Nat) : ∀ c ∈ (decimal n).toList, c.isDigit = true := by
  rw [decimal, String.toList_ofList]
  exact fun _ mem => Nat.isDigit_of_mem_toDigits (by decide) (by decide) mem

/-- A word in base ten is read from its digits. -/
theorem readWord_decimal (word : UInt32) :
    readWord 10 (decimal word.toNat).toList = .ok word := by
  have decimal := isDigit_decimal word.toNat
  rw [Numeral.decimal, String.toList_ofList] at decimal ⊢
  have bound : Nat.ofDigitChars 10 (Nat.toDigits 10 word.toNat) 0 < 0x100000000 := by
    rw [Nat.ofDigitChars_ten_toDigits]
    exact word.toNat_lt
  have read := readDigits_ofDigitChars decimal bound
  rw [Nat.ofDigitChars_ten_toDigits] at read
  cases digits : Nat.toDigits 10 word.toNat with
  | nil => exact absurd digits Nat.toDigits_ne_nil
  | cons c rest =>
    rw [digits] at read decimal
    have unsigned : c ≠ '+' := by
      rintro rfl
      exact absurd (decimal '+' List.mem_cons_self) (by decide)
    rw [readWord_cons unsigned, read]
    exact congrArg Except.ok UInt32.ofNat_toNat

end Numeral

/-! ### Lines -/

namespace Text

/-- A line without line ends of its own is cut off whole. -/
theorem lines_cons {line : List Char} (plain : ∀ c ∈ line, c ≠ '\n' ∧ c ≠ '\r')
    (rest : List Char) : lines (line ++ '\n' :: rest) = line :: lines rest := by
  induction line with
  | nil => rfl
  | cons c more ih =>
    rw [List.forall_mem_cons] at plain
    obtain ⟨⟨noFeed, noReturn⟩, plain⟩ := plain
    rw [List.cons_append, lines.eq_4 _ _ noFeed fun _ same => absurd same noReturn, ih plain]

theorem dropWhile_isBlank {text : List Char} (front : ∀ c ∈ text.head?, isBlank c = false) :
    text.dropWhile isBlank = text := by
  cases text with
  | nil => rfl
  | cons c rest => exact List.dropWhile_cons_of_neg (by simpa using front c rfl)

/-- A text without blanks at its ends stays as it is. -/
theorem trim_eq_self {text : List Char} (front : ∀ c ∈ text.head?, isBlank c = false)
    (back : ∀ c ∈ text.getLast?, isBlank c = false) : trim text = text := by
  rw [trim, trimStart, dropWhile_isBlank front, trimEnd, dropWhile_isBlank, List.reverse_reverse]
  rwa [List.head?_reverse]

/-- Digits and capital letters are plain, and with them some signs; blanks are not. -/
def isPlain (c : Char) : Bool :=
  '0'.toNat ≤ c.toNat && c.toNat ≤ 'Z'.toNat

theorem isBlank_of_isPlain {c : Char} (h : isPlain c = true) : isBlank c = false := by
  have bounds : 48 ≤ c.toNat ∧ c.toNat ≤ 90 := by
    obtain ⟨low, high⟩ := Bool.and_eq_true_iff.1 h
    exact ⟨of_decide_eq_true low, of_decide_eq_true high⟩
  simp only [isBlank, blankRanges, List.any_cons, List.any_nil, Bool.or_false, Bool.or_eq_false_iff,
    Bool.and_eq_false_iff, decide_eq_false_iff_not]
  omega

theorem ne_of_isPlain {c d : Char} (h : isPlain c = true) (other : isPlain d = false) :
    c ≠ d := by
  rintro rfl
  rw [h] at other
  cases other

theorem trim_of_isPlain {text : List Char} (plain : ∀ c ∈ text, isPlain c = true) :
    trim text = text :=
  trim_eq_self (fun c mem => isBlank_of_isPlain (plain c (List.mem_of_mem_head? mem)))
    fun c mem => isBlank_of_isPlain (plain c (List.mem_of_mem_getLast? mem))

end Text

theorem Opcode.ofName?_name (op : Opcode) : ofName? op.name = some op := by
  cases op <;> decide

theorem Opcode.isPlain_name (op : Opcode) : ∀ c ∈ op.name.toList, Text.isPlain c = true := by
  have all : op.name.toList.all Text.isPlain = true := by
    cases op <;> decide
  exact List.all_eq_true.1 all

theorem Numeral.isPlain_decimal (n : Nat) : ∀ c ∈ (decimal n).toList, Text.isPlain c = true := by
  intro c mem
  have bounds := isDigit_bounds (isDigit_decimal n c mem)
  refine Bool.and_eq_true_iff.2 ⟨decide_eq_true bounds.1, decide_eq_true ?_⟩
  show c.toNat ≤ 90
  omega

/-- What a line holds behind the parenthesis. -/
def Definitions.body (name value : List Char) : List Char :=
  name ++ ',' :: ' ' :: (value ++ [')'])

/-- The line that defines an opcode, without its end. -/
def Numbering.line (numbering : Numbering) (op : Opcode) : List Char :=
  "PLOP_OP(".toList ++
    Definitions.body op.name.toList (Numeral.decimal (numbering.word op).toNat).toList

theorem Numbering.toList_definitionLine (numbering : Numbering) (op : Opcode) :
    (numbering.definitionLine op).toList = numbering.line op ++ ['\n'] := by
  -- about any texts, since the unifier unfolds literals
  have joined (opening name comma digits close : String) (separates : comma.toList = [',', ' '])
      (closes : close.toList = [')', '\n']) :
      (opening ++ name ++ comma ++ digits ++ close).toList =
        opening.toList ++ Definitions.body name.toList digits.toList ++ ['\n'] := by
    simp only [Definitions.body, String.toList_append, separates, closes, List.append_assoc,
      List.cons_append, List.nil_append]
  exact joined _ _ _ _ _ String.toList_ofList String.toList_ofList

/-- Between the letters and the parenthesis there is nothing to trim. -/
theorem Numbering.trim_line (numbering : Numbering) (op : Opcode) :
    Text.trim (numbering.line op) = numbering.line op := by
  have first : (numbering.line op).head? = some 'P' := rfl
  have last (opening name value : List Char) :
      (opening ++ Definitions.body name value).getLast? = some ')' := by
    rw [← List.getLast?_concat (l := opening ++ (name ++ ',' :: ' ' :: value))]
    simp only [Definitions.body, List.append_assoc, List.cons_append]
  refine Text.trim_eq_self ?_ ?_
  · intro c mem
    obtain rfl := Option.some.inj (first.symm.trans mem)
    decide
  · intro c mem
    obtain rfl := Option.some.inj ((last _ _ _).symm.trans mem)
    decide

theorem Numbering.plain_line (numbering : Numbering) (op : Opcode) :
    ∀ c ∈ numbering.line op, c ≠ '\n' ∧ c ≠ '\r' := by
  have plain {c : Char} (h : Text.isPlain c = true) : c ≠ '\n' ∧ c ≠ '\r' :=
    ⟨Text.ne_of_isPlain h (by decide), Text.ne_of_isPlain h (by decide)⟩
  have opening : '\n' ∉ "PLOP_OP(".toList ∧ '\r' ∉ "PLOP_OP(".toList := by decide +kernel
  intro c mem
  rcases List.mem_append.1 mem with mem | mem
  · constructor
    · rintro rfl
      exact opening.1 mem
    · rintro rfl
      exact opening.2 mem
  rcases List.mem_append.1 mem with mem | mem
  · exact plain (op.isPlain_name c mem)
  rcases List.mem_cons.1 mem with rfl | mem
  · decide
  rcases List.mem_cons.1 mem with rfl | mem
  · decide
  rcases List.mem_append.1 mem with mem | mem
  · exact plain (Numeral.isPlain_decimal _ c mem)
  · obtain rfl := List.mem_singleton.1 mem
    decide

namespace Definitions

/-- The fields of a line that was written are the name and the digits. -/
theorem fields?_body {name value : List Char} (plain : ∀ c ∈ name, Text.isPlain c = true)
    (plain' : ∀ c ∈ value, Text.isPlain c = true) :
    fields? (body name value) = some (name, value) := by
  have noClosing (c : Char) (h : Text.isPlain c = true) : decide (c ≠ ')') = true :=
    decide_eq_true (Text.ne_of_isPlain h (by decide))
  have noComma (c : Char) (h : Text.isPlain c = true) : decide (c ≠ ',') = true :=
    decide_eq_true (Text.ne_of_isPlain h (by decide))
  have inside : (body name value).takeWhile (· ≠ ')') = name ++ ',' :: ' ' :: value := by
    rw [body, List.takeWhile_append_of_pos fun c mem => noClosing c (plain c mem),
      List.takeWhile_cons_of_pos (by decide), List.takeWhile_cons_of_pos (by decide),
      List.takeWhile_append_of_pos fun c mem => noClosing c (plain' c mem),
      List.takeWhile_cons_of_neg (by decide), List.append_nil]
  have split : (name ++ ',' :: ' ' :: value).span (· ≠ ',') = (name, ',' :: ' ' :: value) := by
    rw [List.span_eq_takeWhile_dropWhile,
      List.takeWhile_append_of_pos fun c mem => noComma c (plain c mem),
      List.dropWhile_append_of_pos fun c mem => noComma c (plain c mem),
      List.takeWhile_cons_of_neg (by decide), List.dropWhile_cons_of_neg (by decide),
      List.append_nil]
  have blank : Text.trim (' ' :: value) = Text.trim value := rfl
  rw [fields?, inside, split]
  show some (Text.trim name, Text.trim (' ' :: value)) = _
  rw [blank, Text.trim_of_isPlain plain, Text.trim_of_isPlain plain']

variable {definitions : Definitions} {numbering : Numbering} {op : Opcode} {done : List Opcode}

/-- The line of an opcode defines it, if its name and its word are new. -/
theorem addLine_line (number : Nat) (newName : definitions.word? op = none)
    (newWord : definitions.opcode? (numbering.word op) = none) :
    definitions.addLine number (numbering.line op) =
      .ok (definitions.insert op (numbering.word op) newName newWord) := by
  have digits := Numeral.isPlain_decimal (numbering.word op).toNat
  have opens : "PLOP_OP(".toList.isPrefixOf (numbering.line op) = true :=
    List.isPrefixOf_iff_prefix.2 (List.prefix_append _ _)
  have behind : (numbering.line op).drop 8 =
      body op.name.toList (Numeral.decimal (numbering.word op).toNat).toList :=
    List.drop_left' (by decide +kernel)
  have found : body? (numbering.line op) = some _ := (if_pos opens).trans (congrArg some behind)
  generalize numbering.line op = line at found
  rw [addLine, found]
  dsimp only
  rw [fields?_body op.isPlain_name digits]
  dsimp only
  rw [Numeral.readWord_decimal, String.ofList_toList, op.ofName?_name]
  dsimp only
  split
  next there => cases newName.symm.trans there
  next =>
    split
    next there => cases newWord.symm.trans there
    next => rfl

/-- The entry of an opcode in a numbering. -/
def entry (numbering : Numbering) (op : Opcode) : Opcode × UInt32 :=
  (op, numbering.word op)

theorem word?_eq_some_iff {word : UInt32} :
    definitions.word? op = some word ↔ (op, word) ∈ definitions.entries := by
  constructor
  · intro found
    obtain ⟨front, back, same, -⟩ := List.lookup_eq_some_iff.1 found
    exact same ▸ List.mem_append_right front List.mem_cons_self
  · intro mem
    obtain ⟨front, back, same⟩ := List.append_of_mem mem
    refine List.lookup_eq_some_iff.2 ⟨front, back, same, ?_⟩
    intro entry ahead
    have distinct := definitions.distinct
    rw [same, List.pairwise_append] at distinct
    exact bne_iff_ne.2 (distinct.2.2 entry ahead _ List.mem_cons_self).1.symm

theorem opcode?_eq_some_iff {word : UInt32} :
    definitions.opcode? word = some op ↔ (op, word) ∈ definitions.entries := by
  constructor
  · intro found
    obtain ⟨entry, first, rfl⟩ := Option.map_eq_some_iff.1 found
    have same := List.find?_some first
    exact beq_iff_eq.1 same ▸ List.mem_of_find?_eq_some first
  · intro mem
    have used : (definitions.entries.find? fun entry => entry.2 == word).isSome = true :=
      List.find?_isSome.2 ⟨(op, word), mem, beq_self_eq_true word⟩
    obtain ⟨entry, first⟩ := Option.isSome_iff_exists.1 used
    have same := List.find?_some first
    obtain rfl := entry_unique definitions.distinct mem (List.mem_of_find?_eq_some first)
      (beq_iff_eq.1 same).symm
    rw [opcode?, first]
    rfl

theorem word?_of_mem (known : definitions.entries = done.map (entry numbering)) (mem : op ∈ done) :
    definitions.word? op = some (numbering.word op) := by
  rw [word?_eq_some_iff, known]
  exact List.mem_map_of_mem mem

theorem word?_of_not_mem (known : definitions.entries = done.map (entry numbering))
    (new : op ∉ done) : definitions.word? op = none := by
  rw [Option.eq_none_iff_forall_ne_some]
  intro word found
  rw [word?_eq_some_iff, known] at found
  obtain ⟨other, old, same⟩ := List.mem_map.1 found
  obtain ⟨rfl, rfl⟩ := Prod.mk.inj same
  exact new old

theorem opcode?_of_not_mem (known : definitions.entries = done.map (entry numbering))
    (new : op ∉ done) : definitions.opcode? (numbering.word op) = none := by
  rw [Option.eq_none_iff_forall_ne_some]
  intro other used
  rw [opcode?_eq_some_iff, known] at used
  obtain ⟨same, old, equal⟩ := List.mem_map.1 used
  obtain ⟨rfl, word⟩ := Prod.mk.inj equal
  obtain rfl := numbering.word_injective word
  exact new old

/-- Lines of different opcodes define them one behind the other. -/
theorem addLines_lines {ops : List Opcode} (number : Nat)
    (known : definitions.entries = done.map (entry numbering)) (different : (done ++ ops).Nodup) :
    ∃ after, definitions.addLines number (ops.map numbering.line) = .ok after ∧
      after.entries = (done ++ ops).map (entry numbering) := by
  induction ops generalizing definitions done number with
  | nil => exact ⟨definitions, rfl, by rw [known, List.append_nil]⟩
  | cons op rest ih =>
    have new : op ∉ done := by
      intro mem
      exact (List.nodup_append.1 different).2.2 op mem op List.mem_cons_self rfl
    have added := addLine_line number (word?_of_not_mem known new) (opcode?_of_not_mem known new)
    rw [List.map_cons, addLines, numbering.trim_line, added]
    rw [List.append_cons] at different ⊢
    refine ih (number + 1) ?_ different
    show definitions.entries ++ [(op, numbering.word op)] = _
    rw [known, List.map_append]
    rfl

/-- Lines that define nothing are passed over. -/
theorem addLines_passed {lines : List (List Char)}
    (passed : ∀ line ∈ lines, body? (Text.trim line) = none) (definitions : Definitions)
    (number : Nat) (rest : List (List Char)) :
    definitions.addLines number (lines ++ rest) =
      definitions.addLines (number + lines.length) rest := by
  induction lines generalizing number with
  | nil => rfl
  | cons line more ih =>
    rw [List.forall_mem_cons] at passed
    rw [List.cons_append, addLines, addLine, passed.1]
    dsimp only
    rw [ih passed.2, List.length_cons, Nat.add_assoc, Nat.add_comm 1]

end Definitions

namespace Numbering

theorem eq_of_word {a b : Numbering} (same : ∀ op, a.word op = b.word op) : a = b := by
  cases a
  cases b
  obtain rfl := funext same
  rfl

theorem lines_definitionLines_append (numbering : Numbering) (ops : List Opcode)
    (behind : List Char) :
    Text.lines ((String.join (ops.map numbering.definitionLine)).toList ++ behind) =
      ops.map numbering.line ++ Text.lines behind := by
  rw [String.toList_join]
  induction ops with
  | nil => rfl
  | cons op rest ih =>
    rw [List.map_cons, List.flatMap_cons, toList_definitionLine, List.append_assoc,
      List.append_assoc]
    exact (Text.lines_cons (numbering.plain_line op) _).trans (congrArg _ ih)

theorem lines_definitionLines (numbering : Numbering) (ops : List Opcode) :
    Text.lines (String.join (ops.map numbering.definitionLine)).toList =
      ops.map numbering.line := by
  have alone := numbering.lines_definitionLines_append ops []
  rwa [List.append_nil, Text.lines, List.append_nil] at alone

theorem entries_perm (numbering : Numbering) : numbering.entries.Perm Opcode.all :=
  List.mergeSort_perm _ _

/-- The comment on top of the definitions; an empty line follows. -/
def comment : List Char :=
  "// Auto-generated – DO NOT EDIT\n// #define PLOP_OP(name, value) before including\n".toList

/-- The text of a numbering is read as that numbering. -/
theorem ofText_text (numbering : Numbering) : ofText numbering.text = .ok numbering := by
  have passed : ∀ line ∈ Text.lines (comment ++ ['\n']),
      Definitions.body? (Text.trim line) = none := by decide +kernel
  have split : numbering.text.toList = comment ++ '\n' ::
      (String.join (numbering.entries.map numbering.definitionLine)).toList := by
    rw [List.append_cons]
    exact String.toList_append.trans (congrArg (· ++ _) (by decide +kernel))
  have nothing : Definitions.empty.entries = [].map (Definitions.entry numbering) := rfl
  have different : ([] ++ numbering.entries).Nodup :=
    numbering.entries_perm.nodup_iff.2 (by decide)
  obtain ⟨after, read, known⟩ := Definitions.addLines_lines
    (1 + (Text.lines (comment ++ ['\n'])).length) nothing different
  have word (op : Opcode) : after.word? op = some (numbering.word op) :=
    Definitions.word?_of_mem known (numbering.entries_perm.mem_iff.2 op.mem_all)
  have complete : after.missing = [] := by
    refine List.filter_eq_nil_iff.2 fun op _ => ?_
    rw [word op]
    exact Bool.false_ne_true
  rw [ofText, split, Text.lines_append, lines_definitionLines,
    Definitions.addLines_passed passed, read]
  dsimp only
  rw [dif_pos complete]
  refine congrArg Except.ok (eq_of_word fun op => ?_)
  exact Option.get_of_eq_some _ (word op)

end Numbering

end Libretto
