/-
Opcode definitions are accepted if and only if they are complete and free of collisions.

What a line defines is said by its characters, and what is wrong with it by the lines in front of
it.  Neither mentions the definitions that are collected on the way.

* **`Defines`** — the line gives an opcode its word;
* **`Offends`** — what is wrong with a line, behind the lines in front of it;
* **`addLine_of_offends`**, **`exists_addLine`** — one line is added, or its fault is found;
* **`exists_addLines`**, **`addLines_of_offends`** — and so on, down to the first line at fault;
* **`ofText_eq_ok_iff`**, **`ofText_eq_error_iff`** — which numbering a text is read as, and what it
  is rejected for;
* **`ofText_accepts`** — both together, and that the order of the lines does not matter.

The invariant is that the definitions collected so far are those of the lines read so far, in order.
-/
import Libretto.Proofs.Opcode.Definitions
import Libretto.Proofs.Outcome
import Libretto.Proofs.Text.Cut
import Mathlib.Data.List.Forall2
import Mathlib.Data.List.Induction
import Mathlib.Data.List.Nodup
import Mathlib.Data.List.Perm.Basic

namespace Libretto

/-- A text says a word: digits in base ten, which a plus sign may lead. -/
def Numeral.SaysWord (text : List Char) (word : UInt32) : Prop :=
  ∃ digits, (text = digits ∨ text = '+' :: digits) ∧ digits ≠ [] ∧
    (∀ c ∈ digits, c.isDigit = true) ∧ Nat.ofDigitChars 10 digits 0 = word.toNat

namespace Definitions

/-- The trimmed lines of a text. -/
def linesOf (text : String) : List (List Char) :=
  (Text.lines text.toList).map Text.trim

/-- What a line begins with that opens a definition. -/
def opening : List Char :=
  "PLOP_OP(".toList

/-- A line that opens a definition. -/
def opens (line : List Char) : Bool :=
  opening.isPrefixOf line

/-- The fields of a line: what stands behind the opening, up to a closing parenthesis or the end,
is cut at its first comma, and both parts are trimmed. -/
def HasFields (line name value : List Char) : Prop :=
  ∃ front back behind, line = opening ++ (front ++ ',' :: back ++ behind) ∧
    ')' ∉ front ++ ',' :: back ∧ (∀ c ∈ behind.head?, c = ')') ∧ ',' ∉ front ∧
      name = Text.trim front ∧ value = Text.trim back

/-- A line defines an opcode: its fields are the name and the word. -/
def Defines (line : List Char) (op : Opcode) (word : UInt32) : Prop :=
  ∃ value, HasFields line op.name.toList value ∧ Numeral.SaysWord value word

/-- What is wrong with a line, given the lines in front of it.  The kinds exclude each other: where a
line repeats both an opcode and a word, it is the opcode that counts. -/
inductive Offends (before : List (List Char)) (line : List Char) : DefinitionError → Prop where
  | malformed (begins : opens line = true)
      (unfit : ∀ name value word, HasFields line name value → ¬ Numeral.SaysWord value word) :
      Offends before line (.malformed (before.length + 1) (.ofList line))
  | unknownName {name value : List Char} {word : UInt32} (fields : HasFields line name value)
      (number : Numeral.SaysWord value word) (unknown : ∀ op : Opcode, op.name ≠ .ofList name) :
      Offends before line (.unknownName (before.length + 1) (.ofList name))
  | duplicateName {op : Opcode} {word : UInt32} (defines : Defines line op word)
      (earlier : ∃ line ∈ before, ∃ word, Defines line op word) :
      Offends before line (.duplicateName (before.length + 1) op.name)
  | duplicateWord {op other : Opcode} {word : UInt32} (defines : Defines line op word)
      (fresh : ∀ line ∈ before, ∀ word, ¬ Defines line op word)
      (earlier : ∃ line ∈ before, Defines line other word) :
      Offends before line (.duplicateWord (before.length + 1) op.name word other)

/-- No line is at fault. -/
def Clean (lines : List (List Char)) : Prop :=
  ∀ front line back, lines = front ++ line :: back → ∀ e, ¬ Offends front line e

end Definitions

/-! ### Words in base ten -/

namespace Numeral

theorem isDigit_of_digitIn? {c : Char} {digit : Nat} (h : digitIn? 10 c = some digit) :
    c.isDigit = true := by
  by_contra other
  rw [digitIn?, if_neg other] at h
  -- a letter counts ten at least
  split at h
  · rw [if_neg (by omega)] at h
    cases h
  · split at h
    · rw [if_neg (by omega)] at h
      cases h
    · cases h

/-- What is read are the digits up to the end. -/
theorem ofDigitChars_of_readDigits {digits : List Char} {value n : Nat}
    (h : readDigits 10 value digits = .ok n) (small : value < 0x100000000) :
    (∀ c ∈ digits, c.isDigit = true) ∧ Nat.ofDigitChars 10 digits value = n ∧
      n < 0x100000000 := by
  induction digits generalizing value with
  | nil =>
    obtain rfl := Except.ok.inj h
    exact ⟨by simp, rfl, small⟩
  | cons c rest ih =>
    rw [readDigits] at h
    cases found : digitIn? 10 c with
    | none =>
      rw [found] at h
      cases h
    | some digit =>
      have decimal := isDigit_of_digitIn? found
      obtain rfl : c.toNat - '0'.toNat = digit :=
        Option.some.inj ((digitIn?_isDigit decimal).symm.trans found)
      rw [found] at h
      dsimp only at h
      split at h
      · next fits =>
        obtain ⟨all, same, bound⟩ := ih h fits
        exact ⟨List.forall_mem_cons.2 ⟨decimal, all⟩, by rw [Nat.ofDigitChars_cons, same], bound⟩
      · cases h

/-- A word is read from the texts that say it. -/
theorem readWord_eq_ok_iff {text : List Char} {word : UInt32} :
    readWord 10 text = .ok word ↔ SaysWord text word := by
  -- behind a sign or not, what is read are digits
  have read : ∀ digits : List Char,
      ((do return (← readDigits 10 0 digits).toUInt32 : Except WordError UInt32) = .ok word ↔
        (∀ c ∈ digits, c.isDigit = true) ∧ Nat.ofDigitChars 10 digits 0 = word.toNat) := by
    intro digits
    constructor
    · intro h
      obtain ⟨n, found, same⟩ := exists_of_bind_eq_ok h
      obtain ⟨decimal, value, bound⟩ := ofDigitChars_of_readDigits found (by decide)
      refine ⟨decimal, ?_⟩
      rw [value, ← Except.ok.inj same]
      exact (UInt32.toNat_ofNat_of_lt' bound).symm
    · rintro ⟨decimal, value⟩
      rw [readDigits_ofDigitChars decimal (value ▸ word.toNat_lt), value]
      exact congrArg Except.ok UInt32.ofNat_toNat
  have begun : ∀ {digits : List Char}, digits ≠ [] → (readWord 10 ('+' :: digits) = .ok word ↔
      (∀ c ∈ digits, c.isDigit = true) ∧ Nat.ofDigitChars 10 digits 0 = word.toNat) := by
    intro digits nonempty
    obtain ⟨c, rest, rfl⟩ := List.exists_cons_of_ne_nil nonempty
    exact read (c :: rest)
  have plain : ∀ {c : Char} {rest : List Char}, c ≠ '+' → (readWord 10 (c :: rest) = .ok word ↔
      (∀ d ∈ c :: rest, d.isDigit = true) ∧ Nat.ofDigitChars 10 (c :: rest) 0 = word.toNat) := by
    intro c rest unsigned
    rw [readWord_cons unsigned]
    exact read (c :: rest)
  have noDigit : '+'.isDigit = false := by decide
  constructor
  · intro h
    match text with
    | [] => cases h
    | c :: rest =>
      by_cases sign : c = '+'
      · subst sign
        by_cases nonempty : rest = []
        · subst nonempty
          cases h
        · obtain ⟨decimal, value⟩ := (begun nonempty).1 h
          exact ⟨rest, .inr rfl, nonempty, decimal, value⟩
      · obtain ⟨decimal, value⟩ := (plain sign).1 h
        exact ⟨c :: rest, .inl rfl, List.cons_ne_nil c rest, decimal, value⟩
  · rintro ⟨digits, rfl | rfl, nonempty, decimal, value⟩
    · obtain ⟨c, rest, rfl⟩ := List.exists_cons_of_ne_nil nonempty
      have unsigned : c ≠ '+' := by
        rintro rfl
        exact Bool.false_ne_true (noDigit.symm.trans (decimal '+' List.mem_cons_self))
      exact (plain unsigned).2 ⟨decimal, value⟩
    · exact (begun nonempty).2 ⟨decimal, value⟩

end Numeral

namespace Definitions

/-! ### The fields of a line -/

theorem body?_eq_some_iff {line body : List Char} :
    body? line = some body ↔ line = opening ++ body := by
  have length : opening.length = 8 := by decide +kernel
  rw [body?, Option.ite_none_right_eq_some, Option.some_inj, List.isPrefixOf_iff_prefix]
  constructor
  · rintro ⟨⟨rest, rfl⟩, rfl⟩
    exact congrArg (opening ++ ·) (List.drop_left' length).symm
  · rintro rfl
    exact ⟨List.prefix_append opening body, List.drop_left' length⟩

theorem opens_iff {line : List Char} : opens line = true ↔ ∃ body, body? line = some body := by
  simp only [body?_eq_some_iff]
  rw [opens, List.isPrefixOf_iff_prefix]
  exact exists_congr fun body => eq_comm

theorem fields?_eq_some_iff {body name value : List Char} :
    fields? body = some (name, value) ↔
      ∃ front back behind, body = front ++ ',' :: back ++ behind ∧ ')' ∉ front ++ ',' :: back ∧
        (∀ c ∈ behind.head?, c = ')') ∧ ',' ∉ front ∧
          name = Text.trim front ∧ value = Text.trim back := by
  rw [fields?, List.span_eq_takeWhile_dropWhile]
  constructor
  · intro h
    split at h
    · next front back split =>
      obtain ⟨rfl, rfl⟩ := Prod.mk.inj (Option.some.inj h)
      obtain ⟨ahead, behind⟩ := Prod.mk.inj split
      have inside : front ++ ',' :: back = body.takeWhile (· ≠ ')') := by
        rw [← ahead, ← behind, List.takeWhile_append_dropWhile]
      refine ⟨front, back, body.dropWhile (· ≠ ')'), ?_, ?_, ?_, ?_, rfl, rfl⟩
      · rw [inside, List.takeWhile_append_dropWhile]
      · rw [inside]
        exact Text.not_mem_takeWhile_ne
      · exact Text.eq_of_mem_head?_dropWhile_ne
      · rw [← ahead]
        exact Text.not_mem_takeWhile_ne
    · cases h
  · rintro ⟨front, back, behind, rfl, closes, ends, comma, rfl, rfl⟩
    have cut : (front ++ ',' :: back).takeWhile (· ≠ ',') = front ∧
        (front ++ ',' :: back).dropWhile (· ≠ ',') = ',' :: back :=
      Text.takeWhile_ne comma (by simp)
    rw [(Text.takeWhile_ne closes ends).1, cut.1, cut.2]
    rfl

theorem hasFields_iff {line name value : List Char} :
    HasFields line name value ↔
      ∃ body, body? line = some body ∧ fields? body = some (name, value) := by
  constructor
  · rintro ⟨front, back, behind, same, rest⟩
    exact ⟨front ++ ',' :: back ++ behind, body?_eq_some_iff.2 same,
      fields?_eq_some_iff.2 ⟨front, back, behind, rfl, rest⟩⟩
  · rintro ⟨body, found, fields⟩
    obtain ⟨front, back, behind, rfl, rest⟩ := fields?_eq_some_iff.1 fields
    exact ⟨front, back, behind, body?_eq_some_iff.1 found, rest⟩

theorem HasFields.opens {line name value : List Char} (fields : HasFields line name value) :
    opens line = true := by
  obtain ⟨body, found, -⟩ := hasFields_iff.1 fields
  exact opens_iff.2 ⟨body, found⟩

/-- A line has one name and one value. -/
theorem HasFields.unique {line name value name' value' : List Char}
    (fields : HasFields line name value) (fields' : HasFields line name' value') :
    name = name' ∧ value = value' := by
  obtain ⟨body, found, cut⟩ := hasFields_iff.1 fields
  obtain ⟨body', found', cut'⟩ := hasFields_iff.1 fields'
  obtain rfl := Option.some.inj (found.symm.trans found')
  exact Prod.mk.inj (Option.some.inj (cut.symm.trans cut'))

/-- A line defines one opcode, with one word. -/
theorem Defines.unique {line : List Char} {op op' : Opcode} {word word' : UInt32}
    (defines : Defines line op word) (defines' : Defines line op' word') :
    op = op' ∧ word = word' := by
  obtain ⟨value, fields, number⟩ := defines
  obtain ⟨value', fields', number'⟩ := defines'
  obtain ⟨name, rfl⟩ := fields.unique fields'
  constructor
  · have found := op.ofName?_name
    rw [String.toList_inj.1 name, op'.ofName?_name] at found
    exact (Option.some.inj found).symm
  · exact Except.ok.inj ((Numeral.readWord_eq_ok_iff.2 number).symm.trans
      (Numeral.readWord_eq_ok_iff.2 number'))

/-! ### One line -/

variable {definitions : Definitions} {before : List (List Char)} {line : List Char}

/-- The definitions of lines, in their order. -/
def Collected (before : List (List Char)) (definitions : Definitions) : Prop :=
  List.Forall₂ (fun line entry => Defines line entry.1 entry.2) (before.filter opens)
    definitions.entries

/-- The lines that open definitions, and what they define. -/
theorem exists_line_of_mem {lines : List (List Char)} {entries : List (Opcode × UInt32)}
    (each : List.Forall₂ (fun line entry => Defines line entry.1 entry.2) lines entries)
    {op : Opcode} {word : UInt32} :
    (op, word) ∈ entries ↔ ∃ line ∈ lines, Defines line op word := by
  induction each with
  | nil => simp
  | @cons line entry lines entries defines _ ih =>
    rw [List.mem_cons, ih]
    constructor
    · rintro (rfl | ⟨line', mem, defines'⟩)
      · exact ⟨line, List.mem_cons_self, defines⟩
      · exact ⟨line', List.mem_cons_of_mem line mem, defines'⟩
    · rintro ⟨line', mem, defines'⟩
      rcases List.mem_cons.1 mem with rfl | mem
      · obtain ⟨name, word⟩ := defines.unique defines'
        exact .inl (Prod.ext name.symm word.symm)
      · exact .inr ⟨line', mem, defines'⟩

theorem Defines.opens {op : Opcode} {word : UInt32} (defines : Defines line op word) :
    opens line = true := by
  obtain ⟨value, fields, -⟩ := defines
  exact fields.opens

/-- What is collected are the definitions of the lines, and no others. -/
theorem Collected.mem_iff (collected : Collected before definitions) {op : Opcode}
    {word : UInt32} :
    (op, word) ∈ definitions.entries ↔ ∃ line ∈ before, Defines line op word := by
  rw [exists_line_of_mem collected]
  constructor
  · rintro ⟨line, mem, defines⟩
    exact ⟨line, List.mem_of_mem_filter mem, defines⟩
  · rintro ⟨line, mem, defines⟩
    exact ⟨line, List.mem_filter.2 ⟨mem, defines.opens⟩, defines⟩

/-- An opcode without a word is one that no line defines. -/
theorem Collected.word?_eq_none_iff (collected : Collected before definitions) {op : Opcode} :
    definitions.word? op = none ↔ ∀ line ∈ before, ∀ word, ¬ Defines line op word := by
  rw [Option.eq_none_iff_forall_ne_some]
  constructor
  · intro unknown line mem word defines
    exact unknown word (word?_eq_some_iff.2 (collected.mem_iff.2 ⟨line, mem, defines⟩))
  · intro unknown word found
    obtain ⟨line, mem, defines⟩ := collected.mem_iff.1 (word?_eq_some_iff.1 found)
    exact unknown line mem word defines

theorem addLine_of_opens_false (passed : opens line = false) (number : Nat) :
    definitions.addLine number line = .ok definitions := by
  have none : body? line = none := by
    rw [Option.eq_none_iff_forall_ne_some]
    intro body found
    rw [opens_iff.2 ⟨body, found⟩] at passed
    cases passed
  rw [addLine, none]

theorem addLine_of_unfit (begins : opens line = true)
    (unfit : ∀ name value word, HasFields line name value → ¬ Numeral.SaysWord value word)
    (number : Nat) :
    definitions.addLine number line = .error (.malformed number (.ofList line)) := by
  obtain ⟨body, found⟩ := opens_iff.1 begins
  rw [addLine, found]
  dsimp only
  split
  · rfl
  · next name value fields =>
    split
    · rfl
    · next word number =>
      exact absurd (Numeral.readWord_eq_ok_iff.1 number)
        (unfit name value word (hasFields_iff.2 ⟨body, found, fields⟩))

theorem addLine_of_unknown {name value : List Char} {word : UInt32}
    (fields : HasFields line name value) (spelled : Numeral.SaysWord value word)
    (unknown : ∀ op : Opcode, op.name ≠ .ofList name) (number : Nat) :
    definitions.addLine number line = .error (.unknownName number (.ofList name)) := by
  obtain ⟨body, found, cut⟩ := hasFields_iff.1 fields
  have none : Opcode.ofName? (.ofList name) = none :=
    List.find?_eq_none.2 fun op _ same => unknown op (beq_iff_eq.1 same)
  rw [addLine, found]
  dsimp only
  rw [cut]
  dsimp only
  rw [Numeral.readWord_eq_ok_iff.2 spelled]
  dsimp only
  rw [none]

/-- What becomes of a line that defines an opcode, if it is so whether or not both are new. -/
theorem addLine_of_defines {op : Opcode} {word : UInt32} (defines : Defines line op word)
    (number : Nat) {P : Except DefinitionError Definitions → Prop}
    (known : ∀ old, definitions.word? op = some old → P (.error (.duplicateName number op.name)))
    (used : ∀ other, definitions.word? op = none → definitions.opcode? word = some other →
      P (.error (.duplicateWord number op.name word other)))
    (fresh : ∀ newName newWord, P (.ok (definitions.insert op word newName newWord))) :
    P (definitions.addLine number line) := by
  obtain ⟨value, fields, spelled⟩ := defines
  obtain ⟨body, found, cut⟩ := hasFields_iff.1 fields
  rw [addLine, found]
  dsimp only
  rw [cut]
  dsimp only
  rw [Numeral.readWord_eq_ok_iff.2 spelled, String.ofList_toList, op.ofName?_name]
  dsimp only
  split
  · next old there => exact known old there
  · next newName =>
    split
    · next other there => exact used other newName there
    · next newWord => exact fresh newName newWord

/-- A fault is found as soon as its line is read. -/
theorem addLine_of_offends (collected : Collected before definitions) {e : DefinitionError}
    (offends : Offends before line e) :
    definitions.addLine (before.length + 1) line = .error e := by
  cases offends with
  | malformed begins unfit => exact addLine_of_unfit begins unfit _
  | unknownName fields number unknown => exact addLine_of_unknown fields number unknown _
  | @duplicateName op word defines earlier =>
    obtain ⟨line', mem, word', defines'⟩ := earlier
    have old := word?_eq_some_iff.2 (collected.mem_iff.2 ⟨line', mem, defines'⟩)
    refine addLine_of_defines defines _ (P := (· = _)) (fun _ _ => rfl) ?_ ?_
    · intro other newName
      cases old.symm.trans newName
    · intro newName
      cases old.symm.trans newName
  | @duplicateWord op other word defines fresh earlier =>
    have newName := collected.word?_eq_none_iff.2 fresh
    have old := opcode?_eq_some_iff.2 (collected.mem_iff.2 earlier)
    refine addLine_of_defines defines _ (P := (· = _)) ?_ ?_ ?_
    · intro word' known
      cases newName.symm.trans known
    · intro other' _ used
      obtain rfl := Option.some.inj (old.symm.trans used)
      rfl
    · intro _ newWord
      cases old.symm.trans newWord

/-- A line without a fault is read, and what it defines comes last. -/
theorem exists_addLine (collected : Collected before definitions)
    (clean : ∀ e, ¬ Offends before line e) (number : Nat) :
    ∃ after, definitions.addLine number line = .ok after ∧ Collected (before ++ [line]) after := by
  by_cases begins : opens line = true
  · -- otherwise one of the four faults applies
    have fit : ∃ name value word, HasFields line name value ∧ Numeral.SaysWord value word := by
      by_contra none
      refine clean _ (.malformed begins ?_)
      intro name value word fields spelled
      exact none ⟨name, value, word, fields, spelled⟩
    obtain ⟨name, value, word, fields, spelled⟩ := fit
    have known : ∃ op : Opcode, op.name = .ofList name := by
      by_contra none
      exact clean _ (.unknownName fields spelled fun op same => none ⟨op, same⟩)
    obtain ⟨op, same⟩ := known
    obtain rfl : op.name.toList = name := by rw [same, String.toList_ofList]
    have defines : Defines line op word := ⟨value, fields, spelled⟩
    have fresh : ∀ line ∈ before, ∀ word, ¬ Defines line op word := by
      intro line' mem word' defines'
      exact clean _ (.duplicateName defines ⟨line', mem, word', defines'⟩)
    have newName := collected.word?_eq_none_iff.2 fresh
    have newWord : definitions.opcode? word = none := by
      rw [Option.eq_none_iff_forall_ne_some]
      intro other used
      exact clean _ (.duplicateWord defines fresh
        (collected.mem_iff.1 (opcode?_eq_some_iff.1 used)))
    refine ⟨definitions.insert op word newName newWord, ?_, ?_⟩
    · refine addLine_of_defines defines number (P := (· = _)) ?_ ?_ fun _ _ => rfl
      · intro old known
        cases newName.symm.trans known
      · intro other _ used
        cases newWord.symm.trans used
    · rw [Collected, List.filter_append, List.filter_singleton, begins]
      exact List.rel_append collected (.cons defines .nil)
  · have passed := Bool.eq_false_iff.2 begins
    refine ⟨definitions, addLine_of_opens_false passed number, ?_⟩
    rw [Collected, List.filter_append, List.filter_singleton, passed, cond_false, List.append_nil]
    exact collected

/-! ### All lines -/

theorem addLines_append (definitions : Definitions) (number : Nat)
    (front back : List (List Char)) :
    definitions.addLines number (front ++ back) =
      (definitions.addLines number front >>= fun after =>
        after.addLines (number + front.length) back) := by
  induction front generalizing definitions number with
  | nil => rfl
  | cons line rest ih =>
    rw [List.cons_append, addLines, addLines]
    cases definitions.addLine number (Text.trim line) with
    | error e => rfl
    | ok after =>
      dsimp only
      rw [ih, List.length_cons, Nat.add_assoc, Nat.add_comm 1]

theorem Clean.front {front back : List (List Char)} (clean : Clean (front ++ back)) :
    Clean front := by
  rintro ahead line behind rfl
  exact clean ahead line (behind ++ back) (by simp)

variable {raw : List (List Char)}

/-- Lines without a fault are read, and what they define is collected in order. -/
theorem exists_addLines (clean : Clean (raw.map Text.trim)) :
    ∃ after, empty.addLines 1 raw = .ok after ∧ Collected (raw.map Text.trim) after := by
  induction raw using List.reverseRecOn with
  | nil => exact ⟨empty, rfl, .nil⟩
  | append_singleton front line ih =>
    rw [List.map_append, List.map_singleton] at clean ⊢
    obtain ⟨middle, read, collected⟩ := ih clean.front
    have faultless := clean (front.map Text.trim) (Text.trim line) [] rfl
    obtain ⟨after, added, collected⟩ := exists_addLine collected faultless (1 + front.length)
    refine ⟨after, ?_, collected⟩
    rw [addLines_append, read]
    show addLines middle (1 + front.length) [line] = .ok after
    rw [addLines, added]
    rfl

/-- The first line at fault ends the reading. -/
theorem addLines_of_offends {line : List Char} {e : DefinitionError}
    (clean : Clean (raw.map Text.trim)) (offends : Offends (raw.map Text.trim) (Text.trim line) e)
    (back : List (List Char)) :
    empty.addLines 1 (raw ++ line :: back) = .error e := by
  obtain ⟨after, read, collected⟩ := exists_addLines clean
  have failed := addLine_of_offends collected offends
  rw [List.length_map, Nat.add_comm] at failed
  rw [addLines_append, read]
  show addLines after (1 + raw.length) (line :: back) = .error e
  rw [addLines, failed]

/-- Lines are without a fault, or one is the first that has a fault. -/
theorem clean_or_offends (lines : List (List Char)) :
    Clean lines ∨ ∃ front line back e,
      lines = front ++ line :: back ∧ Clean front ∧ Offends front line e := by
  induction lines using List.reverseRecOn with
  | nil =>
    left
    intro front line back same
    simp at same
  | append_singleton lines last ih =>
    rcases ih with clean | ⟨front, line, back, e, rfl, clean, offends⟩
    · by_cases fault : ∃ e, Offends lines last e
      · obtain ⟨e, offends⟩ := fault
        exact .inr ⟨lines, last, [], e, rfl, clean, offends⟩
      · left
        intro front line back same e offends
        rcases List.eq_nil_or_concat back with rfl | ⟨back, final, rfl⟩
        · obtain ⟨rfl, one⟩ := List.append_inj' same rfl
          obtain rfl := List.singleton_inj.1 one
          exact fault ⟨e, offends⟩
        · have split : lines ++ [last] = (front ++ line :: back) ++ [final] := by
            simpa using same
          exact clean front line back (List.append_inj' split rfl).1 e offends
    · exact .inr ⟨front, line, back ++ [last], e, by simp, clean, offends⟩

theorem Offends.opens {before : List (List Char)} {line : List Char} {e : DefinitionError}
    (offends : Offends before line e) : opens line = true := by
  cases offends with
  | malformed begins => exact begins
  | unknownName fields => exact fields.opens
  | duplicateName defines => exact defines.opens
  | duplicateWord defines => exact defines.opens

theorem exists_split_of_forall₂ {α β : Type} {R : α → β → Prop} {front back : List α} {a : α}
    {list : List β} (each : List.Forall₂ R (front ++ a :: back) list) :
    ∃ ahead b behind, list = ahead ++ b :: behind ∧ List.Forall₂ R front ahead ∧ R a b := by
  induction front generalizing list with
  | nil =>
    obtain ⟨b, behind, here, -, rfl⟩ := List.forall₂_cons_left_iff.1 each
    exact ⟨[], b, behind, rfl, .nil, here⟩
  | cons first front ih =>
    obtain ⟨b, rest, here, more, rfl⟩ := List.forall₂_cons_left_iff.1 each
    obtain ⟨ahead, found, behind, rfl, more, there⟩ := ih more
    exact ⟨b :: ahead, found, behind, rfl, .cons here more, there⟩

/-- Lines that define different opcodes with different words are without a fault. -/
theorem clean_of_nodup {lines : List (List Char)} {entries : List (Opcode × UInt32)}
    (each : List.Forall₂ (fun line entry => Defines line entry.1 entry.2) (lines.filter opens)
      entries)
    (names : (entries.map Prod.fst).Nodup) (words : (entries.map Prod.snd).Nodup) :
    Clean lines := by
  rintro front line back rfl e offends
  rw [List.filter_append, List.filter_cons_of_pos offends.opens] at each
  obtain ⟨ahead, ⟨op, word⟩, behind, rfl, each, defines⟩ := exists_split_of_forall₂ each
  have earlier : ∀ {line op word}, line ∈ front → Defines line op word → (op, word) ∈ ahead := by
    intro line op word mem defines
    exact (exists_line_of_mem each).2
      ⟨line, List.mem_filter.2 ⟨mem, defines.opens⟩, defines⟩
  rw [List.map_append, List.map_cons, List.nodup_append] at names words
  cases offends with
  | malformed begins unfit =>
    obtain ⟨value, fields, spelled⟩ := defines
    exact unfit _ _ _ fields spelled
  | unknownName fields _ unknown =>
    obtain ⟨value, fields', -⟩ := defines
    obtain ⟨rfl, -⟩ := fields.unique fields'
    exact unknown op String.ofList_toList.symm
  | duplicateName defines' repeated =>
    obtain ⟨line', mem, word', before⟩ := repeated
    obtain ⟨rfl, -⟩ := defines.unique defines'
    exact names.2.2 op (List.mem_map_of_mem (earlier mem before)) op List.mem_cons_self rfl
  | duplicateWord defines' _ repeated =>
    obtain ⟨line', mem, before⟩ := repeated
    obtain ⟨-, rfl⟩ := defines.unique defines'
    exact words.2.2 word (List.mem_map_of_mem (earlier mem before)) word List.mem_cons_self rfl

/-! ### The opcodes that are missing -/

theorem Collected.mem_missing_iff (collected : Collected before definitions) {op : Opcode} :
    op ∈ definitions.missing ↔ ∀ line ∈ before, ∀ word, ¬ Defines line op word := by
  rw [missing, List.mem_filter, Option.isNone_iff_eq_none, collected.word?_eq_none_iff]
  exact and_iff_right op.mem_all

/-- In the order of all opcodes there is one list of those that are missing. -/
theorem eq_missing {ops : List Opcode} (sublist : ops.Sublist Opcode.all)
    (same : ∀ op, op ∈ ops ↔ op ∈ definitions.missing) : ops = definitions.missing := by
  have different : definitions.missing.Nodup :=
    List.Nodup.filter _ (by decide : Opcode.all.Nodup)
  have kept : ops.filter (fun op => (definitions.word? op).isNone) = ops :=
    List.filter_eq_self.2 fun op mem => (List.mem_filter.1 ((same op).1 mem)).2
  have inside : ops.Sublist definitions.missing := kept ▸ sublist.filter _
  exact inside.eq_of_length_le
    (List.subperm_of_subset different fun op mem => (same op).2 mem).length_le

end Definitions

/-! ### The text -/

namespace Numbering

open Definitions

variable {text : String}

/-- Without a fault in a line, only a missing opcode is in the way. -/
theorem ofText_of_clean (clean : Clean (linesOf text)) :
    ∃ after : Definitions, Collected (linesOf text) after ∧
      ofText text = if complete : after.missing = [] then .ok (after.numbering complete)
        else .error (.missing after.missing) := by
  obtain ⟨after, read, collected⟩ := exists_addLines clean
  refine ⟨after, collected, ?_⟩
  rw [ofText, read]

theorem ofText_of_offends {front back : List (List Char)} {line : List Char} {e : DefinitionError}
    (split : linesOf text = front ++ line :: back) (clean : Clean front)
    (offends : Offends front line e) : ofText text = .error e := by
  obtain ⟨ahead, behind, raw, rfl, rest⟩ := List.map_eq_append_iff.1 split
  obtain ⟨line, back, rfl, rfl, rfl⟩ := List.map_eq_cons_iff.1 rest
  rw [ofText, raw, addLines_of_offends clean offends]

/-- A text is read as a numbering exactly if its lines define it, and nothing twice. -/
theorem ofText_eq_ok_iff {numbering : Numbering} :
    ofText text = .ok numbering ↔
      ∃ entries, List.Forall₂ (fun line entry => Defines line entry.1 entry.2)
          ((linesOf text).filter opens) entries ∧
        (∀ op, (entries.map Prod.fst).count op = 1) ∧ (entries.map Prod.snd).Nodup ∧
        ∀ entry ∈ entries, numbering.word entry.1 = entry.2 := by
  constructor
  · intro h
    rcases clean_or_offends (linesOf text) with clean | ⟨front, line, back, e, split, clean, bad⟩
    · obtain ⟨after, collected, read⟩ := ofText_of_clean clean
      rw [h] at read
      split at read
      · next complete =>
        obtain rfl := Except.ok.inj read
        have word (op : Opcode) : (op, (after.numbering complete).word op) ∈ after.entries :=
          word?_eq_some_iff.1 (Option.some_get _).symm
        have names : (after.entries.map Prod.fst).Nodup :=
          List.pairwise_map.2 (after.distinct.imp And.left)
        refine ⟨after.entries, collected, ?_, ?_, ?_⟩
        · intro op
          exact List.count_eq_one_of_mem names (List.mem_map_of_mem (word op))
        · exact List.pairwise_map.2 (after.distinct.imp And.right)
        · intro entry mem
          exact Option.some.inj ((word?_eq_some_iff.2 (word entry.1)).symm.trans
            (word?_eq_some_iff.2 mem))
      · cases read
    · cases h.symm.trans (ofText_of_offends split clean bad)
  · rintro ⟨entries, each, once, words, values⟩
    have names : (entries.map Prod.fst).Nodup := List.nodup_iff_count_eq_one.2 fun op _ => once op
    obtain ⟨after, collected, read⟩ := ofText_of_clean (clean_of_nodup each names words)
    obtain rfl : after.entries = entries := by
      refine List.right_unique_forall₂' ?_ collected each
      intro line entry entry' defines defines'
      exact Prod.ext_iff.2 (defines.unique defines')
    have word (op : Opcode) : after.word? op = some (numbering.word op) := by
      have known : op ∈ after.entries.map Prod.fst :=
        List.count_pos_iff.1 (Nat.lt_of_lt_of_eq Nat.one_pos (once op).symm)
      obtain ⟨entry, mem, rfl⟩ := List.mem_map.1 known
      rw [values entry mem]
      exact word?_eq_some_iff.2 mem
    have complete : after.missing = [] := by
      refine List.filter_eq_nil_iff.2 fun op _ => ?_
      rw [word op]
      exact Bool.false_ne_true
    rw [read, dif_pos complete]
    refine congrArg Except.ok (eq_of_word fun op => ?_)
    exact Option.get_of_eq_some _ (word op)

/-- A text that is not read as a numbering fails for its first line at fault, and without one for
the opcodes that are missing. -/
theorem ofText_eq_error_iff {e : DefinitionError} :
    ofText text = .error e ↔
      (∃ front line back, linesOf text = front ++ line :: back ∧ Clean front ∧
        Offends front line e) ∨
      (Clean (linesOf text) ∧ ∃ ops, e = .missing ops ∧ ops ≠ [] ∧ ops.Sublist Opcode.all ∧
        ∀ op, op ∈ ops ↔ ∀ line ∈ linesOf text, ∀ word, ¬ Defines line op word) := by
  constructor
  · intro h
    rcases clean_or_offends (linesOf text) with clean | ⟨front, line, back, e', split, clean, bad⟩
    · obtain ⟨after, collected, read⟩ := ofText_of_clean clean
      rw [h] at read
      split at read
      · cases read
      · next incomplete =>
        obtain rfl := Except.error.inj read
        exact .inr ⟨clean, after.missing, rfl, incomplete, List.filter_sublist,
          fun op => collected.mem_missing_iff⟩
    · obtain rfl := Except.error.inj (h.symm.trans (ofText_of_offends split clean bad))
      exact .inl ⟨front, line, back, split, clean, bad⟩
  · rintro (⟨front, line, back, split, clean, bad⟩ | ⟨clean, ops, rfl, some, sublist, each⟩)
    · exact ofText_of_offends split clean bad
    · obtain ⟨after, collected, read⟩ := ofText_of_clean clean
      obtain rfl := eq_missing sublist fun op => (each op).trans collected.mem_missing_iff.symm
      rw [read, dif_neg some]

/-- Opcode definitions are accepted if and only if they are complete and free of collisions: each
line that opens a definition gives an opcode its word, each opcode has one, and no two share one.
The order of the lines does not matter then.  What is rejected is rejected for the first line at
fault, and for missing opcodes only if no line is at fault. -/
theorem ofText_accepts (text : String) :
    (∀ numbering, ofText text = .ok numbering ↔
      ∃ entries, List.Forall₂ (fun line entry => Defines line entry.1 entry.2)
          ((linesOf text).filter opens) entries ∧
        (∀ op, (entries.map Prod.fst).count op = 1) ∧ (entries.map Prod.snd).Nodup ∧
        ∀ entry ∈ entries, numbering.word entry.1 = entry.2) ∧
    (∀ numbering, ofText text = .ok numbering →
      ∀ word op, numbering.decode word = some op ↔ numbering.word op = word) ∧
    (∀ numbering other, ofText text = .ok numbering →
      (Text.lines other.toList).Perm (Text.lines text.toList) → ofText other = .ok numbering) ∧
    ∀ e, ofText text = .error e ↔
      (∃ front line back, linesOf text = front ++ line :: back ∧ Clean front ∧
        Offends front line e) ∨
      (Clean (linesOf text) ∧ ∃ ops, e = .missing ops ∧ ops ≠ [] ∧ ops.Sublist Opcode.all ∧
        ∀ op, op ∈ ops ↔ ∀ line ∈ linesOf text, ∀ word, ¬ Defines line op word) := by
  refine ⟨fun numbering => ofText_eq_ok_iff, ?_, ?_, fun e => ofText_eq_error_iff⟩
  · intro numbering _ word op
    exact decode_eq_some_iff
  · intro numbering other read shuffled
    obtain ⟨entries, each, once, words, values⟩ := ofText_eq_ok_iff.1 read
    -- the definitions are shuffled along with their lines
    obtain ⟨entries', each', shuffled⟩ :=
      List.perm_comp_forall₂ ((shuffled.map Text.trim).filter opens) each
    refine ofText_eq_ok_iff.2 ⟨entries', each', ?_, ?_, ?_⟩
    · intro op
      rw [(shuffled.map Prod.fst).count_eq, once op]
    · exact (shuffled.map Prod.snd).nodup_iff.2 words
    · intro entry mem
      exact values entry (shuffled.mem_iff.1 mem)

/-- The text of a numbering, with its lines in any order, and a text that uses a word twice. -/
theorem ofText_accepts_standard :
    (∀ other : String,
      (Text.lines other.toList).Perm (Text.lines standard.text.toList) →
        ofText other = .ok standard) ∧
    ∃ front line back, linesOf "PLOP_OP(ADD, 1)\nPLOP_OP( SUB,+1" = front ++ line :: back ∧
      Clean front ∧ Offends front line (.duplicateWord 2 "SUB" 1 .add) := by
  constructor
  · intro other
    exact (ofText_accepts standard.text).2.2.1 standard other (ofText_text standard)
  · have failed : ofText "PLOP_OP(ADD, 1)\nPLOP_OP( SUB,+1" =
        .error (.duplicateWord 2 "SUB" 1 .add) := rfl
    rcases ((ofText_accepts _).2.2.2 _).1 failed with first | ⟨-, ops, ⟨⟩, -⟩
    exact first

end Numbering

end Libretto
