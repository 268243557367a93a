/-
Filling gaps gives the code by sizes.

The assembler emits a list in one pass and fills its forward offsets afterwards, out of order.  What
it leaves behind is the code that `Expr.words` computes from sizes alone:

* **`assemble_emitted`** — an expression that compiles is well-formed, and its code, its slots and
  its names are appended to what was there before;
* **`assembleOperands_emitted`** — the same for operands, with the gaps in front of them filled;
* **`keyword_emitted`**, **`operator_emitted`**, **`call_emitted`** — the three kinds of lists,
  given what their operands have left behind.

Ids are read in any table that extends the last one, so that code which was emitted early can be
compared with code which was emitted late.
-/
import Libretto.Proofs.Code.Reference
import Libretto.Proofs.Interning

namespace Libretto

/-- The word of a text that is interned. -/
def StringTable.wordOf (table : StringTable) (text : String) : UInt32 :=
  (table.idOf text).index

theorem StringTable.wordOf_of_le {table later : StringTable} {text : String} (h : table ≤ later)
    (mem : text ∈ table.texts) : later.wordOf text = table.wordOf text :=
  congrArg StringId.index (idOf_of_le h mem)

/-- A name has its word as soon as it is added. -/
theorem StringTable.wordOf_of_insert_le {table later : StringTable} {text : String}
    (h : table.insert text ≤ later) : later.wordOf text = table.wordOf text :=
  congrArg StringId.index (idOf_of_insert_le h)

end Libretto

namespace Libretto.Script

namespace Assembly

variable {α β : Type} {a a' : Assembler}

/-! ### One step -/

theorem bind_eq_ok {x : Assembly α} {f : α → Assembly β} {r : β} :
    (x >>= f) a = .ok r a' ↔ ∃ y b, x a = .ok y b ∧ f y b = .ok r a' := by
  simp only [bind, EStateM.bind]
  cases x a <;> simp

theorem throw_ne_ok {e : CompileError} {r : α} : (throw e : Assembly α) a ≠ .ok r a' :=
  fun h => nomatch (show EStateM.Result.error e a = .ok r a' from h)

theorem emit_bind {word : UInt32} {f : Unit → Assembly β} :
    (emit word >>= f) a = f () { a with code := a.code.push word } := rfl

theorem emit_apply {word : UInt32} : emit word a = .ok () { a with code := a.code.push word } := rfl

theorem emitString_apply {id : StringId} :
    emitString id a =
      .ok () { a with code := a.code.push id.index, slots := a.slots.push a.code.size } := rfl

theorem emitName_apply {name : String} :
    emitName name a =
      .ok () ⟨a.code.push (a.table.wordOf name), a.slots.push a.code.size,
        a.table.insert name⟩ := rfl

theorem reserve_bind {f : Nat → Assembly β} :
    (reserve >>= f) a = f a.code.size { a with code := a.code.push 0 } := rfl

theorem fill_apply {gap : Nat} :
    fill gap a =
      if a.code.size < 2 ^ 32 then
        .ok () { a with code := a.code.setIfInBounds gap a.code.size.toUInt32 }
      else .error (.tooLarge a.code.size) a := by
  change (if a.code.size < 0x100000000 then _ else _ : Assembly Unit) a = _
  by_cases small : a.code.size < 0x100000000
  · rw [if_pos small, if_pos (by omega)]
    rfl
  · rw [if_neg small, if_neg (by omega)]
    rfl

theorem fill_eq_ok {gap : Nat} :
    fill gap a = .ok () a' ↔ a.code.size < 2 ^ 32 ∧
      a' = { a with code := a.code.setIfInBounds gap a.code.size.toUInt32 } := by
  rw [fill_apply]
  by_cases h : a.code.size < 2 ^ 32
  · rw [if_pos h]
    constructor
    · intro run
      cases run
      exact ⟨h, rfl⟩
    · rintro ⟨-, rfl⟩
      rfl
  · rw [if_neg h]
    constructor
    · intro run
      cases run
    · rintro ⟨small, -⟩
      exact absurd small h

theorem reserveMany_apply (count : Nat) :
    reserveMany count a =
      .ok (List.range' a.code.size count)
        { a with code := (a.code.toList ++ List.replicate count 0).toArray } := by
  induction count generalizing a with
  | zero => simp [reserveMany, pure, EStateM.pure]
  | succ count ih =>
    rw [reserveMany, reserve_bind]
    simp only [bind, EStateM.bind, ih]
    simp [pure, EStateM.pure, List.range'_succ, List.replicate_succ]

/-- A word that is filled in, in front of what was emitted since. -/
theorem toList_setIfInBounds {code : Array UInt32} {front back : List UInt32} {gap : UInt32}
    (h : code.toList = front ++ gap :: back) (word : UInt32) :
    (code.setIfInBounds front.length word).toList = front ++ word :: back := by
  rw [Array.toList_setIfInBounds, h]
  simp

/-- The slots of the names that lead the operands of a keyword. -/
def leadingSlots (keyword : Keyword) (offset : Nat) : List Nat :=
  List.range' offset keyword.names

theorem slots_keywordInstruction (name : String → UInt32) (offset depth : Nat) (keyword : Keyword)
    (operands : List Expr) :
    (Expr.keywordInstruction name offset depth keyword operands).slots =
      leadingSlots keyword (offset + 1) := by
  cases keyword <;> rfl

/-- A keyword takes one name or none. -/
theorem names_eq_zero_or_one (keyword : Keyword) : keyword.names = 0 ∨ keyword.names = 1 := by
  cases keyword <;> decide

theorem emitLeadingName_of_names {keyword : Keyword} (none : keyword.names = 0)
    (operands : List Expr) : emitLeadingName keyword operands = pure () := by
  unfold emitLeadingName
  simp only [none]

theorem emitLeadingName_nil (keyword : Keyword) : emitLeadingName keyword [] = pure () := by
  unfold emitLeadingName
  split <;> first | rfl | contradiction

theorem emitLeadingName_name {keyword : Keyword} (one : keyword.names = 1) {operand : Expr}
    {name : String} (symbol : operand.symbol? = some name) (rest : List Expr) :
    emitLeadingName keyword (operand :: rest) = emitName name := by
  unfold emitLeadingName
  rw [one]
  simp only [symbol]

theorem emitLeadingName_other {keyword : Keyword} (one : keyword.names = 1) {operand : Expr}
    (other : operand.symbol? = none) (rest : List Expr) :
    emitLeadingName keyword (operand :: rest) = throw (.expectedName keyword operand.text) := by
  unfold emitLeadingName
  rw [one]
  simp only [other]

/-- A keyword with enough operands has a name where it wants one, or fails. -/
theorem emitLeadingName_eq_ok {keyword : Keyword} {operands : List Expr}
    (arity : operands.length = keyword.arity) (h : emitLeadingName keyword operands a = .ok () a') :
    (∀ operand ∈ operands.take keyword.names, operand.symbol?.isSome) ∧
      a'.table = a.table.insertAll (Expr.leadingNames keyword operands) ∧
      (∀ later, a'.table ≤ later → a'.code.toList =
        a.code.toList ++ (Expr.leadingNames keyword operands).map later.wordOf) ∧
      a'.slots.toList = a.slots.toList ++ leadingSlots keyword a.code.size := by
  obtain hnames | hnames := names_eq_zero_or_one keyword
  · rw [emitLeadingName_of_names hnames] at h
    obtain rfl : a = a' := by simpa [pure, EStateM.pure] using h
    simp [Expr.leadingNames, leadingSlots, hnames]
  · cases operands with
    | nil => cases keyword <;> simp [Keyword.arity] at arity
    | cons operand rest =>
      cases symbol : operand.symbol? with
      | none =>
        rw [emitLeadingName_other hnames symbol] at h
        exact absurd h throw_ne_ok
      | some name =>
        rw [emitLeadingName_name hnames symbol, emitName_apply] at h
        obtain rfl := (EStateM.Result.ok.inj h).2
        have hname : Expr.leadingNames keyword (operand :: rest) = [name] := by
          simp [Expr.leadingNames, hnames, symbol]
        rw [hname]
        refine ⟨by simp [hnames, symbol], rfl, ?_, by simp [leadingSlots, hnames]⟩
        intro later le
        simp [StringTable.wordOf_of_insert_le le]

end Assembly

namespace Expr

open Assembly

variable (numbering : Numbering)

/-- The offset behind a list fits a code word. -/
def Fits (offset : Nat) : Expr → Prop
  | list items => offset + (list items).size < 2 ^ 32
  | _ => True

/-- What the assembler has appended when an expression compiled. -/
structure Emitted (expr : Expr) (a a' : Assembler) : Prop where
  wellFormed : expr.WellFormed
  fits : expr.Fits a.code.size
  table_eq : a'.table = a.table.insertAll expr.names
  code_eq : ∀ later, a'.table ≤ later → ∀ depth, a'.code.toList =
    a.code.toList ++ expr.words later.wordOf StringId.index numbering a.code.size depth
  slots_eq : ∀ name literal depth, a'.slots.toList =
    a.slots.toList ++ (expr.instructions name literal a.code.size depth).flatMap Instruction.slots

/-- What the assembler has appended when operands compiled, with `gaps` gaps in front of them: the
code before the first gap is `front`, the code behind the last one is `back`. -/
structure OperandsEmitted (names gaps : Nat) (front back : List UInt32) (operands : List Expr)
    (a a' : Assembler) : Prop where
  wellFormed : ∀ operand ∈ operands.drop names, operand.WellFormed
  table_eq : a'.table = a.table.insertAll (operandNames names operands)
  code_eq : ∀ later, a'.table ≤ later → ∀ depth, a'.code.toList =
    front ++ endOffsets a.code.size gaps (operands.drop names) ++ back ++
      operandWords later.wordOf StringId.index numbering a.code.size depth names operands
  slots_eq : ∀ name literal depth, a'.slots.toList =
    a.slots.toList ++ (operandInstructions name literal a.code.size depth names operands).flatMap
      Instruction.slots

theorem Emitted.size_eq {numbering : Numbering} {expr : Expr} {a a' : Assembler}
    (h : Emitted numbering expr a a') : a'.code.size = a.code.size + expr.size := by
  have code := congrArg List.length (h.code_eq a'.table (StringTable.le_refl _) 0)
  rw [List.length_append, length_words _ _ _ h.wellFormed] at code
  simpa using code

/-- The code of an expression is the same in every later table, and at every depth. -/
theorem Emitted.words_eq {numbering : Numbering} {expr : Expr} {a a' : Assembler}
    (h : Emitted numbering expr a a') {later : StringTable} (le : a'.table ≤ later)
    (depth other : Nat) :
    expr.words a'.table.wordOf StringId.index numbering a.code.size depth =
      expr.words later.wordOf StringId.index numbering a.code.size other :=
  List.append_cancel_left
    ((h.code_eq a'.table (StringTable.le_refl _) depth).symm.trans (h.code_eq later le other))

section

variable {numbering : Numbering} {expr : Expr} {a a' : Assembler} {gaps : Nat}
  {front back : List UInt32}

/-- What was emitted behind gaps leaves the first of them open. -/
theorem Emitted.toList_gap (h : Emitted numbering expr a a')
    (code : a.code.toList = front ++ List.replicate (gaps + 1) 0 ++ back) :
    a'.code.toList = front ++ 0 :: (List.replicate gaps 0 ++ back ++
      expr.words a'.table.wordOf StringId.index numbering a.code.size 0) := by
  rw [h.code_eq a'.table (StringTable.le_refl _) 0, code, List.replicate_succ]
  simp

/-- Once it is filled it belongs to the code in front of the gaps, and what was emitted to the code
behind them. -/
theorem Emitted.toList_fill (h : Emitted numbering expr a a')
    (code : a.code.toList = front ++ List.replicate (gaps + 1) 0 ++ back) (word : UInt32) :
    (a'.code.setIfInBounds front.length word).toList =
      (front ++ [word]) ++ List.replicate gaps 0 ++
        (back ++ expr.words a'.table.wordOf StringId.index numbering a.code.size 0) := by
  rw [toList_setIfInBounds (h.toList_gap code)]
  simp

end

/-- Closing a list: what was emitted behind its opening is bracketed, and the opening is given the
offset past the end. -/
theorem bracket_emitted {items : List Expr} {expr : Expr} (hexpr : expr = list items)
    (wellFormed : expr.WellFormed) {a c a' : Assembler}
    (inside : (String → UInt32) → (StringId → UInt32) → Nat → List Instruction)
    (list_eq : ∀ name literal depth, expr.instructions name literal a.code.size depth =
      ⟨a.code.size, depth + 1, .enter, [(a.code.size + expr.size).toUInt32]⟩ ::
        (inside name literal depth ++ [⟨a.code.size + expr.size - 1, depth + 1, .leave, []⟩]))
    (table_eq : c.table = a.table.insertAll expr.names)
    (code_eq : ∀ later, c.table ≤ later → ∀ depth, c.code.toList =
      a.code.toList ++ numbering.word .enter :: 0 ::
        (inside later.wordOf StringId.index depth).flatMap (Instruction.encode numbering))
    (slots_eq : ∀ name literal depth, c.slots.toList =
      a.slots.toList ++ (inside name literal depth).flatMap Instruction.slots)
    (h : (do emit (numbering.word .leave); fill (a.code.size + 1)) c = .ok () a') :
    Emitted numbering expr a a' := by
  rw [emit_bind, fill_eq_ok] at h
  obtain ⟨fits, rfl⟩ := h
  -- the opening is given the size the assembler has reached, which is the one known in advance
  have past : c.code.size + 1 = a.code.size + expr.size := by
    have code := congrArg List.length (code_eq c.table (StringTable.le_refl _) 0)
    have size := length_words c.table.wordOf StringId.index numbering wellFormed a.code.size 0
    rw [words, list_eq] at size
    simp [Instruction.encode] at code size
    omega
  have fits : expr.Fits a.code.size := by
    simp only [Array.size_push, past, hexpr] at fits
    simpa only [Fits, hexpr] using fits
  refine ⟨wellFormed, fits, table_eq, ?_,
    ?_⟩
  · intro later hlater depth
    have split : (c.code.push (numbering.word .leave)).toList =
        (a.code.toList ++ [numbering.word .enter]) ++ 0 ::
          ((inside later.wordOf StringId.index depth).flatMap (Instruction.encode numbering) ++
            [numbering.word .leave]) := by
      rw [Array.toList_push, code_eq later hlater depth]
      simp
    have filled := toList_setIfInBounds split (c.code.size + 1).toUInt32
    rw [words, list_eq, ← past]
    simpa [Instruction.encode] using filled
  · intro name literal depth
    rw [list_eq]
    simpa [Instruction.slots, Opcode.operands] using slots_eq name literal depth

/-- A keyword form, whose leading name is emitted and whose operands are. -/
theorem keyword_emitted {keyword : Keyword} {head : Expr} {operands : List Expr}
    (shape : Shape.ofHead head = .keyword keyword) (arity : operands.length = keyword.arity)
    {a b c a' : Assembler}
    (named : emitLeadingName keyword operands
      { a with code :=
        ((a.code.push (numbering.word .enter)).push 0).push (numbering.word keyword.opcode) } =
      .ok () b)
    (inner : OperandsEmitted numbering keyword.names keyword.gaps b.code.toList [] operands
      { b with code := (b.code.toList ++ List.replicate keyword.gaps 0).toArray } c)
    (h : (do emit (numbering.word .leave); fill (a.code.size + 1)) c = .ok () a') :
    Emitted numbering (list (head :: operands)) a a' := by
  obtain ⟨leading, btable, bcode, bslots⟩ := emitLeadingName_eq_ok arity named
  dsimp only at btable bcode bslots
  -- the operands begin behind the opening, the opcode, the name and the gaps
  have bsize : (b.code.toList ++ List.replicate keyword.gaps 0).toArray.size =
      a.code.size + 3 + keyword.names + keyword.gaps := by
    rw [bcode b.table (StringTable.le_refl _)]
    simp [length_leadingNames arity leading]
    omega
  have le : b.table ≤ c.table := by
    rw [inner.table_eq]
    exact StringTable.le_insertAll _ _
  refine bracket_emitted numbering (c := c) rfl (.keyword shape arity leading inner.wellFormed)
    (fun name literal depth =>
      keywordInstruction name (a.code.size + 2) (depth + 1) keyword operands ::
        operandInstructions name literal (a.code.size + 3 + keyword.names + keyword.gaps)
          (depth + 1) keyword.names operands)
    (fun name literal depth => by simp only [instructions, shape]) ?_ ?_ ?_ h
  · rw [inner.table_eq]
    simp only [btable, names, shape, StringTable.insertAll_append]
  · intro later hlater depth
    rw [inner.code_eq later hlater (depth + 1), bsize,
      bcode later (StringTable.le_trans le hlater)]
    simp [keywordInstruction, Instruction.encode, operandWords]
  · intro name literal depth
    rw [inner.slots_eq name literal (depth + 1), bsize]
    simp [bslots, slots_keywordInstruction]

/-- The assembler when a list is opened whose form is selected by an opcode and a count. -/
def opened (op : Opcode) (count : Nat) (a : Assembler) : Assembler :=
  { a with code :=
    (((a.code.push (numbering.word .enter)).push 0).push (numbering.word op)).push count.toUInt32 }

theorem toList_opened (op : Opcode) (count : Nat) (a : Assembler) :
    (opened numbering op count a).code.toList =
      a.code.toList ++ [numbering.word .enter, 0, numbering.word op, count.toUInt32] := by
  simp [opened]

theorem size_opened (op : Opcode) (count : Nat) (a : Assembler) :
    (opened numbering op count a).code.size = a.code.size + 4 := by
  simp [opened]

/-- An operator form, whose operands are emitted. -/
theorem operator_emitted {op : Opcode} {head : Expr} {operands : List Expr}
    (shape : Shape.ofHead head = .operator op) {a c a' : Assembler}
    (inner : OperandsEmitted numbering 0 0 (opened numbering op operands.length a).code.toList []
      operands (opened numbering op operands.length a) c)
    (h : (do emit (numbering.word .leave); fill (a.code.size + 1)) c = .ok () a') :
    Emitted numbering (list (head :: operands)) a a' := by
  have wellFormed : ∀ operand ∈ operands, operand.WellFormed := inner.wellFormed
  refine bracket_emitted numbering (c := c) rfl (.operator shape wellFormed)
    (fun name literal depth =>
      ⟨a.code.size + 2, depth + 1, op, [operands.length.toUInt32]⟩ ::
        operandInstructions name literal (a.code.size + 4) (depth + 1) 0 operands)
    (fun name literal depth => by simp only [instructions, shape]) ?_ ?_ ?_ h
  · rw [inner.table_eq]
    simp only [opened, names, shape]
  · intro later hlater depth
    rw [inner.code_eq later hlater (depth + 1), toList_opened, size_opened]
    simp [Instruction.encode, operandWords, endOffsets]
  · intro name literal depth
    rw [inner.slots_eq name literal (depth + 1), size_opened]
    simp [opened, Instruction.slots, Shape.operands_of_operator shape]

/-- A call, whose callee and operands are emitted. -/
theorem call_emitted {head : Expr} {operands : List Expr} (shape : Shape.ofHead head = .call)
    {a b c a' : Assembler}
    (callee : Emitted numbering head (opened numbering .call operands.length a) b)
    (inner : OperandsEmitted numbering 0 0 b.code.toList [] operands b c)
    (h : (do emit (numbering.word .leave); fill (a.code.size + 1)) c = .ok () a') :
    Emitted numbering (list (head :: operands)) a a' := by
  have wellFormed : ∀ operand ∈ operands, operand.WellFormed := inner.wellFormed
  have le : b.table ≤ c.table := by
    rw [inner.table_eq]
    exact StringTable.le_insertAll _ _
  refine bracket_emitted numbering (c := c) rfl (.call shape callee.wellFormed wellFormed)
    (fun name literal depth =>
      ⟨a.code.size + 2, depth + 1, .call, [operands.length.toUInt32]⟩ ::
        (head.instructions name literal (a.code.size + 4) (depth + 1) ++
          operandInstructions name literal (a.code.size + 4 + head.size) (depth + 1) 0 operands))
    (fun name literal depth => by simp only [instructions, shape]) ?_ ?_ ?_ h
  · rw [inner.table_eq, callee.table_eq]
    simp only [opened, names, shape, StringTable.insertAll_append]
  · intro later hlater depth
    -- the callee compiled in an earlier table than the operands
    rw [inner.code_eq later hlater (depth + 1), callee.size_eq,
      callee.code_eq later (StringTable.le_trans le hlater) (depth + 1), toList_opened, size_opened]
    simp [Instruction.encode, operandWords, words, endOffsets]
  · intro name literal depth
    rw [inner.slots_eq name literal (depth + 1), callee.size_eq,
      callee.slots_eq name literal (depth + 1), size_opened]
    simp [opened, Instruction.slots, Opcode.operands]

mutual

/-- An expression that compiles is well-formed, and the assembler appends its code by sizes. -/
theorem assemble_emitted : ∀ (expr : Expr) {a a' : Assembler},
    expr.assembleWith numbering fill a = .ok () a' → Emitted numbering expr a a'
  | number value, a, a', h => by
    rw [assembleWith, emit_bind, emit_apply] at h
    obtain rfl := (EStateM.Result.ok.inj h).2
    exact ⟨.number value, trivial, rfl, by simp [words, instructions, Instruction.encode],
      by simp [instructions, Instruction.slots, Opcode.operands]⟩
  | string id, a, a', h => by
    rw [assembleWith, emit_bind, emitString_apply] at h
    obtain rfl := (EStateM.Result.ok.inj h).2
    exact ⟨.string id, trivial, rfl, by simp [words, instructions, Instruction.encode],
      by simp [instructions, Instruction.slots, Opcode.operands]⟩
  | symbol text, a, a', h => by
    rw [assembleWith, emit_bind, emitName_apply] at h
    obtain rfl := (EStateM.Result.ok.inj h).2
    refine ⟨.symbol text, trivial, rfl, ?_,
      by simp [instructions, Instruction.slots, Opcode.operands]⟩
    intro later le depth
    simp [words, instructions, Instruction.encode, StringTable.wordOf_of_insert_le le]
  | list [], a, a', h => by
    rw [assembleWith] at h
    exact absurd h throw_ne_ok
  | list (head :: operands), a, a', h => by
    rw [assembleWith, emit_bind, reserve_bind] at h
    cases shape : Shape.ofHead head with
    | keyword keyword =>
      simp only [shape] at h
      split at h
      · rw [bind_eq_ok] at h
        obtain ⟨_, _, h, -⟩ := h
        exact absurd h throw_ne_ok
      · next arity =>
        have arity : operands.length = keyword.arity := by simpa using arity
        rw [emit_bind, bind_eq_ok] at h
        obtain ⟨⟨⟩, b, named, h⟩ := h
        rw [bind_eq_ok] at h
        simp only [reserveMany_apply, EStateM.Result.ok.injEq] at h
        obtain ⟨_, _, ⟨rfl, rfl⟩, h⟩ := h
        rw [bind_eq_ok] at h
        obtain ⟨⟨⟩, c, hinner, h⟩ := h
        rw [← Array.length_toList] at hinner
        have inner := assembleOperands_emitted operands keyword.names keyword.gaps b.code.toList []
          (by simp) (Nat.le_of_lt (gaps_lt_length_drop arity)) hinner
        exact keyword_emitted numbering shape arity named inner (by simpa using h)
    | operator op =>
      simp only [shape] at h
      rw [emit_bind, emit_bind, bind_eq_ok] at h
      obtain ⟨⟨⟩, c, hinner, h⟩ := h
      have inner := assembleOperands_emitted operands 0 0
        (opened numbering op operands.length a).code.toList [] (by simp [opened]) (by simp) hinner
      exact operator_emitted numbering shape inner (by simpa using h)
    | call =>
      simp only [shape] at h
      rw [emit_bind, emit_bind, bind_eq_ok] at h
      obtain ⟨⟨⟩, b, hcallee, h⟩ := h
      rw [bind_eq_ok] at h
      obtain ⟨⟨⟩, c, hinner, h⟩ := h
      have callee := assemble_emitted (a := opened numbering .call operands.length a) head hcallee
      have inner := assembleOperands_emitted operands 0 0 b.code.toList [] (by simp) (by simp)
        hinner
      exact call_emitted numbering shape callee inner (by simpa using h)

theorem assembleOperands_emitted : ∀ (operands : List Expr) (names gaps : Nat)
    (front back : List UInt32) {a a' : Assembler},
    a.code.toList = front ++ List.replicate gaps 0 ++ back →
    gaps ≤ (operands.drop names).length →
    assembleOperandsWith numbering fill names (List.range' front.length gaps) operands a =
      .ok () a' →
    OperandsEmitted numbering names gaps front back operands a a'
  | [], names, gaps, front, back, a, a', code, enough, h => by
    obtain rfl : gaps = 0 := by simpa using enough
    rw [assembleOperandsWith] at h
    obtain rfl : a = a' := by simpa [pure, EStateM.pure] using h
    refine ⟨by simp, rfl, ?_, by simp [operandInstructions]⟩
    intro later _ depth
    simpa [endOffsets, operandWords, operandInstructions] using code
  | operand :: rest, names + 1, gaps, front, back, a, a', code, enough, h => by
    rw [assembleOperandsWith] at h
    obtain ⟨wellFormed, table, words, slots⟩ :=
      assembleOperands_emitted rest names gaps front back code (by simpa using enough) h
    exact ⟨by simpa using wellFormed, by simpa [operandNames] using table,
      by simpa [operandWords, operandInstructions] using words,
      by simpa [operandInstructions] using slots⟩
  | operand :: rest, 0, 0, front, back, a, a', code, enough, h => by
    rw [List.range'_zero, assembleOperandsWith, bind_eq_ok] at h
    obtain ⟨⟨⟩, b, hoperand, hrest⟩ := h
    have first := assemble_emitted operand hoperand
    have inner := assembleOperands_emitted rest 0 0 b.code.toList [] (by simp) (by simp) hrest
    have le : b.table ≤ a'.table := inner.table_eq ▸ StringTable.le_insertAll _ _
    refine ⟨List.forall_mem_cons.2 ⟨first.wellFormed, inner.wellFormed⟩, ?_,
      ?_, ?_⟩
    · rw [inner.table_eq, first.table_eq, operandNames, StringTable.insertAll_append]
    · intro later hlater depth
      rw [inner.code_eq later hlater depth,
        first.code_eq later (StringTable.le_trans le hlater) depth, first.size_eq, code]
      simp [endOffsets, words, operandWords, operandInstructions]
    · intro name literal depth
      rw [inner.slots_eq name literal depth, first.slots_eq name literal depth, first.size_eq]
      simp [operandInstructions]
  -- the next gap is filled behind this operand, so the gaps shrink from the front
  | operand :: rest, 0, gaps + 1, front, back, a, a', code, enough, h => by
    rw [List.range'_succ, assembleOperandsWith, bind_eq_ok] at h
    obtain ⟨⟨⟩, b, hoperand, h⟩ := h
    rw [bind_eq_ok] at h
    obtain ⟨⟨⟩, c, hfill, hrest⟩ := h
    have first := assemble_emitted operand hoperand
    obtain ⟨-, hc⟩ := fill_eq_ok.1 hfill
    have ctable : c.table = b.table := hc ▸ rfl
    have cslots : c.slots = b.slots := hc ▸ rfl
    have csize : c.code.size = a.code.size + operand.size := by
      rw [hc, ← first.size_eq]
      exact Array.size_setIfInBounds
    have filled : c.code = b.code.setIfInBounds front.length b.code.size.toUInt32 := by rw [hc]
    have ccode := first.toList_fill code b.code.size.toUInt32
    rw [← filled] at ccode
    have inner := assembleOperands_emitted rest 0 gaps _ _ ccode (by simpa using enough)
      (by simpa using hrest)
    have le : b.table ≤ a'.table := by
      rw [inner.table_eq, ctable]
      exact StringTable.le_insertAll _ _
    refine ⟨List.forall_mem_cons.2 ⟨first.wellFormed, inner.wellFormed⟩, ?_,
      ?_, ?_⟩
    · rw [inner.table_eq, ctable, first.table_eq, operandNames, StringTable.insertAll_append]
    · intro later hlater depth
      rw [inner.code_eq later hlater depth, csize, first.size_eq,
        first.words_eq (StringTable.le_trans le hlater) 0 depth]
      simp [endOffsets, words, operandWords, operandInstructions]
    · intro name literal depth
      rw [inner.slots_eq name literal depth, cslots, csize, first.slots_eq name literal depth]
      simp [operandInstructions]

end

/-- A block is what the assembler appends to nothing. -/
theorem assemble_of_compile {numbering : Numbering} {e : Expr} {table after : StringTable}
    {block : Block} (h : e.compile numbering table = (.ok block, after)) :
    e.assembleWith numbering fill ⟨#[], #[], table⟩ =
      .ok () ⟨block.code, block.slots.toArray, after⟩ := by
  rw [compile] at h
  cases run : e.assembleWith numbering fill ⟨#[], #[], table⟩ with
  | error fault a => simp [run] at h
  | ok _ a =>
    simp only [run, Prod.mk.injEq, Except.ok.injEq] at h
    obtain ⟨rfl, rfl⟩ := h
    rfl

end Expr

end Libretto.Script
