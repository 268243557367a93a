/-
Forms by text.

A *datum* is an expression whose literals are texts and not ids, so that forms of different units
can be compared.  Interning turns a datum into an expression again:

* **`Expr.datum?`** — the datum of an expression, if all its ids name strings;
* **`Datum.expr`** — the expression of a datum, for an assignment of ids;
* **`Datum.strings`** — the names and literals that the code of a datum refers to, in code order;
* **`Datum.instructions`** — its instructions, for an assignment of words to strings;
* **`eq_of_forall_expr`** — a datum is determined by its expressions;
* **`instructions_congr`** — code depends on ids and words only through the strings that they stand
  for.
-/
import Libretto.Proofs.Code.Resolution
import Libretto.Proofs.Interning
import Libretto.Script.Lexeme

namespace Libretto.Script

/-- An expression whose literals are texts. -/
inductive Datum where
  | number (value : Numeral.Single)
  | symbol (name : String)
  | string (text : String)
  | list (items : List Datum)
  deriving Repr, Inhabited

namespace Datum

/-- The name of a datum that is a symbol. -/
def symbol? : Datum → Option String
  | symbol name => some name
  | _ => none

mutual

/-- The expression of a datum, with the given ids for its literals. -/
def expr (id : String → StringId) : Datum → Expr
  | number value => .number value
  | symbol name => .symbol name
  | string text => .string (id text)
  | list items => .list (exprs id items)

/-- The expressions of data. -/
def exprs (id : String → StringId) : List Datum → List Expr
  | [] => []
  | item :: rest => item.expr id :: exprs id rest

end

/-- What a head selects; ids play no part in it. -/
def shape (head : Datum) : Shape :=
  Shape.ofHead (head.expr fun _ => default)

mutual

/-- The strings that the code of a datum refers to, in code order.  The head of a list is among them
only if it is called. -/
def strings : Datum → List String
  | number _ => []
  | symbol name => [name]
  | string text => [text]
  | list [] => []
  | list (head :: operands) =>
    match head.shape with
    | .call => head.strings ++ stringsOf operands
    | _ => stringsOf operands

/-- The strings of data in order. -/
def stringsOf : List Datum → List String
  | [] => []
  | item :: rest => item.strings ++ stringsOf rest

end

/-- The instructions of a datum, with the given words for its strings. -/
def instructions (word : String → UInt32) (offset depth : Nat) (datum : Datum) :
    List Instruction :=
  (datum.expr fun text => ⟨word text⟩).instructions word StringId.index offset depth

end Datum

mutual

/-- The datum of an expression whose ids name the given strings. -/
def Expr.datum? (text? : StringId → Option String) : Expr → Option Datum
  | number value => some (.number value)
  | symbol name => some (.symbol name)
  | string id => (text? id).map .string
  | list items => (Expr.data? text? items).map .list

/-- The data of expressions. -/
def Expr.data? (text? : StringId → Option String) : List Expr → Option (List Datum)
  | [] => some []
  | item :: rest => do
    let item ← item.datum? text?
    let rest ← Expr.data? text? rest
    return item :: rest

end

namespace Datum

/-! ### From expressions to data and back -/

theorem eq_symbol {d : Datum} {name : String} (h : d.symbol? = some name) : d = .symbol name := by
  cases d <;> simp_all [symbol?]

theorem exprs_eq_map (id : String → StringId) (items : List Datum) :
    exprs id items = items.map (expr id) := by
  induction items with
  | nil => rfl
  | cons item rest ih => rw [exprs, ih, List.map_cons]

theorem length_exprs (id : String → StringId) (items : List Datum) :
    (exprs id items).length = items.length := by
  rw [exprs_eq_map, List.length_map]

mutual

/-- A datum is what it gives under all ids. -/
theorem eq_of_forall_expr : ∀ {d other : Datum},
    (∀ id : String → StringId, d.expr id = other.expr id) → d = other
  | .number _, .number _, h => congrArg number (Expr.number.inj (h default))
  | .symbol _, .symbol _, h => congrArg symbol (Expr.symbol.inj (h default))
  | .string text, .string other, h => by
    by_contra differ
    have texts : text ≠ other := fun same => differ (congrArg string same)
    -- ids that tell the two texts apart
    have ids := Expr.string.inj (h fun t => if t = text then ⟨0⟩ else ⟨1⟩)
    simp only [if_neg texts.symm, if_true] at ids
    exact absurd ids (by decide)
  | .list _, .list _, h =>
    congrArg list (eq_of_forall_exprs fun id => Expr.list.inj (h id))
  | .number _, .symbol _, h | .number _, .string _, h | .number _, .list _, h => nomatch h default
  | .symbol _, .number _, h | .symbol _, .string _, h | .symbol _, .list _, h => nomatch h default
  | .string _, .number _, h | .string _, .symbol _, h | .string _, .list _, h => nomatch h default
  | .list _, .number _, h | .list _, .symbol _, h | .list _, .string _, h => nomatch h default

theorem eq_of_forall_exprs : ∀ {items others : List Datum},
    (∀ id : String → StringId, exprs id items = exprs id others) → items = others
  | [], [], _ => rfl
  | _ :: _, _ :: _, h =>
    List.cons_eq_cons.2 ⟨eq_of_forall_expr fun id => (List.cons.inj (h id)).1,
      eq_of_forall_exprs fun id => (List.cons.inj (h id)).2⟩
  | [], _ :: _, h => nomatch h default
  | _ :: _, [], h => nomatch h default

end

mutual

/-- The names and literals in a datum, in the order of its text. -/
def lexemes : Datum → List Lexeme
  | number _ => []
  | symbol name => [.word name]
  | string text => [.quoted text]
  | list items => lexemesOf items

/-- The names and literals in data. -/
def lexemesOf : List Datum → List Lexeme
  | [] => []
  | item :: rest => item.lexemes ++ lexemesOf rest

end

theorem lexemesOf_append (front back : List Datum) :
    lexemesOf (front ++ back) = lexemesOf front ++ lexemesOf back := by
  induction front with
  | nil => rfl
  | cons item rest ih => rw [List.cons_append, lexemesOf, lexemesOf, ih, List.append_assoc]

theorem mem_lexemesOf {items : List Datum} {a : Lexeme} :
    a ∈ lexemesOf items ↔ ∃ item ∈ items, a ∈ item.lexemes := by
  induction items with
  | nil => simp [lexemesOf]
  | cons item rest ih => simp [lexemesOf, ih]

mutual

/-- A datum is read from its expression, if its ids name its literals. -/
theorem datum?_expr {text? : StringId → Option String} {id : String → StringId} :
    ∀ {d : Datum}, (∀ text, .quoted text ∈ d.lexemes → text? (id text) = some text) →
      (d.expr id).datum? text? = some d
  | number value, _ => rfl
  | symbol name, _ => rfl
  | string text, h => by
    rw [expr, Expr.datum?, h text (by simp [lexemes])]
    rfl
  | list items, h => by
    rw [expr, Expr.datum?, data?_exprs (by simpa [lexemes] using h)]
    rfl

theorem data?_exprs {text? : StringId → Option String} {id : String → StringId} :
    ∀ {items : List Datum}, (∀ text, .quoted text ∈ lexemesOf items → text? (id text) = some text) →
      Expr.data? text? (exprs id items) = some items
  | [], _ => rfl
  | item :: rest, h => by
    rw [lexemesOf] at h
    rw [exprs, Expr.data?, datum?_expr fun text mem => h text (List.mem_append_left _ mem),
      data?_exprs fun text mem => h text (List.mem_append_right _ mem)]
    rfl

end

mutual

/-- The expression of a datum depends on the ids of its literals only. -/
theorem expr_congr {id other : String → StringId} :
    ∀ {d : Datum}, (∀ text, .quoted text ∈ d.lexemes → id text = other text) →
      d.expr id = d.expr other
  | .number _, _ => rfl
  | .symbol _, _ => rfl
  | .string text, h => congrArg Expr.string (h text (by simp [lexemes]))
  | .list _, h => congrArg Expr.list (exprs_congr h)

theorem exprs_congr {id other : String → StringId} :
    ∀ {items : List Datum}, (∀ text, .quoted text ∈ lexemesOf items → id text = other text) →
      exprs id items = exprs other items
  | [], _ => rfl
  | item :: rest, h => by
    rw [exprs, exprs, expr_congr fun text mem => h text (List.mem_append_left _ mem),
      exprs_congr fun text mem => h text (List.mem_append_right _ mem)]

end

/-! ### What ids do not change -/

section

variable (id other : String → StringId)

@[simp] theorem symbol?_expr : ∀ d : Datum, (d.expr id).symbol? = d.symbol?
  | .number _ | .symbol _ | .string _ | .list _ => rfl

theorem ofHead_expr (head : Datum) : Shape.ofHead (head.expr id) = head.shape := by
  unfold shape Shape.ofHead
  rw [symbol?_expr, symbol?_expr]

theorem leadingNames_exprs (keyword : Keyword) (operands : List Datum) :
    Expr.leadingNames keyword (exprs id operands) =
      (operands.take keyword.names).filterMap symbol? := by
  rw [Expr.leadingNames, exprs_eq_map, ← List.map_take, List.filterMap_map]
  exact congrArg (List.filterMap · _) (funext fun d => symbol?_expr id d)

mutual

theorem size_expr : ∀ d : Datum, (d.expr id).size = (d.expr other).size
  | .number _ | .symbol _ | .string _ | .list [] => rfl
  | .list (head :: operands) => by
    simp only [expr, exprs, Expr.size, ofHead_expr, size_expr head, operandSizes_exprs _ operands]

theorem operandSizes_exprs : ∀ (skipped : Nat) (operands : List Datum),
    Expr.operandSizes skipped (exprs id operands) = Expr.operandSizes skipped (exprs other operands)
  | _, [] => by simp only [exprs]
  | skipped + 1, _ :: rest => by
    simp only [exprs, Expr.operandSizes, operandSizes_exprs skipped rest]
  | 0, operand :: rest => by
    simp only [exprs, Expr.operandSizes, size_expr operand, operandSizes_exprs 0 rest]

end

theorem endOffsets_exprs (offset gaps skipped : Nat) (operands : List Datum) :
    Expr.endOffsets offset gaps ((exprs id operands).drop skipped) =
      Expr.endOffsets offset gaps ((exprs other operands).drop skipped) := by
  simp only [exprs_eq_map, ← List.map_drop]
  generalize operands.drop skipped = operands
  induction operands generalizing offset gaps with
  | nil => rfl
  | cons operand rest ih =>
    cases gaps with
    | zero => rfl
    | succ gaps => simp only [List.map_cons, Expr.endOffsets, size_expr id other operand, ih]

theorem isSome_symbol?_exprs {operands : List Datum} {count : Nat}
    (h : ∀ operand ∈ (exprs id operands).take count, operand.symbol?.isSome) :
    ∀ operand ∈ (exprs other operands).take count, operand.symbol?.isSome := by
  simpa [exprs_eq_map, ← List.map_take] using h

end

mutual

/-- Whether a datum compiles does not depend on ids, offsets apart. -/
theorem wellFormed_expr {id : String → StringId} (other : String → StringId) :
    ∀ {d : Datum}, (d.expr id).WellFormed → (d.expr other).WellFormed
  | .number value, _ => .number value
  | .symbol name, _ => .symbol name
  | .string text, _ => .string (other text)
  | .list [], h => nomatch h
  | .list (head :: operands), h => by
    cases h with
    | @keyword keyword _ _ shape arity leading inner =>
      rw [ofHead_expr, ← ofHead_expr other] at shape
      rw [length_exprs, ← length_exprs other] at arity
      exact .keyword shape arity (isSome_symbol?_exprs id other leading)
        (wellFormed_exprs other keyword.names inner)
    | @operator op _ _ shape inner =>
      rw [ofHead_expr, ← ofHead_expr other] at shape
      exact .operator shape (wellFormed_exprs other 0 inner)
    | call shape callee inner =>
      rw [ofHead_expr, ← ofHead_expr other] at shape
      exact .call shape (wellFormed_expr other callee) (wellFormed_exprs other 0 inner)

theorem wellFormed_exprs {id : String → StringId} (other : String → StringId) :
    ∀ (skipped : Nat) {operands : List Datum},
      (∀ operand ∈ (exprs id operands).drop skipped, operand.WellFormed) →
      ∀ operand ∈ (exprs other operands).drop skipped, operand.WellFormed
  | _, [], _, operand, mem => by simp [exprs] at mem
  | skipped + 1, _ :: rest, h, operand, mem => wellFormed_exprs other skipped h operand mem
  | 0, first :: rest, h, operand, mem => by
    rcases List.mem_cons.1 mem with rfl | mem
    · exact wellFormed_expr other (h _ List.mem_cons_self)
    · exact wellFormed_exprs other 0 (fun e mem => h e (List.mem_cons_of_mem _ mem)) operand mem

end

/-! ### Code by texts -/

theorem mem_stringsOf {operands : List Datum} {operand : Datum} {text : String}
    (mem : operand ∈ operands) (h : text ∈ operand.strings) : text ∈ stringsOf operands := by
  induction operands with
  | nil => simp at mem
  | cons first rest ih =>
    rcases List.mem_cons.1 mem with rfl | mem
    · exact List.mem_append_left _ h
    · exact List.mem_append_right _ (ih mem)

theorem mem_strings_of_operands {head : Datum} {operands : List Datum} {text : String}
    (mem : text ∈ stringsOf operands) : text ∈ (list (head :: operands)).strings := by
  rw [strings]
  split
  · exact List.mem_append_right _ mem
  · exact mem

theorem mem_stringsOf_of_leading {operands : List Datum} {count : Nat} {name : String}
    (mem : name ∈ (operands.take count).filterMap symbol?) : name ∈ stringsOf operands := by
  obtain ⟨operand, hoperand, hname⟩ := List.mem_filterMap.1 mem
  refine mem_stringsOf (List.mem_of_mem_take hoperand) ?_
  cases operand <;> simp_all [symbol?, strings]

section

variable {name name' : String → UInt32} {literal literal' : StringId → UInt32}
  {id other : String → StringId}

mutual

/-- The code depends on ids and words only through the strings that it refers to. -/
theorem instructions_congr : ∀ {d : Datum},
    (∀ text ∈ d.strings, name text = name' text ∧ literal (id text) = literal' (other text)) →
    ∀ offset depth, (d.expr id).instructions name literal offset depth =
      (d.expr other).instructions name' literal' offset depth
  | .number _, _, _, _ => rfl
  | .symbol text, h, _, _ => by
    simp only [expr, Expr.instructions, (h text (by simp [strings])).1]
  | .string text, h, _, _ => by
    simp only [expr, Expr.instructions, (h text (by simp [strings])).2]
  | .list [], _, _, _ => rfl
  | .list (head :: operands), h, offset, depth => by
    -- offsets are sums of sizes, which ids do not change
    have size := size_expr id other (.list (head :: operands))
    have inner := fun offset skipped => operandInstructions_congr skipped
      (fun text mem => h text (mem_strings_of_operands mem)) offset (depth + 1)
    have leading : ∀ count, ((operands.take count).filterMap symbol?).map name =
        ((operands.take count).filterMap symbol?).map name' := fun count =>
      List.map_congr_left fun text mem =>
        (h text (mem_strings_of_operands (mem_stringsOf_of_leading mem))).1
    rw [expr, expr, exprs, exprs] at size ⊢
    cases hshape : head.shape with
    | keyword keyword =>
      simp only [Expr.instructions, ofHead_expr, hshape, size, inner, Expr.keywordInstruction,
        leadingNames_exprs, leading, endOffsets_exprs id other]
    | operator op =>
      simp only [Expr.instructions, ofHead_expr, hshape, size, inner, length_exprs]
    | call =>
      have callee := instructions_congr (d := head) fun text mem =>
        h text (by rw [strings, hshape]; exact List.mem_append_left _ mem)
      simp only [Expr.instructions, ofHead_expr, hshape, size, inner, callee,
        size_expr id other head, length_exprs]

theorem operandInstructions_congr : ∀ (skipped : Nat) {operands : List Datum},
    (∀ text ∈ stringsOf operands,
      name text = name' text ∧ literal (id text) = literal' (other text)) →
    ∀ offset depth,
      Expr.operandInstructions name literal offset depth skipped (exprs id operands) =
        Expr.operandInstructions name' literal' offset depth skipped (exprs other operands)
  | _, [], _, _, _ => by simp only [exprs, Expr.operandInstructions]
  | skipped + 1, first :: rest, h, offset, depth => by
    simp only [exprs, Expr.operandInstructions]
    exact operandInstructions_congr skipped
      (fun text mem => h text (List.mem_append_right _ mem)) _ _
  | 0, first :: rest, h, offset, depth => by
    simp only [exprs, Expr.operandInstructions, size_expr id other first]
    rw [instructions_congr (fun text mem => h text (List.mem_append_left _ mem)),
      operandInstructions_congr 0 fun text mem => h text (List.mem_append_right _ mem)]

end

end

/-- The instructions of a datum depend on the words of its own strings only. -/
theorem instructions_eq_of_words {word other : String → UInt32} {d : Datum}
    (h : ∀ text ∈ d.strings, word text = other text) (offset depth : Nat) :
    d.instructions word offset depth = d.instructions other offset depth :=
  instructions_congr (fun text mem => ⟨h text mem, h text mem⟩) offset depth

/-- The expression of a datum, seen through words, is its instructions. -/
theorem instructions_expr {name word : String → UInt32} {literal : StringId → UInt32}
    {id : String → StringId} {d : Datum}
    (h : ∀ text ∈ d.strings, name text = word text ∧ literal (id text) = word text)
    (offset depth : Nat) :
    (d.expr id).instructions name literal offset depth = d.instructions word offset depth :=
  instructions_congr h offset depth

theorem strings_keywordInstruction (name : String → UInt32) {keyword : Keyword}
    {operands : List Expr} (arity : operands.length = keyword.arity)
    (leading : ∀ operand ∈ operands.take keyword.names, operand.symbol?.isSome)
    (offset depth : Nat) :
    (Expr.keywordInstruction name offset depth keyword operands).strings =
      (Expr.leadingNames keyword operands).map name := by
  have hlength := Expr.length_leadingNames arity leading
  unfold Expr.keywordInstruction
  generalize Expr.leadingNames keyword operands = names at hlength
  cases keyword with
  | branch =>
    obtain rfl : names = [] := List.length_eq_zero_iff.1 hlength
    rfl
  | define | assign | assignItem | item =>
    obtain ⟨name, rfl⟩ := List.length_eq_one_iff.1 hlength
    rfl

/-- An instruction that takes a count names no string. -/
theorem strings_of_count {op : Opcode} (kind : op.operands = .count) (offset depth : Nat)
    (operands : List UInt32) : Instruction.strings ⟨offset, depth, op, operands⟩ = [] := by
  simp [Instruction.strings, kind]

/-- Names that lead are strings like all others. -/
theorem stringsOf_leading {operands : List Datum} {count : Nat}
    (h : ∀ operand ∈ operands.take count, operand.symbol?.isSome) :
    stringsOf operands =
      (operands.take count).filterMap symbol? ++ stringsOf (operands.drop count) := by
  induction operands generalizing count with
  | nil => simp [stringsOf]
  | cons operand rest ih =>
    cases count with
    | zero => rfl
    | succ count =>
      rw [List.take_succ_cons, List.forall_mem_cons] at h
      obtain ⟨name, hname⟩ := Option.isSome_iff_exists.1 h.1
      rw [stringsOf, ih h.2, List.take_succ_cons, List.filterMap_cons_some hname]
      cases operand <;> simp_all [symbol?, strings]

section

variable {word : String → UInt32} {literal : StringId → UInt32} {id : String → StringId}

mutual

/-- The code of a datum refers to the strings of the datum, in this order. -/
theorem strings_instructions_expr (h : ∀ text, literal (id text) = word text) :
    ∀ {d : Datum}, (d.expr id).WellFormed → ∀ offset depth,
      ((d.expr id).instructions word literal offset depth).flatMap Instruction.strings =
        d.strings.map word
  | .number _, _, _, _ => rfl
  | .symbol _, _, _, _ => rfl
  | .string text, _, _, _ => congrArg (fun word => [word]) (h text)
  | .list [], wellFormed, _, _ => nomatch wellFormed
  | .list (head :: operands), wellFormed, offset, depth => by
    cases wellFormed with
    | @keyword keyword _ _ shape arity leading inner =>
      have operands_eq := strings_operandInstructions h keyword.names inner
        (offset + 3 + keyword.names + keyword.gaps) (depth + 1)
      have lead := strings_keywordInstruction word arity leading (offset + 2) (depth + 1)
      have leading' : ∀ operand ∈ operands.take keyword.names, operand.symbol?.isSome := by
        simpa [exprs_eq_map, ← List.map_take] using leading
      -- a keyword is no string, but the name behind it is
      rw [expr, exprs, strings]
      simp only [Expr.instructions, shape, (ofHead_expr id head).symm.trans shape,
        List.flatMap_cons, List.flatMap_append, operands_eq, lead, leadingNames_exprs,
        stringsOf_leading leading', List.map_append]
      simp [Instruction.strings, Opcode.operands]
    | @operator op _ _ shape inner =>
      have operands_eq := strings_operandInstructions h 0 inner (offset + 4) (depth + 1)
      rw [expr, exprs, strings]
      simp only [Expr.instructions, shape, (ofHead_expr id head).symm.trans shape,
        List.flatMap_cons, List.flatMap_append, operands_eq,
        strings_of_count (Shape.operands_of_operator shape)]
      simp [Instruction.strings, Opcode.operands]
    | call shape callee inner =>
      have callee_eq := strings_instructions_expr h callee (offset + 4) (depth + 1)
      have operands_eq := strings_operandInstructions h 0 inner
        (offset + 4 + (head.expr id).size) (depth + 1)
      rw [expr, exprs, strings]
      simp only [Expr.instructions, shape, (ofHead_expr id head).symm.trans shape,
        List.flatMap_cons, List.flatMap_append, operands_eq, callee_eq, List.map_append]
      simp [Instruction.strings, Opcode.operands]

theorem strings_operandInstructions (h : ∀ text, literal (id text) = word text) :
    ∀ (skipped : Nat) {operands : List Datum},
      (∀ operand ∈ (exprs id operands).drop skipped, operand.WellFormed) → ∀ offset depth,
      (Expr.operandInstructions word literal offset depth skipped (exprs id operands)).flatMap
        Instruction.strings = (stringsOf (operands.drop skipped)).map word
  | _, [], _, _, _ => by simp [exprs, Expr.operandInstructions, stringsOf]
  | skipped + 1, _ :: rest, wellFormed, offset, depth => by
    simp only [exprs, Expr.operandInstructions, List.drop_succ_cons]
    exact strings_operandInstructions h skipped wellFormed offset depth
  | 0, first :: rest, wellFormed, offset, depth => by
    rw [exprs, List.drop_zero, List.forall_mem_cons] at wellFormed
    rw [exprs, Expr.operandInstructions, List.flatMap_append,
      strings_instructions_expr h wellFormed.1, strings_operandInstructions h 0 wellFormed.2,
      List.drop_zero, List.drop_zero, stringsOf, List.map_append]

end

end

end Datum

end Libretto.Script
