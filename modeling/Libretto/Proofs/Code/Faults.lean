/-
Which expressions compile, and what is reported of those that do not.

An expression is visited from its outside in and from left to right.  What is wrong with it in one
place does not depend on the place, so the fault that is reported is the first one on the way:

* **`Expr.visited`** — the expressions inside of an expression, in the order of the visit;
* **`Expr.fault?`** — what is wrong with an expression by itself; **`Expr.Formed`** — nothing is;
* **`reports_assemble`** — the assembler stops at the first fault of the visit, unless the code has
  grown too large before;
* **`wellFormed_of_formed`** — without a fault the expression is well-formed;
* **`compile_reports`** — hence an expression compiles exactly if nothing visited has a fault and a
  code word can hold its size.

`Reports` runs alongside the steps of the assembler: a step that comes first is reported first.
-/
import Libretto.Proofs.Code.Compilation
import Libretto.Proofs.Outcome

namespace Libretto.Script

/-! ### What heads select -/

theorem Keyword.ofText?_text (keyword : Keyword) : ofText? keyword.text = some keyword := by
  cases keyword <;> decide

theorem Shape.ofHead_eq_keyword_iff {head : Expr} {keyword : Keyword} :
    ofHead head = .keyword keyword ↔ head = .symbol keyword.text := by
  constructor
  · intro h
    unfold ofHead at h
    split at h
    · cases h
    · next name symbol =>
      split at h
      · next found =>
        obtain rfl := Shape.keyword.inj h
        have text := List.find?_some found
        rw [beq_iff_eq.1 text]
        cases head with
        | symbol other =>
          obtain rfl := Option.some.inj symbol
          rfl
        | _ => cases symbol
      · cases h
      · cases h
  · rintro rfl
    unfold ofHead
    simp only [Expr.symbol?, Keyword.ofText?_text]

namespace Expr

mutual

/-- The expressions inside of an expression that are compiled, in order: a list comes in front of
its operands.  Names that lead them are no expressions, and neither are heads, unless called. -/
def visited : Expr → List Expr
  | list (head :: operands) =>
    list (head :: operands) ::
      match Shape.ofHead head with
      | .keyword keyword => visitedIn keyword.names operands
      | .operator _ => visitedIn 0 operands
      | .call => head.visited ++ visitedIn 0 operands
  | e => [e]

/-- The expressions inside of operands behind the first `names` ones. -/
def visitedIn : Nat → List Expr → List Expr
  | _, [] => []
  | names + 1, _ :: rest => visitedIn names rest
  | 0, operand :: rest => operand.visited ++ visitedIn 0 rest

end

/-- The fault of operands that are led by something that is no name. -/
def leadingFault? (keyword : Keyword) (operands : List Expr) : Option CompileError :=
  (operands.take keyword.names).findSome? fun operand =>
    if operand.symbol?.isSome then none else some (.expectedName keyword operand.text)

/-- What is wrong with an expression, whatever stands inside of it. -/
def fault? : Expr → Option CompileError
  | list [] => some .emptyForm
  | list (head :: operands) =>
    match Shape.ofHead head with
    | .keyword keyword =>
      if operands.length ≠ keyword.arity then some (.arity keyword operands.length)
      else leadingFault? keyword operands
    | _ => none
  | _ => none

/-- A list is not empty, and has the operands that its keyword wants. -/
def Formed (e : Expr) : Prop :=
  e ≠ list [] ∧ ∀ (keyword : Keyword) operands, e = list (symbol keyword.text :: operands) →
    operands.length = keyword.arity ∧
      ∀ operand ∈ operands.take keyword.names, operand.symbol?.isSome

theorem leadingFault?_eq_none_iff {keyword : Keyword} {operands : List Expr} :
    leadingFault? keyword operands = none ↔
      ∀ operand ∈ operands.take keyword.names, operand.symbol?.isSome := by
  rw [leadingFault?, List.findSome?_eq_none_iff]
  refine forall₂_congr fun operand _ => ?_
  split
  · next symbol => exact iff_of_true rfl symbol
  · next symbol => exact iff_of_false (by simp) symbol

/-- Only a keyword asks something of the operands. -/
theorem formed_cons_iff {head : Expr} {operands : List Expr} :
    Formed (list (head :: operands)) ↔
      ∀ keyword, Shape.ofHead head = .keyword keyword → operands.length = keyword.arity ∧
        ∀ operand ∈ operands.take keyword.names, operand.symbol?.isSome := by
  constructor
  · rintro ⟨-, each⟩ keyword shape
    obtain rfl := Shape.ofHead_eq_keyword_iff.1 shape
    exact each keyword operands rfl
  · intro each
    refine ⟨by simp, ?_⟩
    intro keyword operands same
    obtain ⟨rfl, rfl⟩ := List.cons.inj (list.inj same)
    exact each keyword (Shape.ofHead_eq_keyword_iff.2 rfl)

theorem fault?_eq_none_iff {e : Expr} : e.fault? = none ↔ e.Formed := by
  cases e with
  | list items =>
    cases items with
    | nil => exact iff_of_false (by simp [fault?]) fun formed => formed.1 rfl
    | cons head operands =>
      rw [formed_cons_iff, fault?]
      cases Shape.ofHead head with
      | keyword keyword =>
        dsimp only
        split
        · next wrong => exact iff_of_false (by simp) fun each => wrong (each keyword rfl).1
        · next arity =>
          rw [leadingFault?_eq_none_iff]
          constructor
          · rintro leading _ ⟨⟩
            exact ⟨not_not.1 arity, leading⟩
          · intro each
            exact (each keyword rfl).2
      | operator op | call =>
        refine iff_of_true rfl ?_
        intro keyword other
        cases other
  | _ => exact iff_of_true rfl ⟨by simp, by simp⟩

end Expr

namespace Assembly

variable {α β : Type} {first second : Option CompileError}

/-- A step that fails if there is something to report, and then with that, unless the code has grown
too large before. -/
def Reports (first : Option CompileError) (x : Assembly α) : Prop :=
  ∀ a, match x a with
  | .ok _ _ => first = none
  | .error e _ => first = some e ∨ ∃ n, e = .tooLarge n ∧ 2 ^ 32 ≤ n

theorem Reports.bind {x : Assembly α} {f : α → Assembly β} (hx : Reports first x)
    (hf : ∀ y, Reports second (f y)) : Reports (first.or second) (x >>= f) := by
  intro a
  have here := hx a
  show match EStateM.bind x f a with | .ok _ _ => _ | .error e _ => _
  rw [EStateM.bind]
  cases run : x a with
  | error e b =>
    rw [run] at here
    rcases here with rfl | large
    · exact .inl rfl
    · exact .inr large
  | ok y b =>
    rw [run] at here
    subst here
    exact hf y b

/-- What is not reported first may come last. -/
theorem Reports.bind_close {x : Assembly α} {f : α → Assembly β} (hx : Reports first x)
    (hf : ∀ y, Reports none (f y)) : Reports first (x >>= f) := by
  rw [← Option.or_none (o := first)]
  exact hx.bind hf

theorem reports_pure (y : α) : Reports none (pure y : Assembly α) := fun _ => rfl

theorem reports_throw (e : CompileError) : Reports (some e) (throw e : Assembly α) :=
  fun _ => .inl rfl

theorem reports_emit (word : UInt32) : Reports none (emit word) := fun _ => rfl

theorem reports_emitString (id : StringId) : Reports none (emitString id) := fun _ => rfl

theorem reports_emitName (name : String) : Reports none (emitName name) := fun _ => rfl

theorem reports_reserve : Reports none reserve := fun _ => rfl

theorem reports_reserveMany (count : Nat) : Reports none (reserveMany count) := by
  intro a
  rw [reserveMany_apply]

theorem reports_fill (gap : Nat) : Reports none (fill gap) := by
  intro a
  rw [fill_apply]
  by_cases small : a.code.size < 2 ^ 32
  · rw [if_pos small]
  · rw [if_neg small]
    exact .inr ⟨a.code.size, rfl, Nat.le_of_not_lt small⟩

theorem reports_throw_bind {e : CompileError} {f : α → Assembly β} :
    Reports (some e) ((throw e : Assembly α) >>= f) := fun _ => .inl rfl

theorem reports_emitLeadingName (keyword : Keyword) (operands : List Expr) :
    Reports (Expr.leadingFault? keyword operands) (emitLeadingName keyword operands) := by
  obtain none | one := names_eq_zero_or_one keyword
  · rw [emitLeadingName_of_names none, Expr.leadingFault?, none]
    exact reports_pure ()
  · rw [Expr.leadingFault?, one]
    cases operands with
    | nil =>
      rw [emitLeadingName_nil]
      exact reports_pure ()
    | cons operand rest =>
      rw [List.take_succ_cons, List.take_zero, List.findSome?_singleton]
      cases symbol : operand.symbol? with
      | some name =>
        rw [emitLeadingName_name one symbol]
        exact reports_emitName name
      | none =>
        rw [emitLeadingName_other one symbol]
        exact reports_throw _

end Assembly

namespace Expr

open Assembly

variable (numbering : Numbering)

mutual

/-- The assembler stops at the first fault of the visit. -/
theorem reports_assemble : ∀ e : Expr,
    Reports (e.visited.findSome? fault?) (e.assembleWith numbering fill)
  | number _ => by
    rw [assembleWith]
    exact (reports_emit _).bind fun _ => reports_emit _
  | string _ => by
    rw [assembleWith]
    exact (reports_emit _).bind fun _ => reports_emitString _
  | symbol _ => by
    rw [assembleWith]
    exact (reports_emit _).bind fun _ => reports_emitName _
  | list [] => by
    rw [assembleWith]
    exact reports_throw _
  | list (head :: operands) => by
    -- in a visit, a list comes in front of what it holds
    rw [assembleWith, visited, findSome?_cons_eq_or]
    refine (reports_emit _).bind fun _ => reports_reserve.bind fun past => ?_
    have close : Reports none (do emit (numbering.word .leave); fill past) :=
      (reports_emit _).bind fun _ => reports_fill past
    rw [fault?]
    cases Shape.ofHead head with
    | keyword keyword =>
      dsimp only
      by_cases wrong : operands.length ≠ keyword.arity
      · rw [if_pos wrong, if_pos wrong]
        exact reports_throw_bind
      · rw [if_neg wrong, if_neg wrong]
        refine (reports_emit _).bind fun _ => (reports_emitLeadingName _ _).bind fun _ => ?_
        exact (reports_reserveMany _).bind fun _ =>
          (reports_assembleOperands _ _ operands).bind_close fun _ => close
    | operator op =>
      exact (reports_emit _).bind fun _ => (reports_emit _).bind fun _ =>
        (reports_assembleOperands _ _ operands).bind_close fun _ => close
    | call =>
      rw [List.findSome?_append]
      exact (reports_emit _).bind fun _ => (reports_emit _).bind fun _ =>
        (reports_assemble head).bind fun _ =>
          (reports_assembleOperands _ _ operands).bind_close fun _ => close

theorem reports_assembleOperands : ∀ (names : Nat) (gaps : List Nat) (operands : List Expr),
    Reports ((visitedIn names operands).findSome? fault?)
      (assembleOperandsWith numbering fill names gaps operands)
  | _, _, [] => by
    simp only [assembleOperandsWith, visitedIn]
    exact reports_pure ()
  | names + 1, gaps, first :: rest => by
    rw [assembleOperandsWith, visitedIn]
    exact reports_assembleOperands names gaps rest
  | 0, [], first :: rest => by
    rw [assembleOperandsWith, visitedIn, List.findSome?_append]
    exact (reports_assemble first).bind fun _ => reports_assembleOperands 0 [] rest
  | 0, gap :: gaps, first :: rest => by
    rw [assembleOperandsWith, visitedIn, List.findSome?_append]
    exact (reports_assemble first).bind fun _ =>
      (reports_fill gap).bind fun _ => reports_assembleOperands 0 gaps rest

end

mutual

/-- An expression without a fault inside of it is well-formed. -/
theorem wellFormed_of_formed : ∀ {e : Expr}, (∀ x ∈ e.visited, x.Formed) → e.WellFormed
  | number value, _ => .number value
  | string id, _ => .string id
  | symbol name, _ => .symbol name
  | list [], h => absurd rfl (h (list []) (by simp [visited])).1
  | list (head :: operands), h => by
    rw [visited, List.forall_mem_cons, formed_cons_iff] at h
    obtain ⟨here, inside⟩ := h
    cases shape : Shape.ofHead head with
    | keyword keyword =>
      rw [shape] at inside
      obtain ⟨arity, leading⟩ := here keyword shape
      exact .keyword shape arity leading (wellFormed_of_formedIn inside)
    | operator op =>
      rw [shape] at inside
      exact .operator shape (wellFormed_of_formedIn inside)
    | call =>
      rw [shape] at inside
      obtain ⟨callee, inner⟩ := List.forall_mem_append.1 inside
      exact .call shape (wellFormed_of_formed callee) (wellFormed_of_formedIn inner)

theorem wellFormed_of_formedIn : ∀ {names : Nat} {operands : List Expr},
    (∀ x ∈ visitedIn names operands, x.Formed) →
    ∀ operand ∈ operands.drop names, operand.WellFormed
  | _, [], _ => by simp
  | names + 1, _ :: rest, h => by
    rw [visitedIn] at h
    rw [List.drop_succ_cons]
    exact wellFormed_of_formedIn h
  | 0, first :: rest, h => by
    rw [visitedIn, List.forall_mem_append] at h
    rw [List.drop_zero, List.forall_mem_cons]
    exact ⟨wellFormed_of_formed h.1, wellFormed_of_formedIn h.2⟩

end

theorem fits_zero_iff {e : Expr} :
    e.Fits 0 ↔ ∀ items, e = list items → e.size ≤ 2 ^ 32 - 1 := by
  cases e with
  | list items =>
    constructor
    · rintro fits items ⟨⟩
      have fits : 0 + (list items).size < 2 ^ 32 := fits
      omega
    · intro fits
      have fits := fits items rfl
      show 0 + (list items).size < 2 ^ 32
      omega
  | _ =>
    refine iff_of_true trivial ?_
    intro items same
    cases same

/-- What compiling reports: nothing, or the first fault, or that the code is too large. -/
theorem compile_outcome (e : Expr) (table : StringTable) :
    match (e.compile numbering table).1 with
    | .ok _ => e.visited.findSome? fault? = none
    | .error fault =>
      e.visited.findSome? fault? = some fault ∨ ∃ n, fault = .tooLarge n ∧ 2 ^ 32 ≤ n := by
  have reports := reports_assemble numbering e ⟨#[], #[], table⟩
  rw [compile]
  cases run : e.assembleWith numbering fill ⟨#[], #[], table⟩ with
  | ok _ a => simpa only [run] using reports
  | error fault a => simpa only [run] using reports

/-- An expression compiles if and only if every list that is visited is well-formed by itself, and
the offset behind the whole fits a code word, unless it is an atom.  Otherwise the first fault of
the visit is reported, or that the code has grown too large.  Either way the string table keeps its
strings and their ids, and only symbols of the expression are added. -/
theorem compile_reports (e : Expr) (table : StringTable) :
    ((∃ block, (e.compile numbering table).1 = .ok block) ↔
      (∀ x ∈ e.visited, x.Formed) ∧ ∀ items, e = list items → e.size ≤ 2 ^ 32 - 1) ∧
    (∀ block, (e.compile numbering table).1 = .ok block → block.code.size = e.size) ∧
    (∀ fault, (e.compile numbering table).1 = .error fault →
      (∃ n, fault = .tooLarge n ∧ 2 ^ 32 ≤ n) ∨
      ∃ front x back, e.visited = front ++ x :: back ∧ (∀ y ∈ front, y.Formed) ∧
        x.fault? = some fault) ∧
    (∀ id text, table.get? id = some text →
      (e.compile numbering table).2.get? id = some text) ∧
    (∀ text ∈ table.texts, (e.compile numbering table).2.idOf text = table.idOf text) ∧
    ∀ text ∈ (e.compile numbering table).2.texts, text ∈ table.texts ∨ text ∈ e.symbols := by
  have outcome := compile_outcome numbering e table
  obtain ⟨le, added⟩ := e.compile_grows numbering table
  refine ⟨?_, ?_, ?_, fun id text found => StringTable.get?_of_le le found,
    fun text mem => StringTable.idOf_of_le le mem, added⟩
  · rw [isOk_compile_iff, fits_zero_iff]
    constructor
    · rintro ⟨wellFormed, fits⟩
      obtain ⟨block, compiled⟩ :=
        (isOk_compile_iff numbering e table).2 ⟨wellFormed, fits_zero_iff.2 fits⟩
      rw [compiled] at outcome
      refine ⟨?_, fits⟩
      intro x mem
      exact fault?_eq_none_iff.1 (List.findSome?_eq_none_iff.1 outcome x mem)
    · rintro ⟨formed, fits⟩
      exact ⟨wellFormed_of_formed formed, fits⟩
  · intro block compiled
    have emitted := assemble_emitted numbering e (assemble_of_compile (Prod.ext compiled rfl))
    have size : block.code.size = 0 + e.size := emitted.size_eq
    rw [size, Nat.zero_add]
  · intro fault failed
    rw [failed] at outcome
    rcases outcome with found | large
    · obtain ⟨front, x, back, split, here, clean⟩ := List.findSome?_eq_some_iff.1 found
      exact .inr ⟨front, x, back, split, fun y mem => fault?_eq_none_iff.1 (clean y mem), here⟩
    · exact .inl large

/-- A call whose first operand has too few operands of its own, in front of an empty list. -/
theorem compile_reports_arity :
    ((list [symbol "f", list [symbol "set", symbol "x"], list []]).compile .standard .empty).1 =
        .error (.arity .assign 1) ∧
      ∃ front x back,
        (list [symbol "f", list [symbol "set", symbol "x"], list []]).visited =
          front ++ x :: back ∧
        (∀ y ∈ front, y.Formed) ∧ x.fault? = some (.arity .assign 1) := by
  have failed : ((list [symbol "f", list [symbol "set", symbol "x"], list []]).compile .standard
      .empty).1 = .error (.arity .assign 1) := by decide +kernel
  refine ⟨failed, ?_⟩
  rcases (compile_reports .standard _ .empty).2.2.1 _ failed with ⟨n, ⟨⟩, -⟩ | first
  exact first

end Expr

end Libretto.Script
