/-
Two runs of the assembler, side by side.

What the assembler does with a datum hangs neither on the words of opcodes nor on the ids of
strings: it emits as many words, adds the same names and meets the same faults.  A fault shows an
operand by its text, in which a literal appears by its id, and that is all that can differ:

* **`CompileError.Alike`** — faults that differ at most in the ids of literals;
* **`Alongside`** — steps that end alike in both runs, for any relation between the two tables that
  interning keeps;
* **`alongside_bind`** — the relation is closed under composition;
* **`alongside_assemble`** — the assembler runs alongside itself under other words and ids;
* **`compile_alongside`** — so a datum compiles in both runs or fails in both.
-/
import Libretto.Proofs.Code.Assembly
import Libretto.Proofs.Code.Datum

namespace Libretto

/-- A relation between the tables of two runs that interning a text in both keeps. -/
def InterningKeeps (R : StringTable → StringTable → Prop) : Prop :=
  ∀ ⦃table other : StringTable⦄ (text : String), R table other →
    R (table.insert text) (other.insert text)

theorem interningKeeps_eq : InterningKeeps Eq :=
  fun _ _ text same => congrArg (StringTable.insert · text) same

theorem interningKeeps_any : InterningKeeps fun _ _ => True :=
  fun _ _ _ _ => trivial

theorem InterningKeeps.insertAll {R : StringTable → StringTable → Prop} (h : InterningKeeps R)
    {table other : StringTable} (texts : List String) (tables : R table other) :
    R (table.insertAll texts) (other.insertAll texts) := by
  induction texts generalizing table other with
  | nil => exact tables
  | cons text rest ih => exact ih (h text tables)

end Libretto

namespace Libretto.Script

/-- Faults that differ at most in the ids of literals, all of which have a property. -/
inductive CompileError.Alike (P : String → Prop) (id other : String → StringId) :
    CompileError → CompileError → Prop where
  | same (e : CompileError) : Alike P id other e e
  | expectedName (keyword : Keyword) (d : Datum)
      (literals : ∀ text, .quoted text ∈ d.lexemes → P text) :
      Alike P id other (.expectedName keyword (d.expr id).text)
        (.expectedName keyword (d.expr other).text)

namespace Assembly

variable {α β : Type}

/-- Two runs that end alike. -/
inductive EndsAlike (R : StringTable → StringTable → Prop)
    (E : CompileError → CompileError → Prop) :
    EStateM.Result CompileError Assembler α → EStateM.Result CompileError Assembler α → Prop where
  | ok (result : α) {a b : Assembler} (size : a.code.size = b.code.size)
      (tables : R a.table b.table) : EndsAlike R E (.ok result a) (.ok result b)
  | error {e f : CompileError} {a b : Assembler} (faults : E e f) (tables : R a.table b.table) :
      EndsAlike R E (.error e a) (.error f b)

/-- Two steps that end alike when they begin behind codes of one size and with related tables. -/
def Alongside (R : StringTable → StringTable → Prop) (E : CompileError → CompileError → Prop)
    (x y : Assembly α) : Prop :=
  ∀ a b, a.code.size = b.code.size → R a.table b.table → EndsAlike R E (x a) (y b)

variable {R : StringTable → StringTable → Prop} {E : CompileError → CompileError → Prop}

theorem alongside_bind {x y : Assembly α} {f g : α → Assembly β} (first : Alongside R E x y)
    (next : ∀ result, Alongside R E (f result) (g result)) :
    Alongside R E (x >>= f) (y >>= g) := by
  intro a b size tables
  have ends := first a b size tables
  simp only [bind, EStateM.bind]
  generalize x a = left at ends
  generalize y b = right at ends
  cases ends with
  | ok result size tables => exact next result _ _ size tables
  | error faults tables => exact .error faults tables

theorem alongside_pure (result : α) : Alongside R E (pure result) (pure result) :=
  fun _ _ size tables => .ok result size tables

theorem alongside_throw {e f : CompileError} (faults : E e f) :
    Alongside R E (throw e : Assembly α) (throw f) :=
  fun _ _ _ tables => .error faults tables

theorem alongside_emit (word other : UInt32) : Alongside R E (emit word) (emit other) := by
  intro a b size tables
  refine .ok () ?_ tables
  simp [size]

theorem alongside_emitString (id other : StringId) :
    Alongside R E (emitString id) (emitString other) := by
  intro a b size tables
  refine .ok () ?_ tables
  simp [size]

theorem alongside_reserve : Alongside R E reserve reserve := by
  intro a b size tables
  have left : reserve a = .ok a.code.size { a with code := a.code.push 0 } := rfl
  have right : reserve b = .ok b.code.size { b with code := b.code.push 0 } := rfl
  rw [left, right, size]
  refine .ok _ ?_ tables
  simp [size]

theorem alongside_reserveMany (count : Nat) :
    Alongside R E (reserveMany count) (reserveMany count) := by
  induction count with
  | zero => exact alongside_pure []
  | succ count ih =>
    exact alongside_bind alongside_reserve fun _ => alongside_bind ih fun _ => alongside_pure _

/-- An offset that no word can hold is the same in both runs. -/
theorem alongside_fill (same : ∀ e, E e e) (gap : Nat) : Alongside R E (fill gap) (fill gap) := by
  intro a b size tables
  rw [fill_apply, fill_apply, size]
  split
  · refine .ok () ?_ tables
    simp [size]
  · exact .error (same _) tables

theorem alongside_throw_bind {e f : CompileError} {g g' : α → Assembly β} (faults : E e f) :
    Alongside R E ((throw e : Assembly α) >>= g) (throw f >>= g') :=
  fun _ _ _ tables => .error faults tables

theorem alongside_emitName (keeps : InterningKeeps R) (name : String) :
    Alongside R E (emitName name) (emitName name) := by
  intro a b size tables
  rw [emitName_apply, emitName_apply]
  refine .ok () ?_ (keeps name tables)
  simp [size]

theorem alongside_emitLeadingName (keeps : InterningKeeps R) {P : String → Prop}
    {id other : String → StringId} (keyword : Keyword) {operands : List Datum}
    (literals : ∀ text, .quoted text ∈ Datum.lexemesOf operands → P text) :
    Alongside R (CompileError.Alike P id other)
      (emitLeadingName keyword (Datum.exprs id operands))
      (emitLeadingName keyword (Datum.exprs other operands)) := by
  obtain hnames | hnames := names_eq_zero_or_one keyword
  · rw [emitLeadingName_of_names hnames, emitLeadingName_of_names hnames]
    exact alongside_pure ()
  · cases operands with
    | nil =>
      rw [Datum.exprs, Datum.exprs, emitLeadingName_nil]
      exact alongside_pure ()
    | cons operand rest =>
      rw [Datum.lexemesOf] at literals
      rw [Datum.exprs, Datum.exprs]
      cases symbol : operand.symbol? with
      | some name =>
        rw [emitLeadingName_name hnames ((Datum.symbol?_expr id operand).trans symbol),
          emitLeadingName_name hnames ((Datum.symbol?_expr other operand).trans symbol)]
        exact alongside_emitName keeps name
      | none =>
        rw [emitLeadingName_other hnames ((Datum.symbol?_expr id operand).trans symbol),
          emitLeadingName_other hnames ((Datum.symbol?_expr other operand).trans symbol)]
        refine alongside_throw (.expectedName keyword operand ?_)
        exact fun text mem => literals text (List.mem_append_left _ mem)

end Assembly

namespace Datum

open Assembly

variable {R : StringTable → StringTable → Prop} {P : String → Prop}
  (first second : Numbering) (id other : String → StringId)

mutual

/-- The assembler runs alongside itself, under other words for opcodes and other ids. -/
theorem alongside_assemble (keeps : InterningKeeps R) : ∀ {d : Datum},
    (∀ text, .quoted text ∈ d.lexemes → P text) →
    Alongside R (CompileError.Alike P id other) ((d.expr id).assembleWith first fill)
      ((d.expr other).assembleWith second fill)
  | .number _, _ => by
    rw [expr, expr, Expr.assembleWith, Expr.assembleWith]
    exact alongside_bind (alongside_emit _ _) fun _ => alongside_emit _ _
  | .string _, _ => by
    rw [expr, expr, Expr.assembleWith, Expr.assembleWith]
    exact alongside_bind (alongside_emit _ _) fun _ => alongside_emitString _ _
  | .symbol name, _ => by
    rw [expr, expr, Expr.assembleWith, Expr.assembleWith]
    exact alongside_bind (alongside_emit _ _) fun _ => alongside_emitName keeps name
  | .list [], _ => by
    rw [expr, expr, exprs, exprs, Expr.assembleWith, Expr.assembleWith]
    exact alongside_throw (.same _)
  | .list (head :: operands), literals => by
    rw [lexemes, lexemesOf] at literals
    have hoperands : ∀ text, .quoted text ∈ lexemesOf operands → P text :=
      fun text mem => literals text (List.mem_append_right _ mem)
    have inner := fun names gaps => alongside_assembleOperands keeps names gaps hoperands
    rw [expr, expr, exprs, exprs, Expr.assembleWith, Expr.assembleWith, ofHead_expr, ofHead_expr,
      length_exprs, length_exprs]
    refine alongside_bind (alongside_emit _ _) fun _ =>
      alongside_bind alongside_reserve fun past => ?_
    -- the offset past the list is too large in both runs, or in none
    have close : Alongside R (CompileError.Alike P id other)
        (do emit (first.word .leave); fill past) (do emit (second.word .leave); fill past) :=
      alongside_bind (alongside_emit _ _) fun _ => alongside_fill .same past
    -- names select the form, which neither words nor ids can change
    cases head.shape with
    | keyword keyword =>
      dsimp only
      split
      · exact alongside_throw_bind (.same _)
      · exact alongside_bind (alongside_emit _ _) fun _ =>
          alongside_bind (alongside_emitLeadingName keeps keyword hoperands) fun _ =>
            alongside_bind (alongside_reserveMany _) fun gaps =>
              alongside_bind (inner keyword.names gaps) fun _ => close
    | operator op =>
      exact alongside_bind (alongside_emit _ _) fun _ =>
        alongside_bind (alongside_emit _ _) fun _ =>
          alongside_bind (inner 0 []) fun _ => close
    | call =>
      have callee := alongside_assemble keeps (d := head)
        fun text mem => literals text (List.mem_append_left _ mem)
      exact alongside_bind (alongside_emit _ _) fun _ =>
        alongside_bind (alongside_emit _ _) fun _ =>
          alongside_bind callee fun _ => alongside_bind (inner 0 []) fun _ => close

theorem alongside_assembleOperands (keeps : InterningKeeps R) : ∀ (names : Nat) (gaps : List Nat)
    {operands : List Datum}, (∀ text, .quoted text ∈ lexemesOf operands → P text) →
    Alongside R (CompileError.Alike P id other)
      (Expr.assembleOperandsWith first fill names gaps (exprs id operands))
      (Expr.assembleOperandsWith second fill names gaps (exprs other operands))
  | _, _, [], _ => by
    simp only [exprs, Expr.assembleOperandsWith]
    exact alongside_pure ()
  | names + 1, gaps, operand :: rest, literals => by
    rw [exprs, exprs, Expr.assembleOperandsWith, Expr.assembleOperandsWith]
    exact alongside_assembleOperands keeps names gaps
      fun text mem => literals text (List.mem_append_right _ mem)
  | 0, gaps, operand :: rest, literals => by
    have here := alongside_assemble keeps fun text mem => literals text (List.mem_append_left _ mem)
    have behind := fun gaps => alongside_assembleOperands keeps 0 gaps
      fun text mem => literals text (List.mem_append_right _ mem)
    cases gaps with
    | nil =>
      rw [exprs, exprs, Expr.assembleOperandsWith, Expr.assembleOperandsWith]
      exact alongside_bind here fun _ => behind []
    | cons gap gaps =>
      rw [exprs, exprs, Expr.assembleOperandsWith, Expr.assembleOperandsWith]
      exact alongside_bind here fun _ =>
        alongside_bind (alongside_fill .same gap) fun _ => behind gaps

end

/-- Two runs make blocks of a datum, or faults that differ at most in the ids of literals. -/
theorem compile_alongside (keeps : InterningKeeps R) {d : Datum}
    (literals : ∀ text, .quoted text ∈ d.lexemes → P text)
    {table later : StringTable} (tables : R table later) :
    R ((d.expr id).compile first table).2 ((d.expr other).compile second later).2 ∧
      ((∃ block block', ((d.expr id).compile first table).1 = .ok block ∧
          ((d.expr other).compile second later).1 = .ok block') ∨
        ∃ e f, ((d.expr id).compile first table).1 = .error e ∧
          ((d.expr other).compile second later).1 = .error f ∧
          CompileError.Alike P id other e f) := by
  have ends := alongside_assemble first second id other keeps literals ⟨#[], #[], table⟩
    ⟨#[], #[], later⟩ rfl tables
  rw [Expr.compile, Expr.compile]
  generalize (d.expr id).assembleWith first fill ⟨#[], #[], table⟩ = left at ends
  generalize (d.expr other).assembleWith second fill ⟨#[], #[], later⟩ = right at ends
  cases ends with
  | ok result size tables => exact ⟨tables, .inl ⟨_, _, rfl, rfl⟩⟩
  | error faults tables => exact ⟨tables, .inr ⟨_, _, rfl, rfl, faults⟩⟩

end Datum

end Libretto.Script
