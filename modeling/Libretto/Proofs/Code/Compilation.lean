/-
When expressions compile, and what they leave behind.

* **`assemble_ok`**, **`isOk_compile_iff`** — an expression compiles if and only if it is
  well-formed and a code word can hold the offset behind it;
* **`isOk_compile_expr`** — hence whether a datum compiles depends neither on ids nor on the table;
* **`grows_assemble`**, **`compile_grows`** — successful or not, compiling only adds symbols that
  stand in the expression.
-/
import Libretto.Proofs.Code.Assembly
import Libretto.Proofs.Code.Datum

namespace Libretto.Script

namespace Assembly

variable {α β : Type} {a a' : Assembler}

theorem bind_of_ok {x : Assembly α} {y : α} (f : α → Assembly β) (h : x a = .ok y a') :
    (x >>= f) a = f y a' := by
  simp [bind, EStateM.bind, h]

theorem fill_ok (gap : Nat) (h : a.code.size < 2 ^ 32) :
    fill gap a = .ok () { a with code := a.code.setIfInBounds gap a.code.size.toUInt32 } :=
  fill_eq_ok.2 ⟨h, rfl⟩

/-- A keyword that finds its name emits it. -/
theorem emitLeadingName_ok {keyword : Keyword} {operands : List Expr}
    (arity : operands.length = keyword.arity)
    (leading : ∀ operand ∈ operands.take keyword.names, operand.symbol?.isSome) :
    ∃ a', emitLeadingName keyword operands a = .ok () a' ∧
      a'.code.size = a.code.size + keyword.names := by
  obtain hnames | hnames := names_eq_zero_or_one keyword
  · refine ⟨a, ?_, by rw [hnames]; rfl⟩
    rw [emitLeadingName_of_names hnames]
    rfl
  · cases operands with
    | nil => cases keyword <;> simp [Keyword.arity] at arity
    | cons operand rest =>
      obtain ⟨name, hname⟩ := Option.isSome_iff_exists.1 (leading operand (by simp [hnames]))
      rw [emitLeadingName_name hnames hname]
      exact ⟨_, emitName_apply, by rw [hnames, Array.size_push]⟩

end Assembly

namespace Expr

open Assembly

theorem fits_of_lt {e : Expr} {offset : Nat} (h : offset + e.size < 2 ^ 32) : e.Fits offset := by
  cases e with
  | list items => exact h
  | _ => trivial

variable (numbering : Numbering)

mutual

/-- A well-formed expression compiles, if a code word can hold the offset behind it. -/
theorem assemble_ok : ∀ {e : Expr} {a : Assembler}, e.WellFormed → e.Fits a.code.size →
    ∃ a', e.assembleWith numbering fill a = .ok () a'
  | number _, _, _, _ | string _, _, _, _ | symbol _, _, _, _ => ⟨_, rfl⟩
  | list [], _, wellFormed, _ => nomatch wellFormed
  | list (head :: operands), a, wellFormed, fits => by
    -- the list itself is the largest thing that has to fit, so nothing inside it can fail
    have close : ∀ {b : Assembler} {gap : Nat},
        b.code.size + 1 = a.code.size + (list (head :: operands)).size →
        ∃ a', (do emit (numbering.word .leave); fill gap) b = .ok () a' := by
      intro b gap hb
      refine ⟨_, fill_ok gap ?_⟩
      rw [Array.size_push, hb]
      exact fits
    rw [assembleWith, emit_bind, reserve_bind]
    cases wellFormed with
    | @keyword keyword _ _ shape arity leading inner =>
      simp only [Fits, size, shape] at fits close ⊢
      obtain ⟨b, hleading, bsize⟩ := emitLeadingName_ok (a := ⟨((a.code.push _).push 0).push _,
        a.slots, a.table⟩) arity leading
      obtain ⟨c, hoperands, csize⟩ := assembleOperands_ok keyword.names
        (List.range' b.code.size keyword.gaps)
        (a := { b with code := (b.code.toList ++ List.replicate keyword.gaps 0).toArray }) inner
        (by simp [bsize]; omega)
      simp only [arity, ne_eq, not_true_eq_false, if_false]
      rw [emit_bind, bind_of_ok _ hleading, bind_of_ok _ (reserveMany_apply _),
        bind_of_ok _ hoperands]
      exact close (by simp [csize, bsize]; omega)
    | @operator op _ _ shape inner =>
      simp only [Fits, size, shape] at fits close ⊢
      obtain ⟨c, hoperands, csize⟩ := assembleOperands_ok 0 []
        (a := ⟨(((a.code.push _).push 0).push (numbering.word op)).push operands.length.toUInt32,
          a.slots, a.table⟩) inner (by simp; omega)
      rw [emit_bind, emit_bind, bind_of_ok _ hoperands]
      exact close (by simp [csize]; omega)
    | call shape callee inner =>
      simp only [Fits, size, shape] at fits close ⊢
      obtain ⟨b, hhead⟩ := assemble_ok (a := ⟨(((a.code.push _).push 0).push
        (numbering.word .call)).push operands.length.toUInt32, a.slots, a.table⟩) callee
        (fits_of_lt (by simp; omega))
      have bsize := (assemble_emitted numbering head hhead).size_eq
      obtain ⟨c, hoperands, csize⟩ := assembleOperands_ok 0 [] (a := b) inner
        (by simp [bsize]; omega)
      rw [emit_bind, emit_bind, bind_of_ok _ hhead, bind_of_ok _ hoperands]
      exact close (by simp [csize, bsize]; omega)

theorem assembleOperands_ok : ∀ (names : Nat) (gaps : List Nat) {operands : List Expr}
    {a : Assembler}, (∀ operand ∈ operands.drop names, operand.WellFormed) →
    a.code.size + operandSizes names operands < 2 ^ 32 →
    ∃ a', assembleOperandsWith numbering fill names gaps operands a = .ok () a' ∧
      a'.code.size = a.code.size + operandSizes names operands
  | _, _, [], a, _, _ =>
    ⟨a, by simp only [assembleOperandsWith]; rfl, by simp only [operandSizes]; rfl⟩
  | names + 1, gaps, _ :: rest, a, wellFormed, fits =>
    assembleOperands_ok names gaps (List.drop_succ_cons ▸ wellFormed) fits
  | 0, gaps, first :: rest, a, wellFormed, fits => by
    rw [List.drop_zero, List.forall_mem_cons] at wellFormed
    rw [operandSizes] at fits
    obtain ⟨b, hfirst⟩ := assemble_ok (a := a) wellFormed.1 (fits_of_lt (by omega))
    have bsize := (assemble_emitted numbering first hfirst).size_eq
    cases gaps with
    | nil =>
      obtain ⟨c, hrest, csize⟩ := assembleOperands_ok 0 [] (a := b) wellFormed.2 (by omega)
      refine ⟨c, ?_, by rw [csize, operandSizes]; omega⟩
      rw [assembleOperandsWith, bind_of_ok _ hfirst, hrest]
    | cons gap gaps =>
      have hfill := fill_ok gap (show b.code.size < 2 ^ 32 by omega)
      obtain ⟨c, hrest, csize⟩ := assembleOperands_ok 0 gaps
        (a := { b with code := b.code.setIfInBounds gap b.code.size.toUInt32 }) wellFormed.2
        (by simp; omega)
      refine ⟨c, ?_, by rw [csize, operandSizes]; simp; omega⟩
      rw [assembleOperandsWith, bind_of_ok _ hfirst, bind_of_ok _ hfill, hrest]

end

/-- An expression compiles if and only if it is well-formed and not too large. -/
theorem isOk_compile_iff (e : Expr) (table : StringTable) :
    (∃ block, (e.compile numbering table).1 = .ok block) ↔ e.WellFormed ∧ e.Fits 0 := by
  constructor
  · rintro ⟨block, h⟩
    have emitted := assemble_emitted numbering e (assemble_of_compile (Prod.ext h rfl))
    exact ⟨emitted.wellFormed, emitted.fits⟩
  · rintro ⟨wellFormed, fits⟩
    obtain ⟨a, run⟩ := assemble_ok numbering (a := ⟨#[], #[], table⟩) wellFormed fits
    exact ⟨_, by rw [compile, run]⟩

end Expr

namespace Datum

/-- Whether a datum compiles depends neither on ids nor on the table. -/
theorem isOk_compile_expr (numbering : Numbering) {d : Datum} {id : String → StringId}
    {table : StringTable} (h : ∃ block, ((d.expr id).compile numbering table).1 = .ok block)
    (other : String → StringId) (later : StringTable) :
    ∃ block, ((d.expr other).compile numbering later).1 = .ok block := by
  rw [Expr.isOk_compile_iff] at h ⊢
  refine ⟨wellFormed_expr other h.1, ?_⟩
  have size := size_expr id other d
  cases d with
  | list items =>
    have fits : 0 + ((list items).expr id).size < 2 ^ 32 := h.2
    rw [size] at fits
    exact fits
  | _ => trivial

end Datum

/-! ### What compiling adds to the table -/

namespace Assembly

variable {α β : Type} {P : String → Prop}

/-- Where a step leaves the assembler, whether it succeeds or fails. -/
def after (x : Assembly α) (a : Assembler) : Assembler :=
  match x a with
  | .ok _ a' | .error _ a' => a'

/-- A step that keeps the strings of the table, and only adds names with a property. -/
def Grows (P : String → Prop) (x : Assembly α) : Prop :=
  ∀ a, a.table ≤ (after x a).table ∧
    ∀ text ∈ (after x a).table.texts, text ∈ a.table.texts ∨ P text

/-- A step that leaves the table alone. -/
theorem Grows.of_table_eq {x : Assembly α} (h : ∀ a, (after x a).table = a.table) :
    Grows P x := by
  intro a
  rw [h a]
  exact ⟨StringTable.le_refl _, fun _ mem => .inl mem⟩

theorem Grows.bind {x : Assembly α} {f : α → Assembly β} (hx : Grows P x)
    (hf : ∀ y, Grows P (f y)) : Grows P (x >>= f) := by
  intro a
  have first := hx a
  cases run : x a with
  | error e b =>
    -- what a failed step has interned stays interned
    have stop : after (x >>= f) a = after x a := by
      simp [after, Bind.bind, EStateM.bind, run]
    rw [stop]
    exact first
  | ok y b =>
    have next : after (x >>= f) a = after (f y) b := by
      simp [after, Bind.bind, EStateM.bind, run]
    have here : after x a = b := by simp [after, run]
    rw [here] at first
    obtain ⟨le, mem⟩ := hf y b
    rw [next]
    refine ⟨StringTable.le_trans first.1 le, ?_⟩
    intro text h
    rcases mem text h with h | h
    · exact first.2 text h
    · exact .inr h

theorem grows_pure (y : α) : Grows P (pure y : Assembly α) := .of_table_eq fun _ => rfl

theorem grows_throw (e : CompileError) : Grows P (throw e : Assembly α) :=
  .of_table_eq fun _ => rfl

theorem grows_throw_bind {e : CompileError} {f : α → Assembly β} :
    Grows P ((throw e : Assembly α) >>= f) := .of_table_eq fun _ => rfl

theorem grows_emit (word : UInt32) : Grows P (emit word) := .of_table_eq fun _ => rfl

theorem grows_emitString (id : StringId) : Grows P (emitString id) := .of_table_eq fun _ => rfl

theorem grows_reserve : Grows P reserve := .of_table_eq fun _ => rfl

theorem grows_fill (gap : Nat) : Grows P (fill gap) := by
  refine .of_table_eq ?_
  intro a
  rw [after, fill_apply]
  by_cases h : a.code.size < 2 ^ 32
  · rw [if_pos h]
  · rw [if_neg h]

theorem grows_reserveMany (count : Nat) : Grows P (reserveMany count) := by
  refine .of_table_eq ?_
  intro a
  rw [after, reserveMany_apply]

theorem grows_emitName {name : String} (h : P name) : Grows P (emitName name) := by
  intro a
  have table : (after (emitName name) a).table = a.table.insert name := rfl
  rw [table]
  refine ⟨StringTable.le_insert _ _, ?_⟩
  intro text mem
  have mem : text ∈ a.table.texts ∨ text ∈ [name] := StringTable.mem_texts_insertAll mem
  refine mem.imp id ?_
  intro same
  rw [List.mem_singleton.1 same]
  exact h

theorem grows_emitLeadingName (keyword : Keyword) {operands : List Expr}
    (h : ∀ operand ∈ operands, ∀ name, operand.symbol? = some name → P name) :
    Grows P (emitLeadingName keyword operands) := by
  obtain none | one := names_eq_zero_or_one keyword
  · rw [emitLeadingName_of_names none]
    exact grows_pure ()
  · cases operands with
    | nil =>
      rw [emitLeadingName_nil]
      exact grows_pure ()
    | cons operand rest =>
      cases symbol : operand.symbol? with
      | some name =>
        rw [emitLeadingName_name one symbol]
        exact grows_emitName (h operand List.mem_cons_self name symbol)
      | none =>
        rw [emitLeadingName_other one symbol]
        exact grows_throw _

end Assembly

namespace Expr

open Assembly

mutual

/-- The symbols in an expression, wherever they stand. -/
def symbols : Expr → List String
  | symbol name => [name]
  | list items => symbolsOf items
  | _ => []

/-- The symbols in expressions. -/
def symbolsOf : List Expr → List String
  | [] => []
  | item :: rest => item.symbols ++ symbolsOf rest

end

theorem mem_symbolsOf {items : List Expr} {name : String} :
    name ∈ symbolsOf items ↔ ∃ item ∈ items, name ∈ item.symbols := by
  induction items with
  | nil => simp [symbolsOf]
  | cons item rest ih => simp [symbolsOf, ih]

theorem mem_symbols_of_symbol? {e : Expr} {name : String} (h : e.symbol? = some name) :
    name ∈ e.symbols := by
  cases e with
  | symbol text =>
    obtain rfl := Option.some.inj h
    rw [symbols]
    exact List.mem_singleton.2 rfl
  | _ => cases h

variable {P : String → Prop} (numbering : Numbering)

mutual

/-- Successful or not, compiling only adds symbols that stand in the expression. -/
theorem grows_assemble : ∀ {e : Expr}, (∀ name ∈ e.symbols, P name) →
    Grows P (e.assembleWith numbering fill)
  | number _, _ => by
    rw [assembleWith]
    exact (grows_emit _).bind fun _ => grows_emit _
  | string _, _ => by
    rw [assembleWith]
    exact (grows_emit _).bind fun _ => grows_emitString _
  | symbol name, h => by
    rw [assembleWith]
    exact (grows_emit _).bind fun _ => grows_emitName (h name (by simp [symbols]))
  | list [], _ => by
    rw [assembleWith]
    exact grows_throw _
  | list (head :: operands), h => by
    rw [symbols, symbolsOf] at h
    have hoperands : ∀ name ∈ symbolsOf operands, P name :=
      fun name mem => h name (List.mem_append_right _ mem)
    rw [assembleWith]
    refine (grows_emit _).bind fun _ => grows_reserve.bind fun past => ?_
    have close : Grows P (do emit (numbering.word .leave); fill past) :=
      (grows_emit _).bind fun _ => grows_fill past
    cases Shape.ofHead head with
    | keyword keyword =>
      dsimp only
      split
      · exact grows_throw_bind
      · refine (grows_emit _).bind fun _ => ?_
        refine (grows_emitLeadingName keyword ?_).bind fun _ => ?_
        · intro operand mem name symbol
          exact hoperands name (mem_symbolsOf.2 ⟨operand, mem, mem_symbols_of_symbol? symbol⟩)
        · exact (grows_reserveMany _).bind fun _ =>
            (grows_assembleOperands _ _ hoperands).bind fun _ => close
    | operator op =>
      exact (grows_emit _).bind fun _ => (grows_emit _).bind fun _ =>
        (grows_assembleOperands _ _ hoperands).bind fun _ => close
    | call =>
      exact (grows_emit _).bind fun _ => (grows_emit _).bind fun _ =>
        (grows_assemble fun name mem => h name (List.mem_append_left _ mem)).bind fun _ =>
          (grows_assembleOperands _ _ hoperands).bind fun _ => close

theorem grows_assembleOperands : ∀ (names : Nat) (gaps : List Nat) {operands : List Expr},
    (∀ name ∈ symbolsOf operands, P name) →
    Grows P (assembleOperandsWith numbering fill names gaps operands)
  | _, _, [], _ => by
    simp only [assembleOperandsWith]
    exact grows_pure ()
  | names + 1, gaps, first :: rest, h => by
    rw [assembleOperandsWith]
    exact grows_assembleOperands names gaps fun name mem => h name (List.mem_append_right _ mem)
  | 0, gaps, first :: rest, h => by
    have hfirst := grows_assemble fun name mem => h name (List.mem_append_left _ mem)
    have hrest := fun gaps => grows_assembleOperands 0 gaps
      fun name mem => h name (List.mem_append_right _ mem)
    cases gaps with
    | nil =>
      rw [assembleOperandsWith]
      exact hfirst.bind fun _ => hrest []
    | cons gap gaps =>
      rw [assembleOperandsWith]
      exact hfirst.bind fun _ => (grows_fill gap).bind fun _ => hrest gaps

end

/-- The table after compiling an expression, successfully or not. -/
theorem compile_grows (e : Expr) (table : StringTable) :
    table ≤ (e.compile numbering table).2 ∧
      ∀ text ∈ (e.compile numbering table).2.texts, text ∈ table.texts ∨ text ∈ e.symbols := by
  have grows := grows_assemble numbering (P := (· ∈ e.symbols)) (e := e) (fun _ mem => mem)
    ⟨#[], #[], table⟩
  rw [after] at grows
  rw [compile]
  cases run : e.assembleWith numbering fill ⟨#[], #[], table⟩ with
  | ok _ a => simpa only [run] using grows
  | error fault a => simpa only [run] using grows

end Expr

namespace Datum

variable (numbering : Numbering) (id : String → StringId)

mutual

/-- The symbols in a datum are names of its text. -/
theorem mem_lexemes_of_mem_symbols : ∀ {d : Datum} {name : String},
    name ∈ (d.expr id).symbols → .word name ∈ d.lexemes
  | .number _, _, mem | .string _, _, mem => by
    simp [expr, Expr.symbols] at mem
  | .symbol text, name, mem => by
    rw [expr, Expr.symbols] at mem
    rw [lexemes, List.mem_singleton.1 mem]
    exact List.mem_singleton.2 rfl
  | .list items, name, mem => by
    rw [expr, Expr.symbols] at mem
    rw [lexemes]
    exact mem_lexemesOf_of_mem_symbolsOf mem

theorem mem_lexemesOf_of_mem_symbolsOf : ∀ {items : List Datum} {name : String},
    name ∈ Expr.symbolsOf (exprs id items) → .word name ∈ lexemesOf items
  | [], name, mem => by
    rw [exprs, Expr.symbolsOf] at mem
    cases mem
  | item :: rest, name, mem => by
    rw [exprs, Expr.symbolsOf] at mem
    rw [lexemesOf]
    rcases List.mem_append.1 mem with mem | mem
    · exact List.mem_append_left _ (mem_lexemes_of_mem_symbols mem)
    · exact List.mem_append_right _ (mem_lexemesOf_of_mem_symbolsOf mem)

end

/-- The table after compiling a datum, successfully or not. -/
theorem compile_grows (d : Datum) (table : StringTable) :
    table ≤ ((d.expr id).compile numbering table).2 ∧
      ∀ text ∈ ((d.expr id).compile numbering table).2.texts,
        text ∈ table.texts ∨ .word text ∈ d.lexemes := by
  obtain ⟨le, mem⟩ := (d.expr id).compile_grows numbering table
  refine ⟨le, ?_⟩
  intro text h
  exact (mem text h).imp_right (mem_lexemes_of_mem_symbols id)

end Datum

end Libretto.Script
