/-
Reading is the inverse of spelling.

An expression is spelled by one token if it is an atom, and else by its items in parentheses.  Many
texts say the same number, so an expression may have several spellings.

* **`Expr.Spells`** — the tokens spell an expression;
* **`Expr.ShallowAt`** — it is an atom, or does not nest too deeply where it stands;
* **`readInside_spelled`** — spelled tokens are read as what they spell, whatever follows;
* **`Spoken`**, **`spells_of_readInside`** — what was read spells what is found;
* **`ofTokens_inverts_spelling`** — hence reading finds an expression exactly behind its spellings.

The reading goes token by token, with open lists on a stack.  One direction is an induction on the
expression, with the stack as it is when its first token is read.  The other one is an induction on
the reading, and its invariant is that the tokens read so far spell the stack.
-/
import Libretto.Proofs.Numeral.Exact
import Libretto.Script.Form

namespace Libretto.Script

namespace Expr

mutual

/-- The tokens spell an expression. -/
def Spells : Expr → List Token → Prop
  | number value, tokens =>
    ∃ text, Numeral.Single.parse? text = some value ∧ tokens = [.atom (.number text)]
  | symbol name, tokens => tokens = [.atom (.symbol name)]
  | string id, tokens => tokens = [.atom (.string id)]
  | list items, tokens => ∃ inside, SpellAll items inside ∧
      tokens = .opening :: (inside ++ [.closing])

/-- The tokens spell expressions, one behind the other. -/
def SpellAll : List Expr → List Token → Prop
  | [], tokens => tokens = []
  | item :: rest, tokens =>
    ∃ front back, item.Spells front ∧ SpellAll rest back ∧ tokens = front ++ back

end

def isAtom : Expr → Bool
  | list _ => false
  | _ => true

mutual

/-- The numbers in an expression. -/
def numbers : Expr → List Numeral.Single
  | number value => [value]
  | list items => numbersOf items
  | symbol _ | string _ => []

/-- The numbers in expressions. -/
def numbersOf : List Expr → List Numeral.Single
  | [] => []
  | item :: rest => item.numbers ++ numbersOf rest

end

/-- An expression can stand `depth` lists deep: atoms can everywhere. -/
def ShallowAt (depth : Nat) (expr : Expr) : Prop :=
  expr.isAtom ∨ depth + expr.nesting ≤ maxDepth

/-! ### Spellings -/

/-- The spelling of an atom is its token. -/
theorem spells_atom {atom : Atom} {expr : Expr} (reads : atom.expr = .ok expr) :
    expr.isAtom ∧ expr.Spells [.atom atom] := by
  cases atom with
  | symbol name =>
    obtain rfl := Except.ok.inj reads
    exact ⟨rfl, rfl⟩
  | string id =>
    obtain rfl := Except.ok.inj reads
    exact ⟨rfl, rfl⟩
  | number text =>
    rw [Atom.expr] at reads
    split at reads
    · next value parsed =>
      obtain rfl := Except.ok.inj reads
      exact ⟨rfl, text, parsed, rfl⟩
    · cases reads

theorem spellAll_append {items more : List Expr} {front back : List Token}
    (h : SpellAll items front) (h' : SpellAll more back) :
    SpellAll (items ++ more) (front ++ back) := by
  induction items generalizing front with
  | nil =>
    obtain rfl : front = [] := h
    exact h'
  | cons item rest ih =>
    obtain ⟨one, others, spelled, spelledAll, rfl⟩ := h
    exact ⟨one, others ++ back, spelled, ih spelledAll, List.append_assoc ..⟩

theorem spellAll_singleton {item : Expr} {tokens : List Token} (h : item.Spells tokens) :
    SpellAll [item] tokens :=
  ⟨tokens, [], h, rfl, (List.append_nil tokens).symm⟩

theorem nesting_of_isAtom {expr : Expr} (atomic : expr.isAtom) : expr.nesting = 0 := by
  cases expr with
  | list items => cases atomic
  | _ => rfl

theorem maxNesting_append (items more : List Expr) :
    maxNesting (items ++ more) = max (maxNesting items) (maxNesting more) := by
  induction items with
  | nil => simp [maxNesting]
  | cons item rest ih => rw [List.cons_append, maxNesting, ih, maxNesting, Nat.max_assoc]

theorem maxNesting_reverse (items : List Expr) : maxNesting items.reverse = maxNesting items := by
  induction items with
  | nil => rfl
  | cons item rest ih =>
    rw [List.reverse_cons, maxNesting_append, ih, maxNesting, maxNesting, maxNesting, Nat.max_zero,
      Nat.max_comm]

mutual

/-- An expression can be spelled if all of its numbers have a text. -/
theorem exists_spells : ∀ {expr : Expr},
    (∀ x ∈ expr.numbers, ∃ text, Numeral.Single.parse? text = some x) → ∃ front, expr.Spells front
  | number value, texts => by
    obtain ⟨text, parsed⟩ := texts value List.mem_cons_self
    exact ⟨_, text, parsed, rfl⟩
  | symbol _, _ => ⟨_, rfl⟩
  | string _, _ => ⟨_, rfl⟩
  | list items, texts => by
    obtain ⟨inside, spelled⟩ := exists_spellAll texts
    exact ⟨_, inside, spelled, rfl⟩

theorem exists_spellAll : ∀ {items : List Expr},
    (∀ x ∈ numbersOf items, ∃ text, Numeral.Single.parse? text = some x) →
      ∃ front, SpellAll items front
  | [], _ => ⟨_, rfl⟩
  | item :: rest, texts => by
    obtain ⟨front, spelled⟩ := exists_spells fun x mem => texts x (List.mem_append_left _ mem)
    obtain ⟨back, spelledAll⟩ :=
      exists_spellAll fun x mem => texts x (List.mem_append_right item.numbers mem)
    exact ⟨_, front, back, spelled, spelledAll, rfl⟩

end

/-! ### From spellings to expressions -/

variable {depth : Nat} {stack : List (List Expr)} {rest : List Token}

/-- Where an expression goes that was read: it ends the reading, or it is an item of the innermost
open list. -/
def deliver (depth : Nat) (expr : Expr) :
    List (List Expr) → List Token → Except FormError (Expr × List Token)
  | [], rest => .ok (expr, rest)
  | items :: stack, rest => readInside depth ((expr :: items) :: stack) rest

theorem readInside_opening (shallow : depth + stack.length < maxDepth) :
    readInside depth stack (.opening :: rest) = readInside depth ([] :: stack) rest := by
  rw [readInside.eq_def]
  exact if_neg (Nat.not_le.2 shallow)

theorem readInside_closing (items : List Expr) :
    readInside depth (items :: stack) (.closing :: rest) =
      deliver depth (.list items.reverse) stack rest := by
  cases stack <;> rfl

theorem readInside_atom {atom : Atom} {expr : Expr} (reads : atom.expr = .ok expr) :
    readInside depth stack (.atom atom :: rest) = deliver depth expr stack rest := by
  cases stack <;> simp only [readInside, reads, deliver]

mutual

/-- Tokens that spell an expression are read as that expression, whatever follows. -/
theorem readInside_spelled : ∀ {expr : Expr} {front : List Token} {stack : List (List Expr)}
    {rest : List Token}, expr.Spells front → expr.ShallowAt (depth + stack.length) →
      readInside depth stack (front ++ rest) = deliver depth expr stack rest
  | .list items, _, stack, rest, ⟨inside, spelledAll, rfl⟩, fits => by
    have room : depth + stack.length + (maxNesting items + 1) ≤ maxDepth :=
      fits.resolve_left Bool.false_ne_true
    have shallow : depth + stack.length < maxDepth := by omega
    have within : depth + ([] :: stack).length + maxNesting items ≤ maxDepth := by
      rw [List.length_cons]
      omega
    rw [List.cons_append, readInside_opening shallow, List.append_assoc,
      readInside_spelledAll spelledAll within, List.singleton_append, readInside_closing,
      List.append_nil, List.reverse_reverse]
  | .number value, _, _, _, ⟨text, parsed, rfl⟩, _ =>
    readInside_atom (show Atom.expr (.number text) = .ok (.number value) by rw [Atom.expr, parsed])
  | .symbol name, _, _, _, rfl, _ =>
    readInside_atom (show Atom.expr (.symbol name) = .ok (.symbol name) from rfl)
  | .string id, _, _, _, rfl, _ =>
    readInside_atom (show Atom.expr (.string id) = .ok (.string id) from rfl)

/-- Tokens that spell the items of an open list are read as these. -/
theorem readInside_spelledAll : ∀ {items : List Expr} {front : List Token} {before : List Expr}
    {stack : List (List Expr)} {rest : List Token}, SpellAll items front →
    depth + (before :: stack).length + maxNesting items ≤ maxDepth →
      readInside depth (before :: stack) (front ++ rest) =
        readInside depth ((items.reverse ++ before) :: stack) rest
  | [], _, _, _, _, rfl, _ => rfl
  | item :: items, _, before, stack, _, ⟨one, others, spelled, spelledAll, rfl⟩, within => by
    rw [maxNesting] at within
    have fits : item.ShallowAt (depth + (before :: stack).length) := .inr (by omega)
    have within : depth + ((item :: before) :: stack).length + maxNesting items ≤ maxDepth := by
      rw [List.length_cons] at within ⊢
      omega
    rw [List.append_assoc, readInside_spelled spelled fits, deliver,
      readInside_spelledAll spelledAll within, List.reverse_cons, List.append_assoc,
      List.singleton_append]

end

/-! ### From expressions to spellings -/

/-- The tokens open the lists of the stack and spell their items so far, and no list is too deep
where it stands. -/
def Spoken (depth : Nat) : List (List Expr) → List Token → Prop
  | [], tokens => tokens = []
  | items :: stack, tokens =>
    depth + (items :: stack).length + maxNesting items ≤ maxDepth ∧
      ∃ before inside, Spoken depth stack before ∧ SpellAll items.reverse inside ∧
        tokens = before ++ .opening :: inside

/-- A further item of the innermost list. -/
theorem Spoken.item {items : List Expr} {tokens front : List Token} {expr : Expr}
    (h : Spoken depth (items :: stack) tokens) (spelled : expr.Spells front)
    (fits : expr.ShallowAt (depth + (items :: stack).length)) :
    Spoken depth ((expr :: items) :: stack) (tokens ++ front) := by
  obtain ⟨within, before, inside, outer, spelledAll, rfl⟩ := h
  refine ⟨?_, before, inside ++ front, outer, ?_, ?_⟩
  · rw [maxNesting]
    rw [List.length_cons] at within fits ⊢
    rcases fits with atomic | deep
    · rw [nesting_of_isAtom atomic, Nat.zero_max]
      exact within
    · omega
  · rw [List.reverse_cons]
    exact spellAll_append spelledAll (spellAll_singleton spelled)
  · rw [List.append_assoc, List.cons_append]

/-- The innermost list is closed. -/
theorem Spoken.close {items : List Expr} {tokens : List Token}
    (h : Spoken depth (items :: stack) tokens) :
    ∃ before front, Spoken depth stack before ∧ (list items.reverse).Spells front ∧
      (list items.reverse).ShallowAt (depth + stack.length) ∧
        tokens ++ [.closing] = before ++ front := by
  obtain ⟨within, before, inside, outer, spelledAll, rfl⟩ := h
  let front := .opening :: (inside ++ [.closing])
  refine ⟨before, front, outer, ⟨inside, spelledAll, rfl⟩, .inr ?_, ?_⟩
  · rw [nesting, maxNesting_reverse]
    rw [List.length_cons] at within
    omega
  · rw [List.append_assoc, List.cons_append]

/-- What a reading finds is spelled by all that was read. -/
theorem spells_of_readInside {tokens before : List Token} {expr : Expr}
    (spoken : Spoken depth stack before)
    (found : readInside depth stack tokens = .ok (expr, rest)) :
    ∃ front, before ++ tokens = front ++ rest ∧ expr.Spells front ∧ expr.ShallowAt depth := by
  induction tokens generalizing stack before with
  | nil =>
    rw [readInside.eq_def] at found
    cases found
  | cons token tokens ih =>
    -- an expression that is complete ends the reading or is an item of a list that stays open
    have onDelivery : ∀ {one : Expr} {stack : List (List Expr)} {before front : List Token},
        deliver depth one stack tokens = .ok (expr, rest) → Spoken depth stack before →
        one.Spells front → one.ShallowAt (depth + stack.length) →
          ∃ all, before ++ (front ++ tokens) = all ++ rest ∧
            expr.Spells all ∧ expr.ShallowAt depth := by
      intro one stack before front found spoken spelled fits
      cases stack with
      | nil =>
        obtain rfl : before = [] := spoken
        obtain ⟨rfl, rfl⟩ := Prod.mk.inj (Except.ok.inj found)
        exact ⟨front, rfl, spelled, fits⟩
      | cons items stack =>
        obtain ⟨all, parts, spelled, fits⟩ := ih (spoken.item spelled fits) found
        exact ⟨all, by rw [← List.append_assoc, parts], spelled, fits⟩
    cases token with
    | opening =>
      by_cases shallow : depth + stack.length < maxDepth
      · rw [readInside_opening shallow] at found
        have opened : Spoken depth ([] :: stack) (before ++ [.opening]) :=
          ⟨by rw [List.length_cons, maxNesting]; omega, before, [], spoken, rfl, rfl⟩
        obtain ⟨all, parts, spelled, fits⟩ := ih opened found
        exact ⟨all, by rw [← parts, List.append_assoc, List.singleton_append], spelled, fits⟩
      · rw [readInside.eq_def] at found
        cases (if_pos (Nat.not_lt.1 shallow)).symm.trans found
    | closing =>
      cases stack with
      | nil => cases found
      | cons items stack =>
        rw [readInside_closing] at found
        obtain ⟨outer, front, spoken, spelled, fits, parts⟩ := spoken.close
        obtain ⟨all, parts', spelled, fits⟩ := onDelivery found spoken spelled fits
        refine ⟨all, ?_, spelled, fits⟩
        rw [← parts', ← List.append_assoc, ← parts, List.append_assoc, List.singleton_append]
    | atom atom =>
      cases reads : atom.expr with
      | error fault =>
        rw [readInside.eq_def] at found
        simp only [reads] at found
        cases found
      | ok one =>
        rw [readInside_atom reads] at found
        obtain ⟨atomic, spelled⟩ := spells_atom reads
        exact onDelivery found spoken spelled (.inl atomic)

end Expr

/-- Reading is the inverse of spelling.  Exactly the tokens that spell an expression are taken for
it, where it does not nest too deeply.  So every expression that can stand there is read back before
any other tokens, but for NaNs that no text says. -/
theorem ofTokens_inverts_spelling (depth : Nat) :
    (∀ (tokens rest : List Token) (expr : Expr),
      Expr.ofTokens depth tokens = .ok (expr, rest) ↔
        ∃ front, tokens = front ++ rest ∧ expr.Spells front ∧ expr.ShallowAt depth) ∧
    ∀ expr : Expr, expr.ShallowAt depth →
      (∀ x ∈ expr.numbers, x.isNaN → x.rank = Numeral.Single.quietNaN) →
      ∃ front, expr.Spells front ∧
        ∀ rest, Expr.ofTokens depth (front ++ rest) = .ok (expr, rest) := by
  have read : ∀ {expr : Expr} {front rest : List Token}, expr.Spells front → expr.ShallowAt depth →
      Expr.ofTokens depth (front ++ rest) = .ok (expr, rest) := by
    intro expr front rest spelled fits
    have inside : Expr.readInside depth [] (front ++ rest) = Expr.deliver depth expr [] rest :=
      Expr.readInside_spelled spelled fits
    exact inside
  constructor
  · intro tokens rest expr
    constructor
    · intro found
      have spoken : Expr.Spoken depth [] [] := rfl
      exact Expr.spells_of_readInside spoken found
    · rintro ⟨front, rfl, spelled, fits⟩
      exact read spelled fits
  · intro expr fits ordinary
    obtain ⟨front, spelled⟩ := Expr.exists_spells fun x mem =>
      Numeral.Single.exists_text_iff.2 (ordinary x mem)
    exact ⟨front, spelled, fun rest => read spelled fits⟩

end Libretto.Script
