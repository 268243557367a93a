/-
Forms do not depend on ids.

The ids of literals are handed from the lexemes of a line to its form, and nothing on the way looks
at them.  So the same lexemes make the same datum under every assignment of ids:

* **`Lexeme.datum`** — the datum of a lexeme, that of its token for every assignment of ids;
* **`readInside_token`**, **`ofTokens?_token`** — reading succeeds or fails alike under all
  assignments, and gives the expressions of one datum, whose atoms are among the lexemes;
* **`ofTokens?_insert`** — balanced tokens behind the first expression do not change the form.
-/
import Libretto.Proofs.Code.Datum
import Libretto.Script.Form

namespace Libretto.Script

/-- A lexeme is a parenthesis or an atom, whatever the ids. -/
theorem Lexeme.token_cases (lexeme : Lexeme) :
    lexeme = .opening ∨ lexeme = .closing ∨ ∀ id, ∃ atom, lexeme.token id = .atom atom := by
  cases lexeme with
  | opening => exact .inl rfl
  | closing => exact .inr (.inl rfl)
  | quoted text => exact .inr (.inr fun id => ⟨_, rfl⟩)
  | word text => exact .inr (.inr fun id => ⟨_, rfl⟩)

/-- A lexeme by itself: its datum, or the fault in it. Parentheses are no atoms; they stand for an
empty list. -/
def Lexeme.datum : Lexeme → Except FormError Datum
  | .quoted text => .ok (.string text)
  | .word text =>
    if isNumber text then
      match Numeral.Single.parse? text with
      | some value => .ok (.number value)
      | none => .error (.badNumber text)
    else .ok (.symbol text)
  | .opening | .closing => .ok (.list [])

/-- A lexeme that is an atom has the expression of its datum. -/
theorem Lexeme.expr_token {id : String → StringId} {lexeme : Lexeme} {atom : Atom}
    (h : lexeme.token id = .atom atom) : atom.expr = lexeme.datum.map (Datum.expr id) := by
  cases lexeme with
  | opening | closing => cases h
  | quoted text =>
    cases h
    rfl
  | word text =>
    obtain rfl := Token.atom.inj h
    rw [Lexeme.datum]
    split
    · rw [Atom.expr]
      cases Numeral.Single.parse? text <;> rfl
    · rfl

theorem Lexeme.mem_of_datum {lexeme a : Lexeme} {d : Datum} (h : lexeme.datum = .ok d)
    (mem : a ∈ d.lexemes) : a = lexeme := by
  cases lexeme with
  | opening | closing =>
    cases h
    cases mem
  | quoted text =>
    cases h
    exact List.mem_singleton.1 mem
  | word text =>
    rw [Lexeme.datum] at h
    split at h
    · split at h <;> cases h
      cases mem
    · cases h
      exact List.mem_singleton.1 mem

namespace Datum

theorem exprs_reverse (id : String → StringId) (items : List Datum) :
    (exprs id items).reverse = exprs id items.reverse := by
  rw [exprs_eq_map, exprs_eq_map, List.map_reverse]

end Datum

/-- What reading makes of lexemes, whatever the ids: a datum and the lexemes behind it. -/
abbrev Reading :=
  Except FormError (Datum × List Lexeme)

/-- The expression of what was read, and the tokens behind it. -/
def Reading.expr (id : String → StringId) (reading : Reading) :
    Except FormError (Expr × List Token) :=
  reading.map fun found => (found.1.expr id, found.2.map (Lexeme.token id))

open Datum in
/-- Reading on inside of open lists does not look at ids. -/
theorem readInside_token (depth : Nat) (lexemes : List Lexeme) (stack : List (List Datum)) :
    ∃ reading : Reading,
      (∀ id, Expr.readInside depth (stack.map (exprs id)) (lexemes.map (Lexeme.token id)) =
        reading.expr id) ∧
      ∀ found, reading = .ok found →
        ∀ a ∈ found.1.lexemes, a ∈ lexemesOf stack.flatten ∨ a ∈ lexemes := by
  induction lexemes generalizing stack with
  | nil =>
    refine ⟨.error (.unclosed (depth + stack.length)), ?_, fun _ h => nomatch h⟩
    intro id
    simp [Expr.readInside, Reading.expr, Except.map]
  | cons lexeme rest ih =>
    rcases lexeme.token_cases with rfl | rfl | atom
    · by_cases deep : maxDepth ≤ depth + stack.length
      · refine ⟨.error .tooDeep, ?_, fun _ h => nomatch h⟩
        intro id
        simp [Lexeme.token, Expr.readInside, deep, Reading.expr, Except.map]
      · obtain ⟨reading, run, mem⟩ := ih ([] :: stack)
        refine ⟨reading, ?_, ?_⟩
        · intro id
          rw [← run id]
          simp [Lexeme.token, Expr.readInside, deep, exprs]
        · intro found h a ha
          exact (mem found h a ha).imp id (List.mem_cons_of_mem _)
    · -- a closing parenthesis makes a list of the innermost items, which goes to the list around it
      match stack with
      | [] =>
        refine ⟨.error .unexpectedClose, ?_, fun _ h => nomatch h⟩
        intro id
        simp [Lexeme.token, Expr.readInside, Reading.expr, Except.map]
      | [items] =>
        refine ⟨.ok (.list items.reverse, rest), ?_, ?_⟩
        · intro id
          simp [Lexeme.token, Expr.readInside, Reading.expr, Except.map, exprs_reverse, Datum.expr]
        · intro found h a ha
          obtain rfl := Except.ok.inj h
          rw [Datum.lexemes, mem_lexemesOf] at ha
          simpa [mem_lexemesOf] using Or.inl ha
      | items :: outer :: stack =>
        obtain ⟨reading, run, mem⟩ := ih ((.list items.reverse :: outer) :: stack)
        refine ⟨reading, ?_, ?_⟩
        · intro id
          rw [← run id]
          simp [Lexeme.token, Expr.readInside, exprs_reverse, exprs, Datum.expr]
        · intro found h a ha
          refine (mem found h a ha).imp (fun ha => ?_) (List.mem_cons_of_mem _)
          simpa [lexemesOf_append, lexemesOf, Datum.lexemes, mem_lexemesOf, or_assoc] using ha
    · cases hdatum : lexeme.datum with
      | error e =>
        refine ⟨.error e, ?_, fun _ h => nomatch h⟩
        intro id
        obtain ⟨token, htoken⟩ := atom id
        simp [htoken, Expr.readInside, Lexeme.expr_token htoken, hdatum, Reading.expr, Except.map]
      | ok d =>
        -- an atom is the whole expression, unless a list is open
        have fresh : ∀ a ∈ d.lexemes, a ∈ lexeme :: rest := fun a ha =>
          Lexeme.mem_of_datum hdatum ha ▸ List.mem_cons_self
        cases stack with
        | nil =>
          refine ⟨.ok (d, rest), ?_, ?_⟩
          · intro id
            obtain ⟨token, htoken⟩ := atom id
            simp [htoken, Expr.readInside, Lexeme.expr_token htoken, hdatum, Reading.expr,
              Except.map]
          · intro found h a ha
            obtain rfl := Except.ok.inj h
            exact .inr (fresh a ha)
        | cons items stack =>
          obtain ⟨reading, run, mem⟩ := ih ((d :: items) :: stack)
          refine ⟨reading, ?_, ?_⟩
          · intro id
            obtain ⟨token, htoken⟩ := atom id
            rw [← run id]
            simp [htoken, Expr.readInside, Lexeme.expr_token htoken, hdatum, Except.map, exprs]
          · intro found h a ha
            rcases mem found h a ha with ha | ha
            · rw [List.flatten_cons, List.cons_append, lexemesOf, List.mem_append] at ha
              exact ha.symm.imp id (fresh a)
            · exact .inr (List.mem_cons_of_mem _ ha)

/-! ### Forms -/

theorem Form.ofTokens?_cons (token : Token) (rest : List Token) :
    Form.ofTokens? (token :: rest) = (do
      let (expr, behind) ← Expr.readInside 0 [] (token :: rest)
      checkBalance 0 behind
      return some ⟨expr, behind.length⟩) := rfl

/-- Balance does not look at ids. -/
theorem checkBalance_token (id other : String → StringId) (count : Nat) (lexemes : List Lexeme) :
    checkBalance count (lexemes.map (Lexeme.token id)) =
      checkBalance count (lexemes.map (Lexeme.token other)) := by
  induction lexemes generalizing count with
  | nil => rfl
  | cons lexeme rest ih => cases lexeme <;> simp [Lexeme.token, checkBalance, ih]

/-- The same lexemes make the same form under all ids, or fail alike. -/
theorem ofTokens?_token (lexemes : List Lexeme) :
    ∃ reading : Except FormError (Option (Datum × Nat)),
      (∀ id, Form.ofTokens? (lexemes.map (Lexeme.token id)) =
        reading.map (Option.map fun found => ⟨found.1.expr id, found.2⟩)) ∧
      ∀ found, reading = .ok (some found) → ∀ a ∈ found.1.lexemes, a ∈ lexemes := by
  cases lexemes with
  | nil => exact ⟨.ok none, fun id => rfl, fun _ h => nomatch h⟩
  | cons lexeme rest =>
    obtain ⟨reading, run, mem⟩ := readInside_token 0 (lexeme :: rest) []
    have form : ∀ id, Form.ofTokens? ((lexeme :: rest).map (Lexeme.token id)) =
        (do
          let (expr, behind) ← reading.expr id
          checkBalance 0 behind
          return some ⟨expr, behind.length⟩) := by
      intro id
      rw [← run id, List.map_cons, Form.ofTokens?_cons]
      rfl
    cases reading with
    | error e => exact ⟨.error e, form, fun _ h => nomatch h⟩
    | ok found =>
      obtain ⟨d, behind⟩ := found
      have mem : ∀ a ∈ d.lexemes, a ∈ lexeme :: rest := fun a ha =>
        (mem (d, behind) rfl a ha).resolve_left (by simp [Datum.lexemesOf])
      cases balance : checkBalance 0 (behind.map (Lexeme.token default)) with
      | error e =>
        refine ⟨.error e, ?_, fun _ h => nomatch h⟩
        intro id
        rw [checkBalance_token default id] at balance
        rw [form]
        simp [Reading.expr, Except.map, bind, Except.bind, balance]
      | ok =>
        refine ⟨.ok (some (d, behind.length)), ?_, ?_⟩
        · intro id
          rw [checkBalance_token default id] at balance
          rw [form]
          simp [Reading.expr, Except.map, bind, Except.bind, balance, pure, Except.pure]
        · intro found h
          obtain rfl := Option.some.inj (Except.ok.inj h)
          exact mem

/-- Tokens that begin with an expression do so under all ids. -/
theorem ofTokens_token {lexemes : List Lexeme} {id : String → StringId}
    (h : ∃ found, Expr.ofTokens 0 (lexemes.map (Lexeme.token id)) = .ok found)
    (other : String → StringId) :
    ∃ found, Expr.ofTokens 0 (lexemes.map (Lexeme.token other)) = .ok found := by
  obtain ⟨reading, run, -⟩ := readInside_token 0 lexemes []
  obtain ⟨found, hfound⟩ := h
  have here := (run id).symm.trans hfound
  cases reading with
  | error e => cases here
  | ok found => exact ⟨_, run other⟩

/-! ### Tokens behind a form -/

/-- Reading an expression stops at its end, whatever follows. -/
theorem readInside_append {depth : Nat} {stack : List (List Expr)} {tokens rest : List Token}
    {e : Expr} (h : Expr.readInside depth stack tokens = .ok (e, rest)) (extra : List Token) :
    Expr.readInside depth stack (tokens ++ extra) = .ok (e, rest ++ extra) := by
  fun_induction Expr.readInside depth stack tokens with
  | case1 | case2 | case4 | case7 => cases h
  | case3 stack rest deep ih => simpa [Expr.readInside, deep] using ih h
  | case5 items rest =>
    obtain ⟨rfl, rfl⟩ := Prod.mk.inj (Except.ok.inj h)
    simp [Expr.readInside]
  | case6 items outer stack rest ih => simpa [Expr.readInside] using ih h
  | case8 rest atom expr hexpr =>
    obtain ⟨rfl, rfl⟩ := Prod.mk.inj (Except.ok.inj h)
    simp [Expr.readInside, hexpr]
  | case9 rest atom expr items stack hexpr ih => simpa [Expr.readInside, hexpr] using ih h

/-- Balanced tokens change no balance. -/
theorem checkBalance_append (count : Nat) {depth : Nat} {extra : List Token}
    (balanced : checkBalance depth extra = .ok ()) (back : List Token) :
    checkBalance (count + depth) (extra ++ back) = checkBalance count back := by
  fun_induction checkBalance depth extra with
  | case1 => rfl
  | case2 | case4 => cases balanced
  | case3 depth rest ih => exact ih balanced
  | case5 depth rest positive ih =>
    rw [← ih balanced, List.cons_append, checkBalance, if_neg (by omega),
      Nat.add_sub_assoc (by omega)]
  | case6 depth token rest opening closing ih =>
    cases token with
    | opening => exact absurd rfl opening
    | closing => exact absurd rfl closing
    | atom atom => exact ih balanced

theorem checkBalance_insert (count : Nat) (front : List Token) {extra : List Token}
    (balanced : checkBalance 0 extra = .ok ()) (back : List Token) :
    checkBalance count (front ++ (extra ++ back)) = checkBalance count (front ++ back) := by
  induction front generalizing count with
  | nil => exact checkBalance_append count balanced back
  | cons token rest ih => cases token <;> simp [checkBalance, ih]

/-- Balanced tokens somewhere behind the first expression of a line do not change its form. -/
theorem ofTokens?_insert {front rest extra : List Token} {e : Expr}
    (complete : Expr.ofTokens 0 front = .ok (e, rest)) (balanced : checkBalance 0 extra = .ok ())
    (back : List Token) :
    (Form.ofTokens? (front ++ (extra ++ back))).map (Option.map Form.expr) =
      (Form.ofTokens? (front ++ back)).map (Option.map Form.expr) := by
  cases front with
  | nil => cases complete
  | cons token front =>
    -- the expression ends in front of the inserted tokens, so they can matter to balance only
    have longer := readInside_append complete (extra ++ back)
    have shorter := readInside_append complete back
    rw [List.cons_append] at longer shorter
    rw [List.cons_append, List.cons_append, Form.ofTokens?_cons, Form.ofTokens?_cons, longer,
      shorter]
    simp only [bind, Except.bind, checkBalance_insert 0 rest balanced back]
    cases checkBalance 0 (rest ++ back) <;> rfl

end Libretto.Script
