/-
What a line comes to is decided by counting its parentheses.

Reading goes down into the first expression of a line and then looks through the tokens behind it.
Both come to one verdict, which can be had without reading:

* **`balance`** — opening less closing parentheses;
* **`firstForm`** — the tokens up to the first point at which the parentheses balance;
* **`unmatched`** — the number of openings that have no closing of their own;
* **`verdict`** — what a line comes to, in these words;
* **`readInside_form`**, **`checkBalance_eq`** — what the two passes find, by the counts;
* **`ofTokens?_eq_verdict`** — hence the verdict is what reading finds.

The proofs go by two numbers, the least and the greatest balance on the way.  Both passes keep count
of the open lists, and a pass fails as soon as one of these numbers leaves its range.
-/
import Libretto.Proofs.Script.Form
import Libretto.Proofs.Script.Spelling
import Mathlib.Data.List.Infix

namespace Libretto.Script

/-! ### Counts -/

/-- Opening less closing parentheses. -/
def balance (tokens : List Token) : Int :=
  tokens.count .opening - tokens.count .closing

/-- Some tokens at the front close more lists than they open. -/
def Dips (tokens : List Token) : Prop :=
  ∃ front ∈ tokens.inits, balance front < 0

/-- Every closing parenthesis has an opening one, and conversely. -/
def Balanced (tokens : List Token) : Prop :=
  ¬ Dips tokens ∧ balance tokens = 0

/-- At no point more lists are open than may nest. -/
def Shallow (tokens : List Token) : Prop :=
  ∀ front ∈ tokens.inits, balance front ≤ maxDepth

/-- A list is opened where as many lists are open as may nest. -/
def OpensTooDeep (tokens : List Token) : Prop :=
  ∃ front ∈ tokens.inits, front ++ [.opening] <+: tokens ∧ balance front = maxDepth

/-- The list that was opened in front of the tokens is closed by them. -/
def Closes (tokens : List Token) : Prop :=
  ∃ inside ∈ tokens.inits, inside ++ [.closing] <+: tokens ∧ Balanced inside

instance (tokens : List Token) : Decidable (Dips tokens) := List.decidableBEx ..
instance (tokens : List Token) : Decidable (Balanced tokens) := instDecidableAnd
instance (tokens : List Token) : Decidable (Shallow tokens) := List.decidableBAll ..
instance (tokens : List Token) : Decidable (OpensTooDeep tokens) := List.decidableBEx ..
instance (tokens : List Token) : Decidable (Closes tokens) := List.decidableBEx ..

/-- The number of opening parentheses without a closing one of their own. -/
def unmatched : List Token → Nat
  | [] => 0
  | .opening :: rest => unmatched rest + if Closes rest then 0 else 1
  | _ :: rest => unmatched rest

/-- The tokens up to the first point at which no list is open, when `depth` ones are open in front
of them; all of them, if there is no such point. -/
def formInside (depth : Int) (tokens : List Token) : List Token :=
  (tokens.inits.tail.find? fun front => depth + balance front = 0).getD tokens

/-- The tokens up to the first point at which the parentheses balance. -/
def firstForm (tokens : List Token) : List Token :=
  formInside 0 tokens

/-- What a line comes to: the number of tokens behind its form, or the fault in it. -/
def verdict (tokens : List Token) : Except FormError (Option Nat) :=
  let form := firstForm tokens
  let trailing := tokens.drop form.length
  if tokens = [] then .ok none
  else if Balanced tokens ∧ Shallow form then .ok (some trailing.length)
  else if tokens.head? = some .closing then .error .unexpectedClose
  else if OpensTooDeep form then .error .tooDeep
  else if Dips trailing then .error .unexpectedClose
  else .error (.unclosed (unmatched tokens))

/-! ### Extremes of the balance -/

/-- What a token adds to the balance. -/
def Token.weight : Token → Int
  | opening => 1
  | closing => -1
  | atom _ => 0

/-- The least balance of tokens at the front. -/
def lowest : List Token → Int
  | [] => 0
  | token :: rest => min 0 (token.weight + lowest rest)

/-- The greatest balance of tokens at the front. -/
def highest : List Token → Int
  | [] => 0
  | token :: rest => max 0 (token.weight + highest rest)

theorem balance_nil : balance [] = 0 := rfl

theorem balance_cons (token : Token) (rest : List Token) :
    balance (token :: rest) = token.weight + balance rest := by
  cases token with
  | opening => simp only [balance, Token.weight, List.count_cons]; simp; omega
  | closing => simp only [balance, Token.weight, List.count_cons]; simp; omega
  | atom atom => simp only [balance, Token.weight, List.count_cons]; simp

theorem balance_append (front back : List Token) :
    balance (front ++ back) = balance front + balance back := by
  rw [balance, balance, balance, List.count_append, List.count_append]
  omega

theorem lowest_le_zero (tokens : List Token) : lowest tokens ≤ 0 := by
  cases tokens with
  | nil => exact Int.le_refl 0
  | cons token rest => exact Int.min_le_left _ _

theorem zero_le_highest (tokens : List Token) : 0 ≤ highest tokens := by
  cases tokens with
  | nil => exact Int.le_refl 0
  | cons token rest => exact Int.le_max_left _ _

theorem lowest_append (front back : List Token) :
    lowest (front ++ back) = min (lowest front) (balance front + lowest back) := by
  induction front with
  | nil =>
    have := lowest_le_zero back
    rw [List.nil_append, lowest, balance_nil]
    omega
  | cons token rest ih =>
    rw [List.cons_append, lowest, ih, lowest, balance_cons]
    omega

/-- The least balance is reached, and nothing is below it. -/
theorem lowest_lt_iff {bound : Int} (tokens : List Token) :
    lowest tokens < bound ↔ ∃ front ∈ tokens.inits, balance front < bound := by
  induction tokens generalizing bound with
  | nil => simp [lowest, balance_nil]
  | cons token rest ih =>
    rw [List.inits_cons, List.exists_mem_cons_iff, balance_nil, lowest]
    have behind : (∃ front ∈ rest.inits.map fun front => token :: front, balance front < bound) ↔
        lowest rest < bound - token.weight := by
      rw [ih]
      simp only [List.mem_map, exists_exists_and_eq_and, balance_cons]
      constructor <;> rintro ⟨front, mem, below⟩ <;> exact ⟨front, mem, by omega⟩
    rw [behind]
    omega

theorem lt_highest_iff {bound : Int} (tokens : List Token) :
    bound < highest tokens ↔ ∃ front ∈ tokens.inits, bound < balance front := by
  induction tokens generalizing bound with
  | nil => simp [highest, balance_nil]
  | cons token rest ih =>
    rw [List.inits_cons, List.exists_mem_cons_iff, balance_nil, highest]
    have behind : (∃ front ∈ rest.inits.map fun front => token :: front, bound < balance front) ↔
        bound - token.weight < highest rest := by
      rw [ih]
      simp only [List.mem_map, exists_exists_and_eq_and, balance_cons]
      constructor <;> rintro ⟨front, mem, above⟩ <;> exact ⟨front, mem, by omega⟩
    rw [behind]
    omega

theorem dips_iff (tokens : List Token) : Dips tokens ↔ lowest tokens < 0 :=
  (lowest_lt_iff tokens).symm

theorem shallow_iff (tokens : List Token) : Shallow tokens ↔ highest tokens ≤ maxDepth := by
  rw [← Int.not_lt, lt_highest_iff]
  constructor
  · rintro shallow ⟨front, mem, deep⟩
    exact Int.not_lt.2 (shallow front mem) deep
  · intro bounded front mem
    exact Int.not_lt.1 fun deep => bounded ⟨front, mem, deep⟩

/-- Something on the way begins with an opening parenthesis, at a given balance. -/
theorem exists_cons_prefix_iff {token token' : Token} {rest : List Token}
    {P : List Token → Prop} :
    (∃ front, front ++ [token'] <+: token :: rest ∧ P front) ↔
      token = token' ∧ P [] ∨ ∃ front, front ++ [token'] <+: rest ∧ P (token :: front) := by
  constructor
  · rintro ⟨front, inside, holds⟩
    cases front with
    | nil => exact .inl ⟨(List.cons_prefix_cons.1 inside).1.symm, holds⟩
    | cons first front =>
      obtain ⟨rfl, behind⟩ := List.cons_prefix_cons.1 inside
      exact .inr ⟨front, behind, holds⟩
  · rintro (⟨rfl, holds⟩ | ⟨front, inside, holds⟩)
    · exact ⟨[], List.cons_prefix_cons.2 ⟨rfl, List.nil_prefix⟩, holds⟩
    · exact ⟨token :: front, List.cons_prefix_cons.2 ⟨rfl, inside⟩, holds⟩

/-- A balance rises one by one, so it exceeds a bound only by an opening at the bound. -/
theorem exceeds_iff {depth bound : Int} (within : depth ≤ bound) (tokens : List Token) :
    (∃ front, front ++ [.opening] <+: tokens ∧ depth + balance front = bound) ↔
      bound < depth + highest tokens := by
  induction tokens generalizing depth with
  | nil => simp [highest, within]
  | cons token rest ih =>
    rw [exists_cons_prefix_iff, balance_nil, highest]
    simp only [balance_cons, ← Int.add_assoc]
    have upward := zero_le_highest rest
    cases token with
    | opening =>
      by_cases full : depth = bound
      · have here : depth + 0 = bound := by omega
        simp only [here, Token.weight, true_and, true_or, true_iff]
        omega
      · rw [ih (show depth + Token.weight .opening ≤ bound by simp only [Token.weight]; omega)]
        simp only [Token.weight, true_and]
        omega
    | closing =>
      rw [ih (show depth + Token.weight .closing ≤ bound by simp only [Token.weight]; omega)]
      simp only [Token.weight, reduceCtorEq, false_and, false_or]
      omega
    | atom atom =>
      rw [ih (show depth + Token.weight (.atom atom) ≤ bound by simp only [Token.weight]; omega)]
      simp only [Token.weight, reduceCtorEq, false_and, false_or]
      omega

/-- A balance falls one by one, so the first closing below a level that is not open stands behind
tokens that come back to it. -/
theorem falls_iff {depth : Int} (positive : 0 ≤ depth) (tokens : List Token) :
    (∃ inside, inside ++ [.closing] <+: tokens ∧
      0 ≤ depth + lowest inside ∧ depth + balance inside = 0) ↔ depth + lowest tokens < 0 := by
  induction tokens generalizing depth with
  | nil => simp [lowest, positive]
  | cons token rest ih =>
    rw [exists_cons_prefix_iff, balance_nil, lowest, lowest]
    -- in front of the first token the balance is the given one, so the least one is at most that
    have behind : (∃ inside, inside ++ [.closing] <+: rest ∧
        0 ≤ depth + lowest (token :: inside) ∧ depth + balance (token :: inside) = 0) ↔
          ∃ inside, inside ++ [.closing] <+: rest ∧
            0 ≤ depth + token.weight + lowest inside ∧
              depth + token.weight + balance inside = 0 := by
      refine exists_congr fun inside => and_congr_right fun _ => ?_
      rw [lowest, balance_cons]
      omega
    rw [behind]
    cases token with
    | opening =>
      rw [ih (show 0 ≤ depth + Token.weight .opening by simp only [Token.weight]; omega)]
      simp only [Token.weight, reduceCtorEq, false_and, false_or]
      omega
    | closing =>
      by_cases level : depth = 0
      · simp only [level, true_and]
        have downward := lowest_le_zero rest
        simp only [Token.weight]
        omega
      · rw [ih (show 0 ≤ depth + Token.weight .closing by simp only [Token.weight]; omega)]
        simp only [Token.weight]
        omega
    | atom atom =>
      rw [ih (show 0 ≤ depth + Token.weight (.atom atom) by simp only [Token.weight]; omega)]
      simp only [Token.weight, reduceCtorEq, false_and, false_or]
      omega

/-- A list is closed if and only if more is closed behind its opening than opened. -/
theorem closes_iff (tokens : List Token) : Closes tokens ↔ lowest tokens < 0 := by
  have falls := falls_iff (Int.le_refl 0) tokens
  simp only [Int.zero_add] at falls
  rw [← falls]
  constructor
  · rintro ⟨inside, -, front, level, settled⟩
    rw [dips_iff, Int.not_lt] at level
    exact ⟨inside, front, level, settled⟩
  · rintro ⟨inside, front, level, settled⟩
    refine ⟨inside, ?_, front, ?_, settled⟩
    · rw [List.mem_inits]
      exact (List.prefix_append inside [.closing]).trans front
    · rwa [dips_iff, Int.not_lt]

theorem opensTooDeep_iff (tokens : List Token) :
    OpensTooDeep tokens ↔ maxDepth < highest tokens := by
  have exceeds := exceeds_iff (Int.natCast_nonneg maxDepth) tokens
  simp only [Int.zero_add] at exceeds
  rw [← exceeds]
  constructor
  · rintro ⟨front, -, inside, full⟩
    exact ⟨front, inside, full⟩
  · rintro ⟨front, inside, full⟩
    refine ⟨front, ?_, inside, full⟩
    rw [List.mem_inits]
    exact (List.prefix_append front [.opening]).trans inside

/-- What is not closed is what the balance rises by from its lowest point. -/
theorem unmatched_eq (tokens : List Token) :
    (unmatched tokens : Int) = balance tokens - lowest tokens := by
  induction tokens with
  | nil => rfl
  | cons token rest ih =>
    rw [balance_cons, lowest]
    have downward := lowest_le_zero rest
    cases token with
    | opening =>
      simp only [unmatched, closes_iff, Token.weight]
      split <;> omega
    | closing =>
      simp only [unmatched, Token.weight]
      omega
    | atom atom =>
      simp only [unmatched, Token.weight]
      omega

/-! ### The first form -/

theorem formInside_nil (depth : Int) : formInside depth [] = [] := rfl

theorem formInside_cons (depth : Int) (token : Token) (rest : List Token) :
    formInside depth (token :: rest) =
      if depth + token.weight = 0 then [token]
      else token :: formInside (depth + token.weight) rest := by
  obtain ⟨more, prefixes⟩ : ∃ more, rest.inits = [] :: more := by
    cases rest with
    | nil => exact ⟨[], rfl⟩
    | cons token rest => exact ⟨_, List.inits_cons token rest⟩
  rw [formInside, formInside, List.inits_cons, prefixes]
  simp only [List.map_cons, List.tail_cons, List.find?_cons, List.find?_map, Function.comp_def,
    balance_cons, balance_nil, Int.add_zero, ← Int.add_assoc]
  by_cases settled : depth + token.weight = 0
  · simp [settled]
  · simp only [settled, decide_false, if_false]
    cases more.find? fun front => decide (depth + token.weight + balance front = 0) <;> rfl

theorem formInside_append_drop (depth : Int) (tokens : List Token) :
    formInside depth tokens ++ tokens.drop (formInside depth tokens).length = tokens := by
  induction tokens generalizing depth with
  | nil => rfl
  | cons token rest ih =>
    rw [formInside_cons]
    split
    · rfl
    · exact congrArg (token :: ·) (ih _)

/-- No list is open behind the first form, or it is all there is. -/
theorem formInside_ends (depth : Int) (tokens : List Token) :
    depth + balance (formInside depth tokens) = 0 ∨ formInside depth tokens = tokens := by
  induction tokens generalizing depth with
  | nil => exact .inr rfl
  | cons token rest ih =>
    rw [formInside_cons]
    by_cases settled : depth + token.weight = 0
    · rw [if_pos settled, balance_cons, balance_nil, Int.add_zero]
      exact .inl settled
    · rw [if_neg settled, balance_cons, ← Int.add_assoc]
      exact (ih _).imp id (congrArg (token :: ·))

/-- Inside of a list the first form closes nothing but that list, at its end. -/
theorem lowest_formInside {depth : Int} (inside : 0 < depth) (tokens : List Token) :
    0 ≤ depth + lowest (formInside depth tokens) := by
  induction tokens generalizing depth with
  | nil =>
    rw [formInside_nil, lowest]
    omega
  | cons token rest ih =>
    rw [formInside_cons]
    by_cases settled : depth + token.weight = 0
    · rw [if_pos settled, lowest, lowest]
      omega
    · have deeper : 0 < depth + token.weight := by
        cases token <;> simp only [Token.weight] at settled ⊢ <;> omega
      have level := ih deeper
      rw [if_neg settled, lowest]
      omega

/-! ### The two passes -/

/-- Every number among the tokens is one. -/
def Numeric (tokens : List Token) : Prop :=
  ∀ text, .atom (.number text) ∈ tokens → isNumber text = true

theorem Numeric.behind {token : Token} {rest : List Token} (h : Numeric (token :: rest)) :
    Numeric rest :=
  fun text mem => h text (List.mem_cons_of_mem token mem)

/-- An atom that is a number or none has an expression. -/
theorem exists_expr {atom : Atom} {rest : List Token} (h : Numeric (.atom atom :: rest)) :
    ∃ expr, atom.expr = .ok expr := by
  cases atom with
  | symbol name => exact ⟨_, rfl⟩
  | string id => exact ⟨_, rfl⟩
  | number text =>
    have parses : (Numeral.Decimal.parse? text.toList).isSome := h text List.mem_cons_self
    obtain ⟨decimal, parsed⟩ := Option.isSome_iff_exists.1 parses
    refine ⟨.number (Numeral.Single.ofDecimal decimal), ?_⟩
    rw [Atom.expr, Numeral.Single.parse?, parsed]
    rfl

/-- What is to be said of tokens that lower the number of open lists down to `low` and end with
`total` ones. -/
def settle (low total : Int) : Except FormError Unit :=
  if low < 0 then .error .unexpectedClose
  else if total = 0 then .ok ()
  else .error (.unclosed total.toNat)

/-- How far the number is above zero does not matter. -/
theorem settle_congr {low low' total total' : Int} (sign : low < 0 ↔ low' < 0)
    (same : total = total') : settle low total = settle low' total' := by
  rw [settle, settle, same]
  exact if_congr sign rfl rfl

theorem checkBalance_eq (count : Nat) (tokens : List Token) :
    checkBalance count tokens = settle (count + lowest tokens) (count + balance tokens) := by
  induction tokens generalizing count with
  | nil =>
    rw [checkBalance, settle, lowest, balance_nil, Int.add_zero, if_neg (Int.not_lt.2 (by omega))]
    by_cases none : count = 0
    · rw [if_pos none, if_pos (by omega)]
    · rw [if_neg none, if_neg (by omega), Int.toNat_natCast]
  | cons token rest ih =>
    rw [lowest, balance_cons]
    cases token with
    | opening =>
      rw [checkBalance, ih]
      refine settle_congr ?_ ?_ <;> simp only [Token.weight] <;> omega
    | closing =>
      have downward := lowest_le_zero rest
      rw [checkBalance]
      by_cases none : count = 0
      · rw [if_pos none, settle, if_pos]
        simp only [Token.weight]
        omega
      · rw [if_neg none, ih]
        refine settle_congr ?_ ?_ <;> simp only [Token.weight] <;> omega
    | atom atom =>
      rw [checkBalance, ih]
      · refine settle_congr ?_ ?_ <;> simp only [Token.weight] <;> omega
      · exact Token.noConfusion
      · exact Token.noConfusion

/-- What reading comes to inside of open lists, whatever their items. -/
structure ReadsForm (depth : Int) (tokens : List Token)
    (found : Except FormError (Expr × List Token)) : Prop where
  tooDeep : maxDepth < depth + highest (formInside depth tokens) → found = .error .tooDeep
  complete : depth + highest (formInside depth tokens) ≤ maxDepth →
    depth + balance (formInside depth tokens) = 0 →
      ∃ expr, found = .ok (expr, tokens.drop (formInside depth tokens).length)
  unclosed : depth + highest (formInside depth tokens) ≤ maxDepth →
    depth + balance (formInside depth tokens) ≠ 0 →
      found = .error (.unclosed (depth + balance (formInside depth tokens)).toNat)

/-- One more token: what is read behind it says what is read. -/
theorem ReadsForm.cons {depth behind : Int} {token : Token} {rest : List Token}
    {found : Except FormError (Expr × List Token)} (h : ReadsForm behind rest found)
    (positive : 0 < behind) (within : depth ≤ maxDepth) (counts : behind = depth + token.weight) :
    ReadsForm depth (token :: rest) found := by
  have level : depth + token.weight ≠ 0 := by omega
  have upward := zero_le_highest (formInside behind rest)
  constructor
  · intro deep
    rw [formInside_cons, if_neg level, highest, ← counts] at deep
    exact h.tooDeep (by omega)
  · intro shallow settled
    rw [formInside_cons, if_neg level, highest, ← counts] at shallow
    rw [formInside_cons, if_neg level, balance_cons, ← counts] at settled
    rw [formInside_cons, if_neg level, ← counts]
    exact h.complete (by omega) (by omega)
  · intro shallow open_
    rw [formInside_cons, if_neg level, highest, ← counts] at shallow
    rw [formInside_cons, if_neg level, balance_cons, ← counts] at open_ ⊢
    rw [← Int.add_assoc, ← counts]
    exact h.unclosed (by omega) (by omega)

/-- No list can be opened where as many are open as may nest. -/
theorem readsForm_full {stack : List (List Expr)} {rest : List Token}
    (full : maxDepth ≤ stack.length) :
    ReadsForm stack.length (.opening :: rest) (Expr.readInside 0 stack (.opening :: rest)) := by
  have positive : 0 < maxDepth := by decide
  have level : (stack.length : Int) + Token.weight .opening ≠ 0 := by
    simp only [Token.weight]
    omega
  have deep : maxDepth < stack.length + highest (formInside stack.length (.opening :: rest)) := by
    have upward := zero_le_highest (formInside (stack.length + Token.weight .opening) rest)
    rw [formInside_cons, if_neg level, highest]
    simp only [Token.weight] at upward ⊢
    omega
  constructor
  · intro _
    rw [Expr.readInside, Nat.zero_add, if_pos full]
  · intro shallow _
    omega
  · intro shallow _
    omega

/-- The last open list is closed. -/
theorem readsForm_closed (expr : Expr) (rest : List Token) :
    ReadsForm 1 (.closing :: rest) (.ok (expr, rest)) := by
  have here : formInside 1 (.closing :: rest) = [.closing] := by
    rw [formInside_cons]
    exact if_pos rfl
  constructor
  · rw [here]
    intro deep
    exact absurd deep (by decide)
  · rw [here]
    intro _ _
    exact ⟨expr, rfl⟩
  · rw [here]
    intro _ open_
    exact absurd rfl open_

/-- Inside of open lists, the first pass goes by the first form alone. -/
theorem readInside_form {stack : List (List Expr)} {tokens : List Token} (numeric : Numeric tokens)
    (inside : stack ≠ []) (within : stack.length ≤ maxDepth) :
    ReadsForm stack.length tokens (Expr.readInside 0 stack tokens) := by
  induction tokens generalizing stack with
  | nil =>
    have some : 0 < stack.length := List.length_pos_iff.2 inside
    constructor
    · intro deep
      rw [formInside_nil, highest] at deep
      omega
    · intro _ settled
      rw [formInside_nil, balance_nil] at settled
      omega
    · intro _ _
      rw [Expr.readInside, formInside_nil, balance_nil, Int.add_zero, Int.toNat_natCast,
        Nat.zero_add]
  | cons token rest ih =>
    obtain ⟨items, stack, rfl⟩ := List.exists_cons_of_ne_nil inside
    rw [List.length_cons] at within ⊢
    cases token with
    | opening =>
      by_cases shallow : stack.length + 1 < maxDepth
      · have read := ih numeric.behind (List.cons_ne_nil [] (items :: stack))
          (by rw [List.length_cons, List.length_cons]; omega)
        rw [Expr.readInside_opening (by rw [List.length_cons]; omega)]
        refine read.cons (Int.natCast_pos.2 (Nat.succ_pos _)) (Int.ofNat_le.2 within) ?_
        simp only [Token.weight, List.length_cons]
        omega
      · have full : maxDepth ≤ (items :: stack).length := by
          rw [List.length_cons]
          omega
        exact readsForm_full full
    | closing =>
      rw [Expr.readInside_closing]
      cases stack with
      | nil => exact readsForm_closed _ rest
      | cons outer stack =>
        have read := ih numeric.behind
          (List.cons_ne_nil (.list items.reverse :: outer) stack)
          (by rw [List.length_cons] at within ⊢; omega)
        refine read.cons (Int.natCast_pos.2 (Nat.succ_pos _)) (Int.ofNat_le.2 within) ?_
        simp only [Token.weight, List.length_cons]
        omega
    | atom atom =>
      obtain ⟨expr, reads⟩ := exists_expr numeric
      have read := ih numeric.behind (List.cons_ne_nil (expr :: items) stack) within
      rw [Expr.readInside_atom reads]
      refine read.cons (Int.natCast_pos.2 (Nat.succ_pos _)) (Int.ofNat_le.2 within) ?_
      simp only [Token.weight, List.length_cons]
      omega

/-- A line that does not begin with a closing parenthesis is read by its first form. -/
theorem readsForm_line {token : Token} {rest : List Token} (numeric : Numeric (token :: rest))
    (begins : token ≠ .closing) :
    ReadsForm 0 (token :: rest) (Expr.readInside 0 [] (token :: rest)) := by
  have positive : 0 < maxDepth := by decide
  cases token with
  | opening =>
    have read := readInside_form numeric.behind (List.cons_ne_nil [] []) positive
    rw [Expr.readInside_opening positive]
    exact read.cons Int.one_pos (Int.natCast_nonneg maxDepth) rfl
  | closing => exact absurd rfl begins
  | atom atom =>
    obtain ⟨expr, reads⟩ := exists_expr numeric
    have here : formInside 0 (.atom atom :: rest) = [.atom atom] := by
      rw [formInside_cons]
      exact if_pos rfl
    rw [Expr.readInside_atom reads]
    constructor
    · rw [here]
      intro deep
      exact absurd deep (by simp [highest, Token.weight])
    · rw [here]
      intro _ _
      exact ⟨expr, rfl⟩
    · rw [here]
      intro _ open_
      exact absurd rfl open_

/-! ### The verdict -/

/-- A first form never closes more than it opens, unless it begins so. -/
theorem lowest_firstForm {token : Token} {rest : List Token} (begins : token ≠ .closing) :
    0 ≤ lowest (firstForm (token :: rest)) := by
  rw [firstForm, formInside_cons]
  cases token with
  | opening =>
    have level := lowest_formInside Int.one_pos rest
    rw [if_neg (by decide), lowest]
    simp only [Token.weight, Int.zero_add]
    omega
  | closing => exact absurd rfl begins
  | atom atom => exact Int.le_refl 0

/-- The verdict by the extremes. -/
theorem verdict_cons {token : Token} {rest : List Token} (begins : token ≠ .closing)
    {form trailing : List Token} (hform : firstForm (token :: rest) = form)
    (htrailing : (token :: rest).drop form.length = trailing) :
    verdict (token :: rest) =
      if maxDepth < highest form then .error .tooDeep
      else if balance form = 0 then
        (settle (lowest trailing) (balance trailing)).map fun _ => some trailing.length
      else .error (.unclosed (balance form).toNat) := by
  have level : lowest form = 0 :=
    Int.le_antisymm (lowest_le_zero form) (hform ▸ lowest_firstForm begins)
  have downward := lowest_le_zero trailing
  have parts : form ++ trailing = token :: rest := by
    rw [← htrailing, ← hform]
    exact formInside_append_drop 0 (token :: rest)
  have ends : balance form = 0 ∨ trailing = [] := by
    have ends := formInside_ends 0 (token :: rest)
    rw [Int.zero_add, show formInside 0 (token :: rest) = form from hform] at ends
    refine ends.imp id fun whole => ?_
    rw [← htrailing, whole, List.drop_length]
  have balanced : Balanced (token :: rest) ↔
      0 ≤ balance form + lowest trailing ∧ balance form + balance trailing = 0 := by
    rw [Balanced, dips_iff, ← parts, lowest_append, balance_append]
    omega
  have opened : (unmatched (token :: rest) : Int) =
      balance form + balance trailing - min (lowest form) (balance form + lowest trailing) := by
    rw [unmatched_eq, ← parts, lowest_append, balance_append]
  have first : (token :: rest).head? ≠ some .closing := by
    intro same
    exact begins (Option.some.inj same)
  have unfolded : verdict (token :: rest) =
      if Balanced (token :: rest) ∧ Shallow form then .ok (some trailing.length)
      else if OpensTooDeep form then .error .tooDeep
      else if Dips trailing then .error .unexpectedClose
      else .error (.unclosed (unmatched (token :: rest))) := by
    rw [verdict, if_neg (List.cons_ne_nil token rest), if_neg first, hform, htrailing]
  rw [unfolded]
  simp only [balanced, shallow_iff, opensTooDeep_iff, dips_iff]
  by_cases deep : maxDepth < highest form
  · rw [if_pos deep, if_neg (by omega), if_pos deep]
  · rw [if_neg deep, if_neg deep]
    by_cases settled : balance form = 0
    · rw [if_pos settled, settle]
      by_cases falls : lowest trailing < 0
      · rw [if_pos falls, if_neg (by omega), if_pos falls]
        rfl
      · rw [if_neg falls, if_neg falls]
        by_cases even : balance trailing = 0
        · rw [if_pos even, if_pos (by omega)]
          rfl
        · have rises : unmatched (token :: rest) = (balance trailing).toNat := by omega
          rw [if_neg even, if_neg (by omega), rises]
          rfl
    · -- the first form is not complete, so it is the whole line
      obtain rfl := ends.resolve_left settled
      have level' : lowest [] = 0 := rfl
      have rises : unmatched (token :: rest) = (balance form).toNat := by
        rw [balance_nil] at opened
        omega
      rw [if_neg settled, balance_nil, if_neg (by omega), if_neg (by omega), rises]

/-- A closing parenthesis in front is unexpected. -/
theorem verdict_closing (rest : List Token) :
    verdict (.closing :: rest) = .error .unexpectedClose := by
  have dips : Dips (.closing :: rest) := by
    have downward := lowest_le_zero rest
    rw [dips_iff, lowest]
    simp only [Token.weight]
    omega
  rw [verdict, if_neg (List.cons_ne_nil _ _), if_neg fun accepted => accepted.1.1 dips]
  exact if_pos rfl

/-- The numbers among the tokens of a line are numbers. -/
theorem numeric_tokenize {line : String} {table : StringTable} {tokens : List Token}
    (h : (tokenize line table).1 = .ok tokens) : Numeric tokens := by
  intro text mem
  rw [tokenize] at h
  split at h
  · cases h
  · obtain rfl := Except.ok.inj h
    obtain ⟨lexeme, -, same⟩ := List.mem_map.1 mem
    cases lexeme with
    | opening | closing | quoted => cases same
    | word word =>
      have same := Token.atom.inj same
      split at same
      · next number =>
        obtain rfl := Atom.number.inj same
        exact number
      · cases same

/-- What reading finds on a line is the verdict by its parentheses; and the numbers of a line can be
read, so no number is at fault. -/
theorem ofTokens?_eq_verdict :
    (∀ tokens : List Token, Numeric tokens →
      (Form.ofTokens? tokens).map (Option.map Form.trailing) = verdict tokens ∧
        ∀ text, Form.ofTokens? tokens ≠ .error (.badNumber text)) ∧
    ∀ (line : String) (table : StringTable) (tokens : List Token),
      (tokenize line table).1 = .ok tokens → Numeric tokens := by
  have reads : ∀ tokens : List Token, Numeric tokens →
      (Form.ofTokens? tokens).map (Option.map Form.trailing) = verdict tokens := by
    intro tokens numeric
    cases tokens with
    | nil => rfl
    | cons token rest =>
      by_cases begins : token = .closing
      · subst begins
        rw [verdict_closing, Form.ofTokens?_cons]
        rfl
      · obtain ⟨tooDeep, complete, unclosed⟩ := readsForm_line numeric begins
        simp only [Int.zero_add] at tooDeep complete unclosed
        let trailing := (token :: rest).drop (formInside 0 (token :: rest)).length
        rw [verdict_cons begins rfl rfl, Form.ofTokens?_cons, firstForm]
        by_cases deep : maxDepth < highest (formInside 0 (token :: rest))
        · rw [tooDeep deep, if_pos deep]
          rfl
        · have shallow := Int.not_lt.1 deep
          rw [if_neg deep]
          by_cases settled : balance (formInside 0 (token :: rest)) = 0
          · obtain ⟨expr, found⟩ := complete shallow settled
            have behind := checkBalance_eq 0 trailing
            rw [Int.natCast_zero, Int.zero_add, Int.zero_add] at behind
            rw [found, if_pos settled]
            show Except.map _ ((checkBalance 0 trailing).bind fun _ => .ok _) = _
            rw [behind]
            cases settle (lowest trailing) (balance trailing) <;> rfl
          · rw [unclosed shallow settled, if_neg settled]
            rfl
  refine ⟨fun tokens numeric => ⟨reads tokens numeric, ?_⟩, fun _ _ _ => numeric_tokenize⟩
  intro text bad
  have found := reads tokens numeric
  rw [bad, verdict] at found
  split_ifs at found <;> cases found

/-- `(f 2) (()` has a form, but behind it a list stays open. -/
theorem ofTokens?_eq_verdict_open :
    Numeric [.opening, .atom (.symbol "f"), .atom (.number "2"), .closing, .opening, .opening,
      .closing] ∧
    (Form.ofTokens? [.opening, .atom (.symbol "f"), .atom (.number "2"), .closing, .opening,
      .opening, .closing]).map (Option.map Form.trailing) = .error (.unclosed 1) := by
  have numeric : Numeric [.opening, .atom (.symbol "f"), .atom (.number "2"), .closing, .opening,
      .opening, .closing] := by
    intro text mem
    have same : text = "2" := by simpa using mem
    subst same
    decide +kernel
  exact ⟨numeric, ((ofTokens?_eq_verdict.1 _ numeric).1).trans (by rfl)⟩

end Libretto.Script
