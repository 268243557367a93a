/-
Outcomes of steps that may fail.

* **`exists_of_bind_eq_ok`** — two steps succeed only if each of them does;
* **`exists_ok_of_any`** — an outcome whose result passes a check is a success;
* **`mapM_eq_ok`**, **`mapM_fails_iff`** — the same step for each of many;
* **`faultOf`**, **`findSome?_cons_eq_or`** — the fault of an outcome, and the first of several.
-/

namespace Libretto

variable {ε α β : Type}

theorem exists_of_bind_eq_ok {x : Except ε α} {f : α → Except ε β} {b : β}
    (h : (x >>= f) = .ok b) : ∃ a, x = .ok a ∧ f a = .ok b := by
  cases x with
  | error e => cases h
  | ok a => exact ⟨a, rfl, h⟩

theorem ok_of_mapError_eq_ok {ε' : Type} {x : Except ε α} {f : ε → ε'} {a : α}
    (h : x.mapError f = .ok a) : x = .ok a := by
  cases x with
  | error e => cases h
  | ok b =>
    obtain rfl := Except.ok.inj h
    rfl

theorem toOption_eq_some_iff {x : Except ε α} {a : α} : x.toOption = some a ↔ x = .ok a := by
  cases x <;> simp [Except.toOption]

theorem exists_ok_of_isOk {x : Except ε α} (h : x.isOk = true) : ∃ a, x = .ok a := by
  cases x with
  | error e => cases h
  | ok a => exact ⟨a, rfl⟩

theorem exists_ok_of_any {x : Except ε α} {p : α → Bool} (h : x.toOption.any p = true) :
    ∃ a, x = .ok a ∧ p a = true := by
  cases x with
  | error e => cases h
  | ok a => exact ⟨a, rfl, h⟩

/-- Steps that succeed for all give a result for each. -/
theorem mapM_eq_ok {f : α → Except ε β} {list : List α} {results : List β}
    (h : list.mapM f = .ok results) :
    results.length = list.length ∧
      ∀ (i : Nat) a, list[i]? = some a → ∃ b, results[i]? = some b ∧ f a = .ok b := by
  induction list generalizing results with
  | nil =>
    obtain rfl := Except.ok.inj h
    exact ⟨rfl, fun i a there => by cases there⟩
  | cons first rest ih =>
    rw [List.mapM_cons] at h
    obtain ⟨b, here, h⟩ := exists_of_bind_eq_ok h
    obtain ⟨more, behind, h⟩ := exists_of_bind_eq_ok h
    obtain rfl := Except.ok.inj h
    obtain ⟨length, each⟩ := ih behind
    refine ⟨congrArg (· + 1) length, ?_⟩
    intro i a there
    cases i with
    | zero =>
      obtain rfl := Option.some.inj there
      exact ⟨b, rfl, here⟩
    | succ i => exact each i a there

theorem exists_result_of_mem {f : α → Except ε β} {list : List α} {results : List β} {a : α}
    (h : list.mapM f = .ok results) (mem : a ∈ list) : ∃ b ∈ results, f a = .ok b := by
  obtain ⟨i, there⟩ := List.mem_iff_getElem?.1 mem
  obtain ⟨b, here, result⟩ := (mapM_eq_ok h).2 i a there
  exact ⟨b, List.mem_of_getElem? here, result⟩

theorem exists_origin_of_mem {f : α → Except ε β} {list : List α} {results : List β} {b : β}
    (h : list.mapM f = .ok results) (mem : b ∈ results) : ∃ a ∈ list, f a = .ok b := by
  obtain ⟨length, each⟩ := mapM_eq_ok h
  obtain ⟨i, inside, rfl⟩ := List.mem_iff_getElem.1 mem
  have inside' : i < list.length := by omega
  obtain ⟨b, here, result⟩ := each i list[i] (List.getElem?_eq_getElem inside')
  obtain rfl := Option.some.inj ((List.getElem?_eq_getElem inside).symm.trans here)
  exact ⟨list[i], List.getElem_mem inside', result⟩

/-! ### Failures -/

theorem bind_fails_iff {x : Except ε α} {f : α → Except ε β} :
    (∃ e, (x >>= f) = .error e) ↔
      (∃ e, x = .error e) ∨ ∃ a, x = .ok a ∧ ∃ e, f a = .error e := by
  cases x with
  | error e => exact ⟨fun _ => .inl ⟨e, rfl⟩, fun _ => ⟨e, rfl⟩⟩
  | ok a =>
    constructor
    · exact fun failed => .inr ⟨a, rfl, failed⟩
    · rintro (⟨e, ⟨⟩⟩ | ⟨b, ⟨⟩, failed⟩)
      exact failed

theorem mapError_fails_iff {ε' : Type} {x : Except ε α} {f : ε → ε'} :
    (∃ e, x.mapError f = .error e) ↔ ∃ e, x = .error e := by
  cases x with
  | error e => exact ⟨fun _ => ⟨e, rfl⟩, fun _ => ⟨f e, rfl⟩⟩
  | ok a =>
    constructor
    · rintro ⟨e, ⟨⟩⟩
    · rintro ⟨e, ⟨⟩⟩

/-- Steps fail for all if they fail for one. -/
theorem mapM_fails_iff {f : α → Except ε β} {list : List α} :
    (∃ e, list.mapM f = .error e) ↔ ∃ a ∈ list, ∃ e, f a = .error e := by
  induction list with
  | nil =>
    constructor
    · rintro ⟨e, ⟨⟩⟩
    · rintro ⟨a, ⟨⟩, -⟩
  | cons first rest ih =>
    rw [List.mapM_cons, bind_fails_iff]
    simp only [List.mem_cons, or_and_right, exists_or, exists_eq_left]
    rw [← ih]
    cases here : f first with
    | error e => simp
    | ok b => simp [bind_fails_iff, pure, Except.pure]

/-- Steps succeed for all if they do for each. -/
theorem exists_mapM_eq_ok {f : α → Except ε β} {list : List α}
    (each : ∀ a ∈ list, ∃ b, f a = .ok b) : ∃ results, list.mapM f = .ok results := by
  cases all : list.mapM f with
  | ok results => exact ⟨results, rfl⟩
  | error e =>
    obtain ⟨a, mem, e, failed⟩ := mapM_fails_iff.1 ⟨e, all⟩
    obtain ⟨b, ok⟩ := each a mem
    rw [failed] at ok
    cases ok

/-- The fault of an outcome, if it is one. -/
def faultOf : Except ε α → Option ε
  | .error e => some e
  | .ok _ => none

/-- The first fault in a list is that of its head, or else the first one behind it. -/
theorem findSome?_cons_eq_or (fault? : α → Option ε) (a : α) (rest : List α) :
    (a :: rest).findSome? fault? = (fault? a).or (rest.findSome? fault?) := by
  rw [List.findSome?_cons]
  cases fault? a <;> rfl

end Libretto
