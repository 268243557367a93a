/-
Code that compiles is one complete expression.

What a machine relies on when it runs a block is said of its instructions alone, without the form
that they were compiled from.  A *complete expression* is an atom, or a list: an opening, an
instruction that says what the list holds, as many complete expressions as it asks for, and a
closing.

* **`Complete`**, **`Takes`** — complete expressions, and what the instruction behind an opening
  asks for;
* **`splitAtClosing`** — bracket matching, by counting the lists that are open;
* **`Governs`** — what stands between an instruction and the closing of the list around it;
* **`Complete.governs`**, **`Complete.countsDepth`**, **`Complete.leads`**, **`Complete.forward`** —
  what follows for every instruction of a complete expression: where its list closes, its depth,
  where its offsets lead;
* **`complete_instructions`** — the instructions of a well-formed expression are complete;
* **`wellBracketed_of_compile`** — hence so is the code of every form that compiles.

The offsets are compared with those at which the decoder finds the instructions, so a word that
cannot hold an offset would show.
-/
import Libretto.Proofs.Code.Assembly
import Libretto.Proofs.Code.Decoding

namespace Libretto.Script

namespace Instruction

/-! ### Complete expressions -/

/-- The offset at which instructions begin. -/
def start? (instructions : List Instruction) : Option Nat :=
  instructions.head?.map offset

/-- The instruction behind the opening of a list asks for the given expressions up to the closing.
Its offsets are those at which the expressions begin that the machine skips to. -/
def Takes (i : Instruction) (parts : List (List Instruction)) : Prop :=
  match i.op, i.operands with
  | .define, [_] | .assign, [_] | .item, [_] => parts.length = 1
  | .assignItem, [_, value] => ∃ a b, parts = [a, b] ∧ start? b = some value.toNat
  | .branch, [consequence, alternative] =>
    ∃ a b c, parts = [a, b, c] ∧ start? b = some consequence.toNat ∧
      start? c = some alternative.toNat
  | .call, [count] => parts.length = count.toNat + 1
  | op, [count] => op.operands = .count ∧ parts.length = count.toNat
  | _, _ => False

/-- Instructions that make one expression. -/
inductive Complete : List Instruction → Prop where
  | atom {i : Instruction} (kind : i.op = .number ∨ i.op = .symbol ∨ i.op = .string) :
      Complete [i]
  | list {opening select closing : Instruction} {past : UInt32} {parts : List (List Instruction)}
      (opens : opening.op = .enter) (closes : closing.op = .leave)
      (operands : opening.operands = [past]) (skips : past.toNat = closing.offset + 1)
      (takes : select.Takes parts) (inner : ∀ part ∈ parts, Complete part) :
      Complete (opening :: select :: (parts.flatten ++ [closing]))

/-- The number of instructions that open a list. -/
def openings (instructions : List Instruction) : Nat :=
  instructions.countP (·.op = .enter)

/-- The number of instructions that close a list. -/
def closings (instructions : List Instruction) : Nat :=
  instructions.countP (·.op = .leave)

/-- Splits instructions at the one that closes the list around them, when `inner` further lists are
open inside of it: what stands in front of that one, that one, and what stands behind it. -/
def splitAtClosing (inner : Nat) :
    List Instruction → Option (List Instruction × Instruction × List Instruction)
  | [] => none
  | i :: rest =>
    match i.op, inner with
    | .leave, 0 => some ([], i, rest)
    | .leave, inner + 1 => (splitAtClosing inner rest).map (Prod.map (i :: ·) id)
    | .enter, inner => (splitAtClosing (inner + 1) rest).map (Prod.map (i :: ·) id)
    | _, inner => (splitAtClosing inner rest).map (Prod.map (i :: ·) id)

/-- The instruction says what a list holds. -/
def Selects (i : Instruction) : Prop :=
  i.op ∉ [.enter, .leave, .number, .symbol, .string]

/-- What an instruction demands of those behind it.  An opening holds the offset just past the
closing of its list; one that says what a list holds is followed by what it asks for, up to the
closing of this list. -/
structure Governs (i : Instruction) (back : List Instruction) : Prop where
  closing : i.op = .enter → ∃ past inside closing behind, i.operands = [past] ∧
    splitAtClosing 0 back = some (inside, closing, behind) ∧ past.toNat = closing.offset + 1
  parts : i.Selects → ∃ parts closing behind,
    splitAtClosing 0 back = some (parts.flatten, closing, behind) ∧
      (∀ part ∈ parts, Complete part) ∧ i.Takes parts

/-- The offsets among the operands of an instruction. -/
def targets (i : Instruction) : List UInt32 :=
  match i.op.operands with
  | .offset | .offsets => i.operands
  | .stringOffset => i.operands.drop 1
  | _ => []

/-- The instructions of a block of the given size are one complete expression, with all depths and
offsets as they should be. -/
structure WellBracketed (size : Nat) (instructions : List Instruction) : Prop where
  complete : Complete instructions
  /-- The depth of an instruction is the number of lists open at it. -/
  depth : ∀ front i back, instructions = front ++ i :: back →
    i.depth + closings front = openings (front ++ [i])
  governs : ∀ front i back, instructions = front ++ i :: back → i.Governs back
  /-- An offset leads to an instruction, or past the block if the whole block is the list. -/
  targets : ∀ i ∈ instructions, ∀ target ∈ i.targets,
    (∃ j ∈ instructions, j.offset = target.toNat) ∨
      instructions.head? = some i ∧ i.op = .enter ∧ target.toNat = size

/-- An instruction that takes expressions is neither a bracket nor an atom. -/
theorem Takes.selects {i : Instruction} {parts : List (List Instruction)} (h : i.Takes parts) :
    i.Selects := by
  obtain ⟨offset, depth, op, operands⟩ := i
  cases op with
  | enter | leave | number | symbol | string =>
    rcases operands with _ | ⟨word, _ | ⟨word', more⟩⟩ <;>
      simp [Takes, Opcode.operands] at h
  | _ => simp [Selects]

theorem Selects.ne_enter {i : Instruction} (h : i.Selects) : i.op ≠ .enter := by
  rintro op
  simp [Selects, op] at h

theorem Selects.ne_leave {i : Instruction} (h : i.Selects) : i.op ≠ .leave := by
  rintro op
  simp [Selects, op] at h

theorem atom_ne_enter {i : Instruction} (kind : i.op = .number ∨ i.op = .symbol ∨ i.op = .string) :
    i.op ≠ .enter := by
  rcases kind with op | op | op <;> simp [op]

theorem atom_ne_leave {i : Instruction} (kind : i.op = .number ∨ i.op = .symbol ∨ i.op = .string) :
    i.op ≠ .leave := by
  rcases kind with op | op | op <;> simp [op]

theorem atom_targets {i : Instruction} (kind : i.op = .number ∨ i.op = .symbol ∨ i.op = .string) :
    i.targets = [] := by
  rcases kind with op | op | op <;> simp [Instruction.targets, op, Opcode.operands]

theorem leave_targets {i : Instruction} (closes : i.op = .leave) : i.targets = [] := by
  simp [Instruction.targets, closes, Opcode.operands]

/-! ### Bracket matching -/

/-- The closing of a list does not depend on what stands behind it. -/
theorem splitAtClosing_append {inner : Nat} {l inside behind : List Instruction}
    {closing : Instruction} (h : splitAtClosing inner l = some (inside, closing, behind))
    (more : List Instruction) :
    splitAtClosing inner (l ++ more) = some (inside, closing, behind ++ more) := by
  fun_induction splitAtClosing inner l generalizing inside with
  | case1 => simp at h
  | case2 i rest op =>
    simp only [Option.some.injEq, Prod.mk.injEq] at h
    obtain ⟨rfl, rfl, rfl⟩ := h
    simp [splitAtClosing, op]
  | case3 i rest op inner ih | case4 inner i rest op ih | case5 inner i rest op op' op'' ih =>
    obtain ⟨⟨inside', closing', behind'⟩, found, same⟩ := Option.map_eq_some_iff.1 h
    simp only [Prod.map_apply, id_eq, Prod.mk.injEq] at same
    obtain ⟨rfl, rfl, rfl⟩ := same
    have step := ih found
    simp_all [splitAtClosing]

/-- Instructions that contain the closing of no list around them. -/
def Enclosed (l : List Instruction) : Prop :=
  ∀ inner rest, splitAtClosing inner (l ++ rest) =
    (splitAtClosing inner rest).map (Prod.map (l ++ ·) id)

theorem enclosed_nil : Enclosed [] := by
  intro inner rest
  rw [List.nil_append]
  cases splitAtClosing inner rest <;> rfl

theorem Enclosed.append {front back : List Instruction} (hfront : Enclosed front)
    (hback : Enclosed back) : Enclosed (front ++ back) := by
  intro inner rest
  rw [List.append_assoc, hfront, hback, Option.map_map, Prod.map_comp_map]
  simp only [Function.comp_def, List.append_assoc, id_eq]
  rfl

theorem enclosed_plain {i : Instruction} (enter : i.op ≠ .enter) (leave : i.op ≠ .leave) :
    Enclosed [i] := by
  intro inner rest
  rw [List.singleton_append, splitAtClosing.eq_def]
  split <;> simp_all

theorem enclosed_flatten {parts : List (List Instruction)} (h : ∀ part ∈ parts, Enclosed part) :
    Enclosed parts.flatten := by
  induction parts with
  | nil => exact enclosed_nil
  | cons part rest ih =>
    rw [List.forall_mem_cons] at h
    exact h.1.append (ih h.2)

/-- A list is enclosed, if what stands between its brackets is. -/
theorem enclosed_list {opening closing : Instruction} {inside : List Instruction}
    (opens : opening.op = .enter) (closes : closing.op = .leave) (h : Enclosed inside) :
    Enclosed (opening :: (inside ++ [closing])) := by
  intro inner rest
  have behind : splitAtClosing (inner + 1) (closing :: rest) =
      (splitAtClosing inner rest).map (Prod.map (closing :: ·) id) := by
    rw [splitAtClosing.eq_def]
    simp [closes]
  have front : splitAtClosing inner (opening :: (inside ++ closing :: rest)) =
      (splitAtClosing (inner + 1) (inside ++ closing :: rest)).map
        (Prod.map (opening :: ·) id) := by
    rw [splitAtClosing.eq_def]
    simp [opens]
  rw [List.cons_append, List.append_assoc, List.singleton_append, front, h, behind, Option.map_map,
    Option.map_map, Prod.map_comp_map, Prod.map_comp_map]
  simp only [Function.comp_def, List.cons_append, List.append_assoc, id_eq]
  rfl

theorem splitAtClosing_enclosed {inside : List Instruction} {closing : Instruction}
    (h : Enclosed inside) (closes : closing.op = .leave) (behind : List Instruction) :
    splitAtClosing 0 (inside ++ closing :: behind) = some (inside, closing, behind) := by
  have here : splitAtClosing 0 (closing :: behind) = some ([], closing, behind) := by
    rw [splitAtClosing.eq_def]
    simp [closes]
  rw [h, here]
  simp

/-- A complete expression closes every list that it opens, and no other one. -/
theorem Complete.enclosed {l : List Instruction} (h : Complete l) : Enclosed l := by
  induction h with
  | atom kind => exact enclosed_plain (atom_ne_enter kind) (atom_ne_leave kind)
  | @list opening select closing past parts opens closes _ _ takes _ ih =>
    have selects := takes.selects
    have inside : Enclosed (select :: parts.flatten) :=
      (enclosed_plain selects.ne_enter selects.ne_leave).append (enclosed_flatten ih)
    exact enclosed_list opens closes inside

/-! ### What every instruction governs -/

theorem Governs.append {i : Instruction} {back : List Instruction} (h : i.Governs back)
    (more : List Instruction) : i.Governs (back ++ more) := by
  constructor
  · intro opens
    obtain ⟨past, inside, closing, behind, operands, split, skips⟩ := h.closing opens
    exact ⟨past, inside, closing, behind ++ more, operands, splitAtClosing_append split more, skips⟩
  · intro selects
    obtain ⟨parts, closing, behind, split, complete, takes⟩ := h.parts selects
    exact ⟨parts, closing, behind ++ more, splitAtClosing_append split more, complete, takes⟩

/-- An instruction that is no opening and says nothing about a list governs nothing. -/
theorem governs_plain {i : Instruction} (enter : i.op ≠ .enter) (plain : ¬ i.Selects)
    (back : List Instruction) : i.Governs back :=
  ⟨fun opens => absurd opens enter, fun selects => absurd selects plain⟩

/-- Every instruction governs those behind it. -/
def AllGovern : List Instruction → Prop
  | [] => True
  | i :: rest => i.Governs rest ∧ AllGovern rest

theorem AllGovern.append {front back : List Instruction} (hfront : AllGovern front)
    (hback : AllGovern back) : AllGovern (front ++ back) := by
  induction front with
  | nil => exact hback
  | cons i rest ih => exact ⟨hfront.1.append back, ih hfront.2⟩

theorem allGovern_flatten {parts : List (List Instruction)} (h : ∀ part ∈ parts, AllGovern part) :
    AllGovern parts.flatten := by
  induction parts with
  | nil => exact trivial
  | cons part rest ih =>
    rw [List.forall_mem_cons] at h
    exact h.1.append (ih h.2)

theorem AllGovern.governs {l front back : List Instruction} {i : Instruction} (h : AllGovern l)
    (split : l = front ++ i :: back) : i.Governs back := by
  induction front generalizing l with
  | nil =>
    subst split
    exact h.1
  | cons j front ih =>
    subst split
    exact ih h.2 rfl

/-- In a complete expression every list closes where its opening says, and holds what the
instruction behind the opening asks for. -/
theorem Complete.governs {l : List Instruction} (h : Complete l) : AllGovern l := by
  induction h with
  | @atom i kind =>
    have plain : ¬ i.Selects := by rcases kind with op | op | op <;> simp [Selects, op]
    exact ⟨governs_plain (atom_ne_enter kind) plain [], trivial⟩
  | @list opening select closing past parts opens closes operands skips takes inner ih =>
    have selects := takes.selects
    have enclosed := enclosed_flatten fun part mem => (inner part mem).enclosed
    have inside : Enclosed (select :: parts.flatten) :=
      (enclosed_plain selects.ne_enter selects.ne_leave).append enclosed
    have atOpening : opening.Governs (select :: parts.flatten ++ [closing]) := by
      constructor
      · intro _
        exact ⟨past, _, closing, [], operands, splitAtClosing_enclosed inside closes [], skips⟩
      · intro other
        exact absurd opens other.ne_enter
    have atSelect : select.Governs (parts.flatten ++ [closing]) := by
      constructor
      · intro op
        exact absurd op selects.ne_enter
      · intro _
        exact ⟨parts, closing, [], splitAtClosing_enclosed enclosed closes [], inner, takes⟩
    have atClosing : closing.Governs [] :=
      governs_plain (by simp [closes]) (by simp [Selects, closes]) []
    exact ⟨atOpening, atSelect, (allGovern_flatten ih).append ⟨atClosing, trivial⟩⟩

/-! ### Depths -/

theorem openings_append (front back : List Instruction) :
    openings (front ++ back) = openings front + openings back :=
  List.countP_append

theorem closings_append (front back : List Instruction) :
    closings (front ++ back) = closings front + closings back :=
  List.countP_append

theorem balanced_flatten {parts : List (List Instruction)}
    (h : ∀ part ∈ parts, openings part = closings part) :
    openings parts.flatten = closings parts.flatten := by
  induction parts with
  | nil => rfl
  | cons part rest ih =>
    rw [List.forall_mem_cons] at h
    rw [List.flatten_cons, openings_append, closings_append, h.1, ih h.2]

/-- A complete expression has as many closings as openings. -/
theorem Complete.balanced {l : List Instruction} (h : Complete l) : openings l = closings l := by
  induction h with
  | atom kind => simp [openings, closings, atom_ne_enter kind, atom_ne_leave kind]
  | @list opening select closing past parts opens closes _ _ takes _ ih =>
    have parts := balanced_flatten ih
    have enter := takes.selects.ne_enter
    have leave := takes.selects.ne_leave
    simp only [openings, closings, List.countP_cons, List.countP_append, List.countP_nil] at parts ⊢
    simp [opens, closes, enter, leave, parts]

/-- The depths of instructions count the open lists, `depth` of which were opened in front. -/
def CountsDepth (depth : Nat) (l : List Instruction) : Prop :=
  ∀ front i back, l = front ++ i :: back →
    i.depth + closings front = depth + openings (front ++ [i])

theorem countsDepth_singleton {depth : Nat} {i : Instruction}
    (h : i.depth = depth + openings [i]) : CountsDepth depth [i] := by
  intro front j back split
  cases front with
  | nil =>
    obtain ⟨rfl, -⟩ := List.cons.inj split
    exact h
  | cons k front => simp at split

theorem CountsDepth.append {depth behind : Nat} {front back : List Instruction}
    (hfront : CountsDepth depth front)
    (between : behind + closings front = depth + openings front)
    (hback : CountsDepth behind back) : CountsDepth depth (front ++ back) := by
  intro before i after split
  obtain ⟨middle, rfl, rfl⟩ | ⟨middle, rfl, rest⟩ := List.append_eq_append_iff.1 split
  · -- the instruction stands in the second part
    have count := hback middle i after rfl
    rw [openings_append] at count ⊢
    rw [closings_append, openings_append]
    omega
  · cases middle with
    | nil =>
      have count := hback [] i after rest.symm
      rw [List.append_nil] at between
      rw [openings_append]
      simp only [closings, List.countP_nil, List.nil_append] at count
      omega
    | cons j middle =>
      obtain ⟨rfl, -⟩ := List.cons.inj rest
      exact hfront before i middle rfl

/-- Complete expressions in a row. -/
theorem countsDepth_flatten {parts : List (List Instruction)}
    (balanced : ∀ part ∈ parts, openings part = closings part)
    (h : ∀ part ∈ parts, ∀ {offset depth past depthPast : Nat},
      Chain offset depth part past depthPast → depthPast = depth ∧ CountsDepth depth part)
    {offset depth past depthPast : Nat} (chain : Chain offset depth parts.flatten past depthPast) :
    depthPast = depth ∧ CountsDepth depth parts.flatten := by
  induction parts generalizing offset with
  | nil =>
    cases chain
    refine ⟨rfl, ?_⟩
    intro front i back split
    simp at split
  | cons part rest ih =>
    rw [List.forall_mem_cons] at balanced h
    obtain ⟨middle, depthMiddle, first, behind⟩ := chain.split
    obtain ⟨rfl, firstCounts⟩ := h.1 first
    obtain ⟨rfl, restCounts⟩ := ih balanced.2 h.2 behind
    exact ⟨rfl, firstCounts.append (by rw [balanced.1]) restCounts⟩

/-- In a complete expression depths count the open lists. -/
theorem Complete.countsDepth {l : List Instruction} (h : Complete l)
    {offset depth past depthPast : Nat} (chain : Chain offset depth l past depthPast) :
    depthPast = depth ∧ CountsDepth depth l := by
  induction h generalizing offset depth past depthPast with
  | @atom i kind =>
    obtain ⟨-, at_, -, tail⟩ := chain.uncons
    cases tail
    have enter := atom_ne_enter kind
    rw [depthAt, if_neg enter] at at_ ⊢
    refine ⟨if_neg (atom_ne_leave kind), countsDepth_singleton ?_⟩
    simp [at_, openings, enter]
  | @list opening select closing word parts opens closes _ _ takes inner ih =>
    have enter := takes.selects.ne_enter
    have leave := takes.selects.ne_leave
    have balanced := fun part mem => (inner part mem).balanced
    -- the list is open behind its opening, and stays so up to its closing
    obtain ⟨-, atOpening, -, chain⟩ := chain.uncons
    rw [opens, depthAt, if_pos rfl, depthBehind, if_neg (by decide)] at chain
    obtain ⟨-, atSelect, -, chain⟩ := chain.uncons
    rw [depthAt, if_neg enter, depthBehind, if_neg leave] at chain
    obtain ⟨middle, depthMiddle, chainParts, chain⟩ := chain.split
    obtain ⟨rfl, countParts⟩ := countsDepth_flatten balanced ih chainParts
    obtain ⟨-, atClosing, -, tail⟩ := chain.uncons
    rw [closes] at tail
    cases tail
    refine ⟨rfl, ?_⟩
    have countOpening : CountsDepth depth [opening] := countsDepth_singleton (by
      simp [atOpening, openings, depthAt, opens])
    have countSelect : CountsDepth (depth + 1) [select] := countsDepth_singleton (by
      simp [atSelect, openings, depthAt, enter])
    have countClosing : CountsDepth (depth + 1) [closing] := countsDepth_singleton (by
      simp [atClosing, openings, depthAt, closes])
    refine countOpening.append ?_ (countSelect.append ?_
      (countParts.append ?_ countClosing))
    · simp [openings, closings, opens]
    · simp [openings, closings, enter, leave]
    · rw [balanced_flatten balanced]

/-! ### Offsets -/

/-- The offsets of a row of instructions lead into it, or are the offset past it. -/
def Leads (l : List Instruction) (past : Nat) : Prop :=
  ∀ i ∈ l, ∀ target ∈ i.targets, (∃ j ∈ l, j.offset = target.toNat) ∨
    l.head? = some i ∧ i.op = .enter ∧ target.toNat = past

/-- Past every part of a row stands an instruction, if the row does not end the code. -/
theorem exists_past {parts : List (List Instruction)} {closing : Instruction}
    {offset depth past depthPast : Nat}
    (chain : Chain offset depth (parts.flatten ++ [closing]) past depthPast)
    {part : List Instruction} (mem : part ∈ parts) :
    ∃ first depthFirst behind depthBehind, Chain first depthFirst part behind depthBehind ∧
      ∃ j ∈ parts.flatten ++ [closing], j.offset = behind := by
  induction parts generalizing offset depth with
  | nil => cases mem
  | cons first rest ih =>
    rw [List.flatten_cons, List.append_assoc] at chain
    obtain ⟨middle, depthMiddle, here, behind⟩ := chain.split
    rcases List.mem_cons.1 mem with rfl | mem
    · obtain ⟨j, hj, at_⟩ := behind.exists_offset (by simp)
      refine ⟨offset, depth, middle, depthMiddle, here, j, ?_, at_⟩
      rw [List.flatten_cons, List.append_assoc]
      exact List.mem_append_right _ hj
    · obtain ⟨start, depthStart, stop, depthStop, chain, j, hj, at_⟩ := ih behind mem
      refine ⟨start, depthStart, stop, depthStop, chain, j, ?_, at_⟩
      rw [List.flatten_cons, List.append_assoc]
      exact List.mem_append_right _ hj

theorem exists_of_start? {part : List Instruction} {offset : Nat} (h : start? part = some offset) :
    ∃ j ∈ part, j.offset = offset := by
  obtain ⟨j, hj, at_⟩ := Option.map_eq_some_iff.1 h
  exact ⟨j, List.mem_of_head? hj, at_⟩

/-- The offsets of an instruction that takes expressions lead to these. -/
theorem Takes.targets {i : Instruction} {parts : List (List Instruction)} (h : i.Takes parts) :
    ∀ target ∈ i.targets, ∃ part ∈ parts, start? part = some target.toNat := by
  intro target mem
  obtain ⟨offset, depth, op, operands⟩ := i
  cases op with
  | assignItem =>
    rcases operands with _ | ⟨id, _ | ⟨value, _ | ⟨word, more⟩⟩⟩
    case cons.cons.nil =>
      obtain ⟨a, b, rfl, start⟩ := h
      obtain rfl : target = value := by simpa [Instruction.targets, Opcode.operands] using mem
      exact ⟨b, by simp, start⟩
    all_goals simp [Takes, Opcode.operands] at h
  | branch =>
    rcases operands with _ | ⟨first, _ | ⟨second, _ | ⟨word, more⟩⟩⟩
    case cons.cons.nil =>
      obtain ⟨a, b, c, rfl, startB, startC⟩ := h
      have mem : target = first ∨ target = second := by
        simpa [Instruction.targets, Opcode.operands] using mem
      rcases mem with rfl | rfl
      · exact ⟨b, by simp, startB⟩
      · exact ⟨c, by simp, startC⟩
    all_goals simp [Takes, Opcode.operands] at h
  | enter => exact absurd rfl h.selects.ne_enter
  | _ => simp [Instruction.targets, Opcode.operands] at mem

/-- In a complete expression offsets lead to instructions, but for the one past it. -/
theorem Complete.leads {l : List Instruction} (h : Complete l) {offset depth past depthPast : Nat}
    (chain : Chain offset depth l past depthPast) : Leads l past := by
  induction h generalizing offset depth past depthPast with
  | @atom i kind =>
    intro j mem target htarget
    obtain rfl := List.mem_singleton.1 mem
    simp [atom_targets kind] at htarget
  | @list opening select closing word parts opens closes operands skips takes inner ih =>
    obtain ⟨-, -, -, chain⟩ := chain.uncons
    obtain ⟨-, -, -, chain⟩ := chain.uncons
    obtain ⟨_, _, -, last⟩ := chain.split
    obtain ⟨atClosing, -, count, last⟩ := last.uncons
    rw [closes] at count
    cases last
    intro i mem target htarget
    rcases List.mem_cons.1 mem with rfl | mem
    · -- the opening leads past the closing, which ends the list
      refine .inr ⟨rfl, opens, ?_⟩
      obtain rfl : target = word := by
        simpa [Instruction.targets, opens, Opcode.operands, operands] using htarget
      have none : closing.operands.length = 0 := count
      omega
    · left
      rcases List.mem_cons.1 mem with rfl | mem
      · obtain ⟨part, hpart, start⟩ := takes.targets target htarget
        obtain ⟨j, hj, at_⟩ := exists_of_start? start
        refine ⟨j, ?_, at_⟩
        simp only [List.mem_cons, List.mem_append, List.mem_flatten]
        exact .inr (.inr (.inl ⟨part, hpart, hj⟩))
      · rcases List.mem_append.1 mem with mem | mem
        · obtain ⟨part, hpart, hi⟩ := List.mem_flatten.1 mem
          obtain ⟨_, _, _, _, chainPart, j, hj, at_⟩ := exists_past chain hpart
          rcases ih part hpart chainPart i hi target htarget with ⟨k, hk, at_'⟩ | ⟨-, -, behind⟩
          · refine ⟨k, ?_, at_'⟩
            simp only [List.mem_cons, List.mem_append, List.mem_flatten]
            exact .inr (.inr (.inl ⟨part, hpart, hk⟩))
          · exact ⟨j, List.mem_cons_of_mem _ (List.mem_cons_of_mem _ hj), by rw [at_, behind]⟩
        · obtain rfl := List.mem_singleton.1 mem
          simp [leave_targets closes] at htarget

/-- In a complete expression offsets lead forward. -/
theorem Complete.forward {l : List Instruction} (h : Complete l)
    {offset depth past depthPast : Nat} (chain : Chain offset depth l past depthPast) :
    ∀ i ∈ l, ∀ target ∈ i.targets, i.offset < target.toNat := by
  induction h generalizing offset depth past depthPast with
  | @atom i kind =>
    intro j mem target htarget
    obtain rfl := List.mem_singleton.1 mem
    simp [atom_targets kind] at htarget
  | @list opening select closing word parts opens closes operands skips takes inner ih =>
    obtain ⟨atOpening, -, -, chain⟩ := chain.uncons
    obtain ⟨atSelect, -, -, chain⟩ := chain.uncons
    have bound := chain.offset_le
    intro i mem target htarget
    rcases List.mem_cons.1 mem with rfl | mem
    · obtain rfl : target = word := by
        simpa [Instruction.targets, opens, Opcode.operands, operands] using htarget
      have behind := bound closing (by simp)
      omega
    rcases List.mem_cons.1 mem with rfl | mem
    · -- what is skipped to stands behind the instruction
      obtain ⟨part, hpart, start⟩ := takes.targets target htarget
      obtain ⟨j, hj, at_⟩ := exists_of_start? start
      have behind := bound j (List.mem_append_left _ (List.mem_flatten.2 ⟨part, hpart, hj⟩))
      omega
    rcases List.mem_append.1 mem with mem | mem
    · obtain ⟨part, hpart, hi⟩ := List.mem_flatten.1 mem
      obtain ⟨_, _, _, _, chainPart, -⟩ := exists_past chain hpart
      exact ih part hpart chainPart i hi target htarget
    · obtain rfl := List.mem_singleton.1 mem
      simp [leave_targets closes] at htarget

/-- A complete expression that is a whole block. -/
theorem Complete.wellBracketed {l : List Instruction} (h : Complete l) {size depthPast : Nat}
    (chain : Chain 0 0 l size depthPast) : WellBracketed size l := by
  refine ⟨h, ?_, fun front i back split => h.governs.governs split, h.leads chain⟩
  intro front i back split
  have count := (h.countsDepth chain).2 front i back split
  rwa [Nat.zero_add] at count

end Instruction

namespace Expr

open Instruction

variable {name : String → UInt32} {literal : StringId → UInt32}

/-- The instructions of operands that begin at an offset, each by itself. -/
def operandParts (name : String → UInt32) (literal : StringId → UInt32) (offset depth : Nat) :
    List Expr → List (List Instruction)
  | [] => []
  | operand :: rest =>
    operand.instructions name literal offset depth ::
      operandParts name literal (offset + operand.size) depth rest

theorem flatten_operandParts (offset depth : Nat) (operands : List Expr) :
    (operandParts name literal offset depth operands).flatten =
      operandInstructions name literal offset depth 0 operands := by
  induction operands generalizing offset with
  | nil => simp [operandParts, operandInstructions]
  | cons operand rest ih => rw [operandParts, List.flatten_cons, ih, operandInstructions]

theorem length_operandParts (name : String → UInt32) (literal : StringId → UInt32)
    (offset depth : Nat) (operands : List Expr) :
    (operandParts name literal offset depth operands).length = operands.length := by
  induction operands generalizing offset with
  | nil => rfl
  | cons operand rest ih => rw [operandParts, List.length_cons, ih, List.length_cons]

/-- The instructions of a well-formed expression begin where it does. -/
theorem start?_instructions {e : Expr} (h : e.WellFormed) (offset depth : Nat) :
    start? (e.instructions name literal offset depth) = some offset := by
  cases h with
  | keyword shape | operator shape | call shape =>
    simp [start?, instructions, shape]
  | _ => simp [start?, instructions]

theorem size_pos {e : Expr} (h : e.WellFormed) : 0 < e.size := by
  cases h with
  | keyword shape | operator shape | call shape =>
    simp only [size, shape]
    omega
  | _ => simp [size]

/-- Operands have room for a word each. -/
theorem length_le_operandSizes {operands : List Expr}
    (h : ∀ operand ∈ operands, operand.WellFormed) : operands.length ≤ operandSizes 0 operands := by
  induction operands with
  | nil => simp [operandSizes]
  | cons operand rest ih =>
    rw [List.forall_mem_cons] at h
    have first := size_pos h.1
    have behind := ih h.2
    rw [operandSizes, List.length_cons]
    omega

/-- The operands of a list are complete, if each of them is where it stands. -/
theorem complete_operandParts {operands : List Expr}
    (h : ∀ operand ∈ operands, ∀ offset depth, offset + operand.size < 2 ^ 32 →
      Complete (operand.instructions name literal offset depth))
    (offset depth : Nat) (fits : offset + operandSizes 0 operands < 2 ^ 32) :
    ∀ part ∈ operandParts name literal offset depth operands, Complete part := by
  induction operands generalizing offset with
  | nil => simp [operandParts]
  | cons operand rest ih =>
    rw [List.forall_mem_cons] at h
    rw [operandSizes] at fits
    rw [operandParts, List.forall_mem_cons]
    exact ⟨h.1 offset depth (by omega), ih h.2 _ (by omega)⟩

/-- A keyword takes its operands behind the name, and knows where those begin that it skips to. -/
theorem takes_keyword (name : String → UInt32) (literal : StringId → UInt32) (offset depth : Nat)
    {keyword : Keyword} {operands : List Expr}
    (arity : operands.length = keyword.arity)
    (leading : ∀ operand ∈ operands.take keyword.names, operand.symbol?.isSome)
    (inner : ∀ operand ∈ operands.drop keyword.names, operand.WellFormed)
    (fits : offset + 1 + keyword.names + keyword.gaps + operandSizes keyword.names operands <
      2 ^ 32) :
    (keywordInstruction name offset depth keyword operands).Takes
      (operandParts name literal (offset + 1 + keyword.names + keyword.gaps) depth
        (operands.drop keyword.names)) := by
  rw [operandSizes_eq_drop] at fits
  have named := length_leadingNames arity leading
  have count : (operands.drop keyword.names).length = keyword.arity - keyword.names := by
    rw [List.length_drop, arity]
  unfold keywordInstruction
  generalize leadingNames keyword operands = names at named
  generalize operands.drop keyword.names = rest at inner fits count
  cases keyword with
  | define | assign | item =>
    obtain ⟨text, rfl⟩ := List.length_eq_one_iff.1 named
    obtain ⟨a, rfl⟩ := List.length_eq_one_iff.1 count
    rfl
  | assignItem =>
    obtain ⟨text, rfl⟩ := List.length_eq_one_iff.1 named
    obtain ⟨a, b, rfl⟩ := List.length_eq_two.1 count
    simp only [List.forall_mem_cons] at inner
    simp only [operandSizes, Keyword.names, Keyword.gaps] at fits
    refine ⟨_, _, rfl, ?_⟩
    rw [start?_instructions inner.2.1]
    exact congrArg some (toNat_toUInt32 (by simp only [Keyword.names, Keyword.gaps]; omega)).symm
  | branch =>
    obtain rfl := List.length_eq_zero_iff.1 named
    obtain ⟨a, b, c, rfl⟩ := List.length_eq_three.1 count
    simp only [List.forall_mem_cons] at inner
    simp only [operandSizes, Keyword.names, Keyword.gaps] at fits
    refine ⟨_, _, _, rfl, ?_, ?_⟩
    · rw [start?_instructions inner.2.1]
      exact congrArg some (toNat_toUInt32 (by simp only [Keyword.names, Keyword.gaps]; omega)).symm
    · rw [start?_instructions inner.2.2.1]
      exact congrArg some (toNat_toUInt32 (by simp only [Keyword.names, Keyword.gaps]; omega)).symm

/-- An operator takes as many expressions as it counts. -/
theorem takes_operator (offset depth : Nat) {op : Opcode} {head : Expr}
    (shape : Shape.ofHead head = .operator op) {parts : List (List Instruction)} {count : Nat}
    (length : parts.length = count) (fits : count < 2 ^ 32) :
    Takes ⟨offset, depth, op, [count.toUInt32]⟩ parts := by
  have kind := Shape.operands_of_operator shape
  have plain : op.operands = .count ∧ parts.length = count.toUInt32.toNat :=
    ⟨kind, length.trans (toNat_toUInt32 fits).symm⟩
  cases op with
  | call => cases Shape.isSome_operator? shape
  | _ => first | exact plain | cases kind

/-- Brackets around what an instruction takes. -/
theorem complete_bracket (offset depth : Nat) {past : Nat} {select : Instruction}
    {parts : List (List Instruction)} (takes : select.Takes parts)
    (inner : ∀ part ∈ parts, Complete part) (positive : 0 < past) (fits : past < 2 ^ 32) :
    Complete (⟨offset, depth, .enter, [past.toUInt32]⟩ ::
      (select :: parts.flatten ++ [⟨past - 1, depth, .leave, []⟩])) := by
  refine .list rfl rfl rfl ?_ takes inner
  show past.toUInt32.toNat = past - 1 + 1
  rw [toNat_toUInt32 fits]
  omega

/-- The instructions of a well-formed expression are complete, if a word can hold the offset behind
it. -/
theorem complete_instructions {e : Expr} (h : e.WellFormed) (offset depth : Nat)
    (fits : offset + e.size < 2 ^ 32) :
    Complete (e.instructions name literal offset depth) := by
  induction h generalizing offset depth with
  | number value => exact .atom (.inl rfl)
  | symbol text => exact .atom (.inr (.inl rfl))
  | string id => exact .atom (.inr (.inr rfl))
  | @keyword keyword head operands shape arity leading inner ih =>
    have positive := Nat.add_pos_right offset (size_pos (.keyword shape arity leading inner))
    have bound := fits
    simp only [size, shape] at bound
    have takes := takes_keyword name literal (offset + 2) (depth + 1) arity leading inner (by omega)
    have parts := complete_operandParts ih (offset + 2 + 1 + keyword.names + keyword.gaps)
      (depth + 1) (by rw [← operandSizes_eq_drop]; omega)
    have list := complete_bracket offset (depth + 1) takes parts positive fits
    rw [flatten_operandParts, ← operandInstructions_eq_drop] at list
    simpa only [instructions, shape] using list
  | @operator op head operands shape inner ih =>
    have positive := Nat.add_pos_right offset (size_pos (.operator shape inner))
    have bound := fits
    simp only [size, shape] at bound
    have count := length_le_operandSizes inner
    have takes := takes_operator (offset + 2) (depth + 1) shape
      (length_operandParts name literal (offset + 4) (depth + 1) operands) (by omega)
    have parts := complete_operandParts ih (offset + 4) (depth + 1) (by omega)
    have list := complete_bracket offset (depth + 1) takes parts positive fits
    rw [flatten_operandParts] at list
    simpa only [instructions, shape] using list
  | @call head operands shape callee inner ihhead ih =>
    have positive := Nat.add_pos_right offset (size_pos (.call shape callee inner))
    have bound := fits
    simp only [size, shape] at bound
    have count := length_le_operandSizes inner
    -- the callee is the first of the expressions that a call takes
    let parts := head.instructions name literal (offset + 4) (depth + 1) ::
      operandParts name literal (offset + 4 + head.size) (depth + 1) operands
    have takes : Takes ⟨offset + 2, depth + 1, .call, [operands.length.toUInt32]⟩ parts := by
      show parts.length = operands.length.toUInt32.toNat + 1
      rw [toNat_toUInt32 (by omega), List.length_cons, length_operandParts]
    have complete : ∀ part ∈ parts, Complete part := by
      rw [List.forall_mem_cons]
      exact ⟨ihhead _ _ (by omega), complete_operandParts ih _ _ (by omega)⟩
    have list := complete_bracket offset (depth + 1) takes complete positive fits
    rw [List.flatten_cons, flatten_operandParts] at list
    simpa only [instructions, shape] using list

/-- A word can hold the offset behind an expression that compiled by itself. -/
theorem Emitted.size_lt {numbering : Numbering} {e : Expr} {table : StringTable} {a' : Assembler}
    (h : Emitted numbering e ⟨#[], #[], table⟩ a') : 0 + e.size < 2 ^ 32 := by
  have fits := h.fits
  cases e with
  | list items => exact fits
  | _ => simp [Expr.size]

/-- The code of a form that compiles decodes to one complete expression. -/
theorem wellBracketed_of_compile {numbering : Numbering} {e : Expr} {table : StringTable}
    {block : Block} (h : (e.compile numbering table).1 = .ok block) :
    ∃ instructions, decode numbering block.code.toList = .ok instructions ∧
      WellBracketed block.code.size instructions := by
  have emitted := assemble_emitted numbering e (assemble_of_compile (Prod.ext h rfl))
  have wellFormed := emitted.wellFormed
  have code : block.code.toList =
      e.words (e.compile numbering table).2.wordOf StringId.index numbering 0 0 :=
    emitted.code_eq _ (StringTable.le_refl _) 0
  have size : block.code.size = 0 + e.size := emitted.size_eq
  refine ⟨e.instructions (e.compile numbering table).2.wordOf StringId.index 0 0, ?_, ?_⟩
  · rw [code]
    exact decode_words wellFormed
  · rw [size]
    exact (complete_instructions wellFormed 0 0 emitted.size_lt).wellBracketed
      (chain_instructions wellFormed 0 0)

/-- A conditional with a call, an item assignment and an operator inside of it, whose code holds
operand words that are opcode words, too. -/
theorem wellBracketed_of_compile_conditional :
    ∃ block, ((list [symbol "if", list [symbol "f", string ⟨101⟩],
        list [symbol "lset", symbol "x", string ⟨100⟩, list [symbol "+"]],
        list [list [symbol "g"]]]).compile .standard .empty).1 = .ok block ∧
      ∃ instructions, decode .standard block.code.toList = .ok instructions ∧
        WellBracketed 40 instructions := by
  have compiled : ((list [symbol "if", list [symbol "f", string ⟨101⟩],
      list [symbol "lset", symbol "x", string ⟨100⟩, list [symbol "+"]],
      list [list [symbol "g"]]]).compile .standard .empty).1 =
      .ok ⟨#[100, 40, 107, 14, 27,
        100, 14, 124, 1, 103, 0, 106, 101, 101,
        100, 27, 127, 1, 21, 106, 100, 100, 26, 108, 0, 101, 101,
        100, 39, 124, 0, 100, 38, 124, 0, 103, 2, 101, 101, 101], [10, 12, 17, 20, 36]⟩ := by
    decide +kernel
  exact ⟨_, compiled, wellBracketed_of_compile compiled⟩

end Expr

end Libretto.Script
