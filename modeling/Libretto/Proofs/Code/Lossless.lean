/-
Decoding loses nothing.

Words that come from elsewhere may be no code at all.  Those that decode can be had back from their
instructions, and decoding stops at the first word that begins no instruction.

* **`Disassembles`** — instructions are those of a list of words: they consist of these words, and
  stand at the offsets and depths that the words give them;
* **`Stops`** — what stands at an offset is no instruction;
* **`exists_chain`** — any words are a row of instructions, and then the end or a stop;
* **`decode_lossless`** — hence decoding finds exactly the instructions of the words, and fails
  exactly at the first stop.

Operands are never looked at, so they may be anything; brackets need not match.
-/
import Libretto.Proofs.Code.Decoding

namespace Libretto.Script

/-- The offset at which decoding fails. -/
def DecodeError.offset : DecodeError → Nat
  | unknownOpcode offset _ | truncated offset _ => offset

namespace Instruction

/-- The lists that are open behind an instruction, if `depth` ones are open in front of it.  Where
none is open, a closing closes none. -/
def countLists (depth : Nat) (i : Instruction) : Nat :=
  match i.op with
  | .enter => depth + 1
  | .leave => depth - 1
  | _ => depth

/-- The instructions are those of the words: an instruction stands behind as many words as those in
front of it have, and inside of the lists that those have left open.  One that opens a list is
inside of it, and so is the one that closes it. -/
structure Disassembles (numbering : Numbering) (offset depth : Nat) (code : List UInt32)
    (instructions : List Instruction) : Prop where
  words : instructions.flatMap (encode numbering) = code
  offset : ∀ front i back, instructions = front ++ i :: back →
    i.offset = offset + (front.flatMap (encode numbering)).length
  depth : ∀ front i back, instructions = front ++ i :: back →
    i.depth = front.foldl countLists depth + if i.op = .enter then 1 else 0
  count : ∀ i ∈ instructions, i.operands.length = i.op.operands.words

/-- The words, which begin at an offset, do not begin with an instruction. -/
inductive Stops (numbering : Numbering) (offset : Nat) : List UInt32 → DecodeError → Prop where
  | unknown {word : UInt32} {rest : List UInt32} (unused : ∀ op, numbering.word op ≠ word) :
      Stops numbering offset (word :: rest) (.unknownOpcode offset word)
  | truncated {op : Opcode} {rest : List UInt32} (short : rest.length < op.operands.words) :
      Stops numbering offset (numbering.word op :: rest) (.truncated offset op)

variable {numbering : Numbering} {offset depth past depthPast : Nat}

/-! ### Chains and their words -/

theorem depthAt_eq (depth : Nat) (op : Opcode) :
    depthAt depth op = depth + if op = .enter then 1 else 0 := by
  rw [depthAt]
  split <;> rfl

theorem depthBehind_eq (depth : Nat) (i : Instruction) :
    depthBehind (depthAt depth i.op) i.op = countLists depth i := by
  obtain ⟨offset, depth', op, operands⟩ := i
  cases op <;> rfl

/-- A chain is that of its words. -/
theorem Chain.disassembles {instructions : List Instruction}
    (h : Chain offset depth instructions past depthPast) :
    Disassembles numbering offset depth (instructions.flatMap (encode numbering)) instructions := by
  refine ⟨rfl, ?_, ?_, h.count⟩
  · intro front i back split
    induction front generalizing offset depth instructions with
    | nil =>
      subst split
      show i.offset = offset
      exact h.uncons.1
    | cons first front ih =>
      subst split
      have behind := ih h.uncons.2.2.2 rfl
      rw [behind, List.flatMap_cons, List.length_append, encode, List.length_cons]
      omega
  · intro front i back split
    induction front generalizing offset depth instructions with
    | nil =>
      subst split
      show i.depth = depth + if i.op = .enter then 1 else 0
      rw [← depthAt_eq]
      exact h.uncons.2.1
    | cons first front ih =>
      subst split
      have behind := ih h.uncons.2.2.2 rfl
      rw [depthBehind_eq] at behind
      exact behind

/-- The instructions of any words are a chain. -/
theorem Disassembles.chain {code : List UInt32} {instructions : List Instruction}
    (h : Disassembles numbering offset depth code instructions) :
    ∃ past depthPast, Chain offset depth instructions past depthPast := by
  induction instructions generalizing offset depth code with
  | nil => exact ⟨offset, depth, .nil offset depth⟩
  | cons i rest ih =>
    have here := h.offset [] i rest rfl
    have inside := h.depth [] i rest rfl
    have count := h.count i List.mem_cons_self
    have behind : Disassembles numbering (offset + 1 + i.operands.length) (countLists depth i)
        (rest.flatMap (encode numbering)) rest := by
      refine ⟨rfl, ?_, ?_, fun j mem => h.count j (List.mem_cons_of_mem i mem)⟩
      · intro front j back split
        have above := h.offset (i :: front) j back (congrArg (i :: ·) split)
        rw [above, List.flatMap_cons, List.length_append, encode, List.length_cons]
        omega
      · intro front j back split
        exact h.depth (i :: front) j back (congrArg (i :: ·) split)
    obtain ⟨past, depthPast, chain⟩ := ih behind
    refine ⟨past, depthPast, ?_⟩
    obtain ⟨offset', depth', op, operands⟩ := i
    obtain rfl : offset' = offset := here
    obtain rfl : depth' = depthAt depth op := inside.trans (depthAt_eq depth op).symm
    rw [← depthBehind_eq] at chain
    exact .cons count chain

/-! ### Any words -/

/-- Where no instruction begins, decoding fails. -/
theorem Stops.decodeFrom_eq {code : List UInt32} {e : DecodeError}
    (h : Stops numbering offset code e) : decodeFrom numbering offset depth code = .error e := by
  cases h with
  | @unknown word rest unused =>
    have unknown : numbering.decode word = none := by
      cases found : numbering.decode word with
      | none => rfl
      | some op => exact absurd (Numbering.decode_eq_some_iff.1 found) (unused op)
    rw [decodeFrom, unknown]
  | @truncated op rest short =>
    rw [decodeFrom, Numbering.decode_word]
    dsimp only
    -- the rows of the match ask for more words than there are, but for the last one
    split
    · next words => exact absurd short (by omega)
    · next words => exact absurd short (by rw [words, List.length_cons]; omega)
    · next words => exact absurd short (by rw [words, List.length_cons, List.length_cons]; omega)
    · rfl

theorem Stops.offset_eq {code : List UInt32} {e : DecodeError}
    (h : Stops numbering offset code e) : e.offset = offset := by
  cases h <;> rfl

/-- Any words are those of a chain, and behind it is the end or no instruction. -/
theorem exists_chain (numbering : Numbering) (offset depth : Nat) (code : List UInt32) :
    ∃ front rest past depthPast, Chain offset depth front past depthPast ∧
      code = front.flatMap (encode numbering) ++ rest ∧
        (rest = [] ∨ ∃ e, Stops numbering past rest e) := by
  -- every instruction takes a word at least, so the words behind it are fewer
  induction h : code.length using Nat.strongRecOn generalizing offset depth code with
  | ind n ih =>
    match code with
    | [] => exact ⟨[], [], offset, depth, .nil offset depth, rfl, .inl rfl⟩
    | word :: rest =>
      by_cases used : ∃ op, numbering.word op = word
      · obtain ⟨op, rfl⟩ := used
        by_cases short : rest.length < op.operands.words
        · exact ⟨[], _, offset, depth, .nil offset depth, rfl, .inr ⟨_, .truncated short⟩⟩
        · let operands := rest.take op.operands.words
          have count : operands.length = op.operands.words :=
            List.length_take_of_le (Nat.not_lt.1 short)
          have fewer : (rest.drop op.operands.words).length < n := by
            rw [List.length_cons] at h
            rw [List.length_drop]
            omega
          obtain ⟨front, behind, past, depthPast, chain, parts, ends⟩ := ih _ fewer
            (offset + 1 + operands.length) (depthBehind (depthAt depth op) op) _ rfl
          refine ⟨⟨offset, depthAt depth op, op, operands⟩ :: front, behind, past, depthPast,
            .cons count chain, ?_, ends⟩
          rw [List.flatMap_cons, List.append_assoc, ← parts, encode, List.cons_append,
            List.take_append_drop]
      · have unused : ∀ op, numbering.word op ≠ word := fun op same => used ⟨op, same⟩
        exact ⟨[], _, offset, depth, .nil offset depth, rfl, .inr ⟨_, .unknown unused⟩⟩

theorem decode_of_chain {instructions : List Instruction}
    (h : Chain 0 0 instructions past depthPast) :
    decode numbering (instructions.flatMap (encode numbering)) = .ok instructions := by
  have run := decodeFrom_chain numbering h []
  rw [List.append_nil] at run
  rw [decode, run, decodeFrom]
  exact congrArg Except.ok (List.append_nil instructions)

theorem decode_of_stops {front : List Instruction} {rest : List UInt32} {e : DecodeError}
    (h : Chain 0 0 front past depthPast) (stops : Stops numbering past rest e) :
    decode numbering (front.flatMap (encode numbering) ++ rest) = .error e := by
  rw [decode, decodeFrom_chain numbering h rest, stops.decodeFrom_eq]
  rfl

theorem Chain.past_eq_length (numbering : Numbering) {instructions : List Instruction}
    (h : Chain offset depth instructions past depthPast) :
    past = offset + (instructions.flatMap (encode numbering)).length := by
  induction h with
  | nil => rfl
  | cons _ _ ih =>
    rw [ih, List.flatMap_cons, List.length_append, encode, List.length_cons]
    dsimp only
    omega

/-- Decoding finds the chains that have the words. -/
theorem decode_eq_ok_iff {code : List UInt32} {instructions : List Instruction} :
    decode numbering code = .ok instructions ↔
      (∃ past depthPast, Chain 0 0 instructions past depthPast) ∧
        instructions.flatMap (encode numbering) = code := by
  constructor
  · intro decoded
    obtain ⟨front, rest, past, depthPast, chain, rfl, ends⟩ := exists_chain numbering 0 0 code
    rcases ends with rfl | ⟨e, stops⟩
    · rw [List.append_nil] at decoded ⊢
      obtain rfl := Except.ok.inj ((decode_of_chain chain).symm.trans decoded)
      exact ⟨⟨past, depthPast, chain⟩, rfl⟩
    · cases (decode_of_stops chain stops).symm.trans decoded
  · rintro ⟨⟨past, depthPast, chain⟩, rfl⟩
    exact decode_of_chain chain

/-- Decoding fails where the words in front decode and no instruction begins. -/
theorem decode_eq_error_iff {code : List UInt32} {e : DecodeError} :
    decode numbering code = .error e ↔
      (∃ instructions, decode numbering (code.take e.offset) = .ok instructions) ∧
        Stops numbering e.offset (code.drop e.offset) e := by
  constructor
  · intro failed
    obtain ⟨front, rest, past, depthPast, chain, rfl, ends⟩ := exists_chain numbering 0 0 code
    rcases ends with rfl | ⟨e', stops⟩
    · rw [List.append_nil] at failed
      cases (decode_of_chain chain).symm.trans failed
    · obtain rfl := Except.error.inj ((decode_of_stops chain stops).symm.trans failed)
      have here : (front.flatMap (encode numbering)).length = past := by
        rw [chain.past_eq_length numbering, Nat.zero_add]
      rw [stops.offset_eq, List.take_left' here, List.drop_left' here]
      exact ⟨⟨front, decode_of_chain chain⟩, stops⟩
  · rintro ⟨⟨front, decoded⟩, stops⟩
    obtain ⟨⟨past, depthPast, chain⟩, words⟩ := decode_eq_ok_iff.1 decoded
    -- a stop is in front of the end, so the words in front of it reach up to it
    have inside : e.offset < code.length := by
      refine Nat.lt_of_not_le fun beyond => ?_
      rw [List.drop_eq_nil_of_le beyond] at stops
      cases stops
    have here : past = e.offset := by
      rw [chain.past_eq_length numbering, words,
        List.length_take_of_le (Nat.le_of_lt inside), Nat.zero_add]
    subst here
    have failed := decode_of_stops chain stops
    rwa [words, List.take_append_drop] at failed

/-- Opcodes with operands of the right number make a chain, wherever they stand. -/
theorem exists_chain_of_parts {parts : List (Opcode × List UInt32)}
    (sized : ∀ part ∈ parts, part.2.length = part.1.operands.words) (offset depth : Nat) :
    ∃ instructions past depthPast, Chain offset depth instructions past depthPast ∧
      instructions.map (fun i => (i.op, i.operands)) = parts := by
  induction parts generalizing offset depth with
  | nil => exact ⟨[], offset, depth, .nil offset depth, rfl⟩
  | cons part rest ih =>
    obtain ⟨op, operands⟩ := part
    rw [List.forall_mem_cons] at sized
    obtain ⟨instructions, past, depthPast, chain, same⟩ := ih sized.2
      (offset + 1 + operands.length) (depthBehind (depthAt depth op) op)
    exact ⟨_, past, depthPast, .cons sized.1 chain, congrArg ((op, operands) :: ·) same⟩

/-- Decoding loses nothing, whatever the words.  It finds exactly their instructions, so any opcodes
with operand words of the right number are read back from their words.  Where it fails, the words in
front decode and no instruction begins. -/
theorem decode_lossless (numbering : Numbering) :
    (∀ code instructions, decode numbering code = .ok instructions ↔
      Disassembles numbering 0 0 code instructions) ∧
    (∀ parts : List (Opcode × List UInt32),
      (∀ part ∈ parts, part.2.length = part.1.operands.words) →
        ∃ instructions,
          decode numbering (parts.flatMap fun part => numbering.word part.1 :: part.2) =
            .ok instructions ∧ instructions.map (fun i => (i.op, i.operands)) = parts) ∧
    ∀ code e, decode numbering code = .error e ↔
      (∃ instructions, decode numbering (code.take e.offset) = .ok instructions) ∧
        Stops numbering e.offset (code.drop e.offset) e := by
  refine ⟨?_, ?_, fun code e => decode_eq_error_iff⟩
  · intro code instructions
    rw [decode_eq_ok_iff]
    constructor
    · rintro ⟨⟨past, depthPast, chain⟩, rfl⟩
      exact chain.disassembles
    · intro disassembles
      exact ⟨disassembles.chain, disassembles.words⟩
  · intro parts sized
    obtain ⟨instructions, past, depthPast, chain, rfl⟩ := exists_chain_of_parts sized 0 0
    refine ⟨instructions, ?_, rfl⟩
    rw [List.flatMap_map]
    exact decode_of_chain chain

/-- Closings without an opening, offsets that are opcode words, and an instruction that lacks its
last word. -/
theorem decode_lossless_unmatched :
    (∀ part ∈ [(Opcode.leave, ([] : List UInt32)), (.branch, [101, 100]), (.enter, [101]),
      (.leave, [])], part.2.length = part.1.operands.words) ∧
    (∃ instructions,
      decode .standard [101, 107, 101, 100, 100, 101, 101] = .ok instructions ∧
        instructions.map (fun i => (i.op, i.operands)) =
          [(.leave, []), (.branch, [101, 100]), (.enter, [101]), (.leave, [])]) ∧
    Disassembles .standard 0 0 [101, 100, 101, 101]
      [⟨0, 0, .leave, []⟩, ⟨1, 1, .enter, [101]⟩, ⟨3, 1, .leave, []⟩] ∧
    decode .standard [101, 127, 100] = .error (.truncated 1 .assignItem) := by
  obtain ⟨succeeds, parts, fails⟩ := decode_lossless .standard
  have sized : ∀ part ∈ [(Opcode.leave, ([] : List UInt32)), (.branch, [101, 100]),
      (.enter, [101]), (.leave, [])], part.2.length = part.1.operands.words := by decide
  have short : [(100 : UInt32)].length < Opcode.assignItem.operands.words := by decide
  exact ⟨sized, parts _ sized, (succeeds _ _).1 rfl, (fails _ _).2 ⟨⟨_, rfl⟩, .truncated short⟩⟩

end Instruction

end Libretto.Script
