/-
Writing in steps.

A container is written behind whatever the stream holds already, and its offsets count from its own
first byte.  `Writes front w before result after` says what a step does there: behind `front` it
turns `before` into `after`, unless what it writes outgrows the offsets.  Then it fails with an
overflow, and `front` stands as it was.

* **`Writes.bind`** — steps compose;
* **`Seals`** — the same of steps that end with an offset to their end, which decides the outcome;
* **`Writes.behind`** — a container inside of a container is a step of the outer one;
* **`writes_bytes`**, **`writes_reserve`**, **`writes_align`**, **`writes_patchHere`** — the single
  steps.

Bytes are lists here; a patch splits them around the reserved word.
-/
import Libretto.Binary.Stream
import Mathlib.Algebra.Group.Nat.Defs

namespace Libretto.Binary

/-- The stream with the given bytes. -/
def Stream.ofList (bytes : List UInt8) : Stream :=
  ⟨bytes.toArray⟩

namespace Writer

/-- Overwriting replaces as many bytes as it is given. -/
theorem overwrite_append {old new : List UInt8} (front back : List UInt8)
    (length : old.length = new.length) :
    overwrite (front ++ (old ++ back)).toArray front.length new =
      (front ++ (new ++ back)).toArray := by
  induction new generalizing old front with
  | nil =>
    obtain rfl := List.length_eq_zero_iff.1 length
    rfl
  | cons byte rest ih =>
    cases old with
    | nil => cases length
    | cons first old =>
      have next := ih (front ++ [byte]) (Nat.succ.inj length)
      have set : (front ++ (first :: old ++ back)).toArray.setIfInBounds front.length byte =
          (front ++ [byte] ++ (old ++ back)).toArray := by
        simp
      rw [overwrite, set]
      rw [List.length_append, List.length_singleton] at next
      rw [next]
      simp

/-- What a step does behind `front`, unless it outgrows the offsets. -/
structure Writes {α : Type} (front : List UInt8) (w : Writer α) (before : List UInt8) (result : α)
    (after : List UInt8) : Prop where
  grows : before.length ≤ after.length
  run : w (.ofList (front ++ before)) = .ok result (.ofList (front ++ after)) ∨
    2 ^ 32 ≤ after.length ∧ ∃ offset rest,
      w (.ofList (front ++ before)) = .error (.offsetOverflow offset) (.ofList (front ++ rest))

variable {α β : Type} {front before middle after : List UInt8}

theorem Writes.of_run {w : Writer α} {result : α} (grows : before.length ≤ after.length)
    (run : w (.ofList (front ++ before)) = .ok result (.ofList (front ++ after))) :
    Writes front w before result after :=
  ⟨grows, .inl run⟩

/-- Steps compose: what outgrows the offsets in the middle does so at the end. -/
theorem Writes.bind {x : Writer α} {f : α → Writer β} {a : α} {b : β}
    (hx : Writes front x before a middle) (hf : Writes front (f a) middle b after) :
    Writes front (x >>= f) before b after := by
  refine ⟨Nat.le_trans hx.grows hf.grows, ?_⟩
  rcases hx.run with run | ⟨large, offset, rest, run⟩
  · have next : (x >>= f) (.ofList (front ++ before)) = f a (.ofList (front ++ middle)) := by
      simp only [Bind.bind, EStateM.bind, run]
    rw [next]
    exact hf.run
  · refine .inr ⟨Nat.le_trans large hf.grows, offset, rest, ?_⟩
    simp only [Bind.bind, EStateM.bind, run]

theorem Writes.seq {x : Writer Unit} {y : Writer β} {b : β} (hx : Writes front x before () middle)
    (hy : Writes front y middle b after) : Writes front (x >>= fun _ => y) before b after :=
  hx.bind hy

/-- A step that writes nothing but what follows `before` is a step behind it. -/
theorem Writes.behind {w : Writer α} {result : α}
    (h : Writes (front ++ before) w [] result after) :
    Writes front w before result (before ++ after) := by
  have run := h.run
  simp only [List.append_nil, List.append_assoc] at run
  refine ⟨by simp, ?_⟩
  rcases run with run | ⟨large, offset, rest, run⟩
  · exact .inl run
  · refine .inr ⟨?_, offset, before ++ rest, run⟩
    rw [List.length_append]
    omega

theorem writes_pure (result : α) : Writes front (pure result) before result before :=
  .of_run (Nat.le_refl _) rfl

theorem writeBytes_apply (bytes stream : List UInt8) :
    writeBytes bytes (.ofList stream) = .ok () (.ofList (stream ++ bytes)) := by
  have appended : stream.toArray ++ bytes = (stream ++ bytes).toArray := by simp
  exact congrArg (fun array => EStateM.Result.ok () (Stream.mk array)) appended

theorem writes_bytes (bytes : List UInt8) :
    Writes front (writeBytes bytes) before () (before ++ bytes) :=
  .of_run (by simp) (by rw [writeBytes_apply, List.append_assoc])

theorem writes_tag (tag : Tag) : Writes front (writeTag tag) before () (before ++ tag.bytes) :=
  writes_bytes _

theorem writes_word (word : UInt32) :
    Writes front (writeWord word) before () (before ++ wordBytes word) :=
  writes_bytes _

theorem writes_count (count : Nat) :
    Writes front (writeCount count) before () (before ++ wordBytes count.toUInt32) :=
  writes_bytes _

theorem position_apply (bytes : List UInt8) :
    position (.ofList bytes) = .ok bytes.length (.ofList bytes) := rfl

theorem writes_position : Writes front position before (front.length + before.length) before :=
  .of_run (Nat.le_refl _) (by rw [position_apply, List.length_append])

theorem writes_reserve :
    Writes front reserve before (front.length + before.length) (before ++ wordBytes 0) :=
  writes_position.bind ((writes_word 0).bind (writes_pure _))

/-- Padding counts from any aligned position. -/
theorem padding_add {boundary top : Nat} (aligned : top % boundary = 0) (offset : Nat) :
    padding boundary (top + offset) = padding boundary offset := by
  rw [padding, padding, Nat.add_mod, aligned, Nat.zero_add, Nat.mod_mod]

theorem bind_of_ok {s t : Stream} {x : Writer α} {a : α} (f : α → Writer β) (h : x s = .ok a t) :
    (x >>= f) s = f a t := by
  simp only [Bind.bind, EStateM.bind, h]

theorem align_apply (boundary : Nat) (stream : List UInt8) :
    align boundary (.ofList stream) =
      .ok () (.ofList (stream ++ List.replicate (padding boundary stream.length) 0)) := by
  rw [align, bind_of_ok _ (position_apply _), writeBytes_apply]

theorem writes_align {boundary : Nat} (aligned : front.length % boundary = 0) :
    Writes front (align boundary) before ()
      (before ++ List.replicate (padding boundary before.length) 0) := by
  refine .of_run (by simp) ?_
  rw [align_apply, List.length_append, padding_add aligned, List.append_assoc]

theorem offsetFrom_apply (front bytes : List UInt8) :
    offsetFrom front.length (.ofList (front ++ bytes)) =
      if bytes.length < 2 ^ 32 then .ok bytes.length.toUInt32 (.ofList (front ++ bytes))
      else .error (.offsetOverflow bytes.length) (.ofList (front ++ bytes)) := by
  have offset : (front ++ bytes).length - front.length = bytes.length := by
    rw [List.length_append]
    omega
  rw [offsetFrom, bind_of_ok _ (position_apply _), offset]
  by_cases small : bytes.length < 0x100000000
  · rw [if_pos small, if_pos (by omega)]
    rfl
  · rw [if_neg small, if_neg (by omega)]
    rfl

theorem patch_apply {old : List UInt8} (back front : List UInt8) (word : UInt32)
    (length : old.length = 4) :
    patch front.length word (.ofList (front ++ (old ++ back))) =
      .ok () (.ofList (front ++ (wordBytes word ++ back))) := by
  have room : front.length + 4 ≤ (front ++ (old ++ back)).length := by
    simp only [List.length_append]
    omega
  rw [patch, bind_of_ok _ (position_apply _), if_pos room]
  exact congrArg (EStateM.Result.ok ()) (congrArg Stream.mk
    (overwrite_append front back (length.trans (length_wordBytes word).symm)))

/-- A reserved word is filled with the offset that the stream has reached, if a word can hold it. -/
theorem patchHere_apply {position : Nat} {old back : List UInt8}
    (hposition : position = front.length + before.length) (length : old.length = 4) :
    patchHere position front.length (.ofList (front ++ (before ++ (old ++ back)))) =
      if (before ++ (old ++ back)).length < 2 ^ 32 then
        .ok () (.ofList (front ++ (before ++
          (wordBytes (before ++ (old ++ back)).length.toUInt32 ++ back))))
      else .error (.offsetOverflow (before ++ (old ++ back)).length)
        (.ofList (front ++ (before ++ (old ++ back)))) := by
  have offset := offsetFrom_apply front (before ++ (old ++ back))
  by_cases small : (before ++ (old ++ back)).length < 2 ^ 32
  · rw [if_pos small] at offset ⊢
    have patched := patch_apply back (front ++ before)
      (before ++ (old ++ back)).length.toUInt32 length
    rw [List.length_append, ← hposition, List.append_assoc, List.append_assoc] at patched
    rw [patchHere, patchHereBy, bind_of_ok _ offset, patched]
  · rw [if_neg small] at offset ⊢
    simp only [patchHere, patchHereBy, Bind.bind, EStateM.bind, offset]

/-! ### Sealing -/

/-- What steps do that end with an offset to their end: they succeed if a word can hold it. -/
structure Seals (front : List UInt8) (w : Writer Unit) (before after : List UInt8) : Prop where
  grows : before.length ≤ after.length
  success : after.length < 2 ^ 32 →
    w (.ofList (front ++ before)) = .ok () (.ofList (front ++ after))
  failure : 2 ^ 32 ≤ after.length → ∃ offset rest,
    w (.ofList (front ++ before)) = .error (.offsetOverflow offset) (.ofList (front ++ rest))

theorem Writes.seals {x : Writer α} {f : α → Writer Unit} {a : α}
    (hx : Writes front x before a middle) (hf : Seals front (f a) middle after) :
    Seals front (x >>= f) before after := by
  rcases hx.run with run | ⟨large, offset, rest, run⟩
  · have next : (x >>= f) (.ofList (front ++ before)) = f a (.ofList (front ++ middle)) :=
      bind_of_ok f run
    refine ⟨Nat.le_trans hx.grows hf.grows, ?_, ?_⟩
    · rw [next]
      exact hf.success
    · rw [next]
      exact hf.failure
  · -- the step failed, so the offset to the end would not have fitted either
    have large : 2 ^ 32 ≤ after.length := Nat.le_trans large hf.grows
    have failed : (x >>= f) (.ofList (front ++ before)) =
        .error (.offsetOverflow offset) (.ofList (front ++ rest)) := by
      simp only [Bind.bind, EStateM.bind, run]
    exact ⟨Nat.le_trans hx.grows hf.grows, fun small => absurd small (by omega),
      fun _ => ⟨offset, rest, failed⟩⟩

theorem Writes.seq_seals {x y : Writer Unit} (hx : Writes front x before () middle)
    (hy : Seals front y middle after) : Seals front (x >>= fun _ => y) before after :=
  hx.seals hy

theorem Seals.writes {w : Writer Unit} (h : Seals front w before after) :
    Writes front w before () after := by
  refine ⟨h.grows, ?_⟩
  by_cases small : after.length < 2 ^ 32
  · exact .inl (h.success small)
  · exact .inr ⟨by omega, h.failure (by omega)⟩

theorem seals_patchHere {position : Nat} {old back : List UInt8}
    (hposition : position = front.length + before.length) (length : old.length = 4) :
    Seals front (patchHere position front.length) (before ++ (old ++ back))
      (before ++ (wordBytes (before ++ (old ++ back)).length.toUInt32 ++ back)) := by
  have same : (before ++ (old ++ back)).length = (before ++ (wordBytes
      (before ++ (old ++ back)).length.toUInt32 ++ back)).length := by
    simp only [List.length_append, length, length_wordBytes]
  refine ⟨Nat.le_of_eq same, ?_, ?_⟩
  · intro small
    rw [← same] at small
    rw [patchHere_apply hposition length, if_pos small]
  · intro large
    rw [← same] at large
    rw [patchHere_apply hposition length, if_neg (by omega)]
    exact ⟨_, _, rfl⟩

theorem writes_patchHere {position : Nat} {old back : List UInt8}
    (hposition : position = front.length + before.length) (length : old.length = 4) :
    Writes front (patchHere position front.length) (before ++ (old ++ back)) ()
      (before ++ (wordBytes (before ++ (old ++ back)).length.toUInt32 ++ back)) :=
  (seals_patchHere hposition length).writes

end Writer

end Libretto.Binary
