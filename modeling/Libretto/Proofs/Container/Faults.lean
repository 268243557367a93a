/-
The fault at which writing stops.

Where a step leads to, and whether it fails, depends on the size of the stream and not on its bytes.
`Ends position w fault result next` says so: on every stream of that size the step fails with the
fault, or gives the result and leads to `next` if there is none.

* **`fault?`** — the fault of a run;
* **`Ends.bind`** — steps compose: the first fault counts;
* **`ends_patchHere`** — no fault in filling a reserved word, as long as the offset fits a word;
* **`ends_pieces`**, **`ends_forM`** — loops stop at the first item with a fault.
-/
import Libretto.Proofs.Container.Capacity
import Libretto.Proofs.Outcome

namespace Libretto.Binary

namespace Writer

variable {α β : Type}

/-- The fault of a step on a stream, if it fails. -/
def fault? (w : Writer α) (stream : Stream) : Option ExportError :=
  match w stream with
  | .ok _ _ => none
  | .error e _ => some e

/-- What a step does on every stream of the given size: it fails with the fault, or without one it
gives the result and leads to the next position. -/
def Ends (position : Nat) (w : Writer α) (fault : Option ExportError) (result : α) (next : Nat) :
    Prop :=
  ∀ stream : Stream, stream.size = position →
    match w stream with
    | .ok a later => fault = none ∧ a = result ∧ later.size = next
    | .error e _ => fault = some e

variable {start middle stop : Nat} {fault fault' : Option ExportError}

theorem Ends.fault?_eq {w : Writer α} {result : α} {stream : Stream}
    (h : Ends stream.size w fault result stop) : fault? w stream = fault := by
  have ends := h stream rfl
  rw [fault?]
  cases run : w stream with
  | ok a later =>
    rw [run] at ends
    exact ends.1.symm
  | error e later =>
    rw [run] at ends
    exact ends.symm

/-- A step without a fault gives its result. -/
theorem Ends.runs {w : Writer α} {result : α} {stream : Stream}
    (h : Ends stream.size w none result stop) :
    ∃ later, w stream = .ok result later ∧ later.size = stop := by
  have ends := h stream rfl
  cases run : w stream with
  | ok a later =>
    rw [run] at ends
    obtain ⟨-, rfl, there⟩ := ends
    exact ⟨later, rfl, there⟩
  | error e later =>
    rw [run] at ends
    cases ends

theorem run_of_fault? {w : Writer α} {stream : Stream} {e : ExportError}
    (h : fault? w stream = some e) : ∃ later, w stream = .error e later := by
  rw [fault?] at h
  cases run : w stream with
  | ok a later =>
    rw [run] at h
    cases h
  | error found later =>
    rw [run] at h
    exact ⟨later, congrArg (EStateM.Result.error · later) (Option.some.inj h)⟩

/-- Steps compose, and the first fault counts. -/
theorem Ends.bind {x : Writer α} {f : α → Writer β} {a : α} {b : β}
    (first : Ends start x fault a middle) (rest : Ends middle (f a) fault' b stop) :
    Ends start (x >>= f) (fault.or fault') b stop := by
  intro stream here
  have ends := first stream here
  simp only [Bind.bind, EStateM.bind]
  cases run : x stream with
  | ok a later =>
    rw [run] at ends
    obtain ⟨rfl, rfl, there⟩ := ends
    exact rest later there
  | error e later =>
    rw [run] at ends
    obtain rfl := ends
    rfl

theorem Ends.seq {x : Writer Unit} {y : Writer β} {b : β} (first : Ends start x fault () middle)
    (rest : Ends middle y fault' b stop) :
    Ends start (x >>= fun _ => y) (fault.or fault') b stop :=
  first.bind rest

/-! ### Single steps -/

theorem ends_pure (result : α) : Ends start (pure result) none result start :=
  fun _ here => ⟨rfl, rfl, here⟩

theorem ends_throw (e : ExportError) (result : α) : Ends start (throw e) (some e) result stop :=
  fun _ _ => rfl

theorem ends_bytes (bytes : List UInt8) :
    Ends start (writeBytes bytes) none () (start + bytes.length) := by
  intro stream here
  have run : writeBytes bytes stream = .ok () (.ofList (stream.bytes.toList ++ bytes)) :=
    writeBytes_apply bytes stream.bytes.toList
  rw [run]
  exact ⟨rfl, rfl, by simp [← here, Stream.size, Stream.ofList]⟩

theorem ends_tag (tag : Tag) : Ends start (writeTag tag) none () (start + 4) :=
  ends_bytes _

theorem ends_word (word : UInt32) : Ends start (writeWord word) none () (start + 4) :=
  length_wordBytes word ▸ ends_bytes (wordBytes word)

theorem ends_count (count : Nat) : Ends start (writeCount count) none () (start + 4) :=
  ends_word _

theorem ends_position : Ends start position none start start :=
  fun _ here => ⟨rfl, here, here⟩

theorem ends_reserve : Ends start reserve none start (start + 4) :=
  ends_position.bind ((ends_word 0).bind (ends_pure start))

theorem ends_align (boundary : Nat) :
    Ends start (align boundary) none () (aligned boundary start) := by
  have padded : Ends start (writeBytes (List.replicate (padding boundary start) 0)) none () _ :=
    ends_bytes _
  rw [List.length_replicate] at padded
  exact ends_position.bind padded

theorem ends_offsetFrom {top : Nat} (small : start < top + 2 ^ 32) :
    Ends start (offsetFrom top) none (start - top).toUInt32 start := by
  have fits : start - top < 0x100000000 := by omega
  refine ends_position.bind ?_
  rw [if_pos fits]
  exact ends_pure _

theorem ends_patch {at_ : Nat} (room : at_ + 4 ≤ start) (word : UInt32) :
    Ends start (patch at_ word) none () start := by
  refine ends_position.bind ?_
  rw [if_pos room]
  intro stream here
  have size : (Stream.mk (overwrite stream.bytes at_ (wordBytes word))).size = start := by
    rw [Stream.size, size_overwrite]
    exact here
  exact ⟨rfl, rfl, size⟩

/-- A reserved word is filled, if it can hold the offset. -/
theorem ends_patchHere {at_ top : Nat} (room : at_ + 4 ≤ start) (small : start < top + 2 ^ 32) :
    Ends start (patchHere at_ top) none () start :=
  (ends_offsetFrom small).bind (ends_patch room _)

end Writer

open Writer

/-! ### Loops -/

section Loops

variable {ι : Type} {items : List ι} {write : ι → Writer Unit} {fault : ι → Option ExportError}
  {position : Nat}

/-- Items of one size, one behind the other. -/
theorem ends_forM {size : Nat} (each : ∀ item ∈ items, ∀ start,
      Ends start (write item) (fault item) () (start + size)) :
    Ends position (items.forM write) (items.findSome? fault) ()
      (position + size * items.length) := by
  induction items generalizing position with
  | nil => exact ends_pure ()
  | cons item rest ih =>
    rw [List.forall_mem_cons] at each
    have stop : position + size * (item :: rest).length =
        position + size + size * rest.length := by
      rw [List.length_cons, Nat.mul_succ]
      omega
    rw [findSome?_cons_eq_or, stop]
    exact (each.1 position).seq (ih each.2)

/-- The loop that places pieces stops at the first piece with a fault, as long as the table stands
in front of the pieces and a word can hold where they end. -/
theorem ends_pieces {boundary top : Nat} {size : ι → Nat} {entries : List Nat}
    (each : ∀ item ∈ items, ∀ start, start % boundary = 0 →
      Ends start (write item) (fault item) () (start + size item))
    (positive : 0 < boundary) (count : entries.length = items.length)
    (room : ∀ entry ∈ entries, entry + 4 ≤ position)
    (small : extent boundary position (items.map size) < top + 2 ^ 32) :
    Ends position (writePiecesBy offsetFrom boundary top ((items.map write).zip entries))
      (items.findSome? fault) () (extent boundary position (items.map size)) := by
  induction items generalizing position entries with
  | nil => exact ends_pure ()
  | cons item rest ih =>
    cases entries with
    | nil => cases count
    | cons entry entries =>
      rw [List.forall_mem_cons] at each room
      have stop : extent boundary position ((item :: rest).map size) =
          extent boundary (aligned boundary position + size item) (rest.map size) := rfl
      rw [stop] at small ⊢
      have here := le_aligned boundary position
      have behind := le_extent boundary (aligned boundary position + size item) (rest.map size)
      have patched : Ends (aligned boundary position) (patchHere entry top) none () _ :=
        ends_patchHere (by omega) (by omega)
      have written := each.1 _ (add_padding_mod positive position)
      have more := ih each.2 (Nat.succ.inj count)
        (fun other mem => by have := room.2 other mem; omega) small
      rw [List.map_cons, List.zip_cons_cons, writePiecesBy, findSome?_cons_eq_or]
      exact (ends_align boundary).seq (patched.seq (written.seq more))

end Loops

/-! ### Tables -/

/-- The entries of blocks take eight bytes each. -/
theorem ends_entries (blocks : List Script.Block) (position : Nat) :
    Ends position (writeEntries blocks) none (List.range' position blocks.length 8)
      (position + 8 * blocks.length) := by
  induction blocks generalizing position with
  | nil => exact ends_pure []
  | cons block rest ih =>
    have stop : position + 8 * (block :: rest).length = position + 4 + 4 + 8 * rest.length := by
      rw [List.length_cons]
      omega
    rw [writeEntries, List.length_cons, List.range'_succ, ← List.length_cons, stop]
    exact ends_reserve.bind ((ends_count _).seq ((ih _).bind (ends_pure _)))

theorem ends_reserveMany (count position : Nat) :
    Ends position (reserveMany count) none (List.range' position count 4)
      (position + 4 * count) := by
  induction count generalizing position with
  | zero => exact ends_pure []
  | succ count ih =>
    have stop : position + 4 * (count + 1) = position + 4 + 4 * count := by omega
    rw [reserveMany, List.range'_succ, stop]
    exact ends_reserve.bind ((ih _).bind (ends_pure _))

/-- An entry of a table ends where the table ends, at the latest. -/
theorem entry_le {position count step entry stop : Nat} (wide : 4 ≤ step)
    (mem : entry ∈ List.range' position count step) (behind : position + step * count ≤ stop) :
    entry + 4 ≤ stop := by
  obtain ⟨i, bound, rfl⟩ := List.mem_range'.1 mem
  have le := Nat.mul_le_mul_left step (Nat.succ_le_of_lt bound)
  rw [Nat.mul_succ] at le
  omega

end Libretto.Binary
