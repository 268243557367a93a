/-
Bytes in regions.

A region is bytes that stand at a position.  Regions that stand one behind the other make up a
whole, with zero bytes between them:

* **`spread`**, **`Ordered`** — the whole, when each region begins where the one in front of it ends
  or later;
* **`MakeUp`** — regions that are in order and make up the given bytes, with `MakeUp.cons`,
  `MakeUp.append` and `MakeUp.moved`: they do so one behind the other, and wherever they begin;
* **`place`** — parts that are made regions, each at the next multiple of a boundary, with
  `makeUp_place` and `table_eq`: pieces are placed so, and their table gives the positions;
* **`LaidOut`** — bytes that regions make up from the first byte on, with `LaidOut.of_makeUp`: each
  region is found where it stands, and every other byte is zero.
-/
import Libretto.Proofs.Container.Pieces
import Libretto.Proofs.Container.Reading

namespace Libretto.Binary

open Writer (padding)

/-- Bytes that stand at a position. -/
structure Region where
  start : Nat
  bytes : List UInt8

namespace Region

/-- The position behind a region. -/
def stop (r : Region) : Nat :=
  r.start + r.bytes.length

/-- The region in bytes that stand at an offset. -/
def moved (offset : Nat) (r : Region) : Region :=
  ⟨offset + r.start, r.bytes⟩

end Region

/-- The bytes of regions from a position on, with zero bytes up to where each begins. -/
def spread (position : Nat) : List Region → List UInt8
  | [] => []
  | r :: rest => List.replicate (r.start - position) 0 ++ (r.bytes ++ spread r.stop rest)

/-- The position behind the last region. -/
def reach (position : Nat) : List Region → Nat
  | [] => position
  | r :: rest => reach r.stop rest

/-- Each region begins where the one in front of it ends, or later. -/
def Ordered (position : Nat) : List Region → Prop
  | [] => True
  | r :: rest => position ≤ r.start ∧ Ordered r.stop rest

/-- Regions that are in order and make up the given bytes from a position on. -/
structure MakeUp (position : Nat) (regions : List Region) (bytes : List UInt8) : Prop where
  ordered : Ordered position regions
  spread_eq : spread position regions = bytes

/-- Parts that are placed from a position on, each at the next multiple of a boundary. -/
def place (boundary position : Nat) : List (List UInt8) → List Region
  | [] => []
  | part :: rest =>
    ⟨aligned boundary position, part⟩ ::
      place boundary (aligned boundary position + part.length) rest

theorem le_aligned (boundary position : Nat) : position ≤ aligned boundary position :=
  Nat.le_add_right _ _

section

variable {position : Nat} {regions more : List Region} {part others : List UInt8}

theorem reach_append (position : Nat) (regions more : List Region) :
    reach position (regions ++ more) = reach (reach position regions) more := by
  induction regions generalizing position with
  | nil => rfl
  | cons r rest ih => exact ih r.stop

theorem MakeUp.cons {start stop : Nat} (le : position ≤ start) (length : start + part.length = stop)
    (tail : MakeUp stop more others) :
    MakeUp position (⟨start, part⟩ :: more)
      (List.replicate (start - position) 0 ++ (part ++ others)) := by
  subst length
  exact ⟨⟨le, tail.ordered⟩, by rw [← tail.spread_eq]; rfl⟩

theorem MakeUp.append (first : MakeUp position regions part)
    (second : MakeUp (reach position regions) more others) :
    MakeUp position (regions ++ more) (part ++ others) := by
  obtain ⟨ordered, rfl⟩ := first
  induction regions generalizing position with
  | nil => exact second
  | cons r rest ih =>
    obtain ⟨le, ordered⟩ := ordered
    have tail := ih second ordered
    refine ⟨⟨le, tail.ordered⟩, ?_⟩
    rw [List.cons_append, spread, tail.spread_eq, spread, List.append_assoc, List.append_assoc]

theorem MakeUp.reach_eq (h : MakeUp position regions part) :
    reach position regions = position + part.length := by
  obtain ⟨ordered, rfl⟩ := h
  induction regions generalizing position with
  | nil => rfl
  | cons r rest ih =>
    obtain ⟨le, ordered⟩ := ordered
    have behind := ih ordered
    rw [reach, behind, spread, List.length_append, List.length_append, List.length_replicate,
      Region.stop]
    omega

/-- Regions that begin at a later position have zero bytes in front of them. -/
theorem MakeUp.of_le {later : Nat} (h : MakeUp later regions part) (some : regions ≠ [])
    (le : position ≤ later) :
    MakeUp position regions (List.replicate (later - position) 0 ++ part) := by
  obtain ⟨ordered, rfl⟩ := h
  cases regions with
  | nil => exact absurd rfl some
  | cons r rest =>
    obtain ⟨start, behind⟩ := ordered
    have split : r.start - position = (later - position) + (r.start - later) := by omega
    refine ⟨⟨Nat.le_trans le start, behind⟩, ?_⟩
    rw [spread, spread, split, ← List.replicate_append_replicate, List.append_assoc]

/-! ### Moved regions -/

theorem reach_moved (offset position : Nat) (regions : List Region) :
    reach (offset + position) (regions.map (.moved offset)) = offset + reach position regions := by
  induction regions generalizing position with
  | nil => rfl
  | cons r rest ih =>
    have stop : (r.moved offset).stop = offset + r.stop := Nat.add_assoc _ _ _
    rw [List.map_cons, reach, reach, stop, ih]

theorem MakeUp.moved (h : MakeUp position regions part) (offset : Nat) :
    MakeUp (offset + position) (regions.map (.moved offset)) part := by
  obtain ⟨ordered, rfl⟩ := h
  induction regions generalizing position with
  | nil => exact ⟨trivial, rfl⟩
  | cons r rest ih =>
    obtain ⟨le, ordered⟩ := ordered
    have tail := ih ordered
    have stop : (r.moved offset).stop = offset + r.stop := Nat.add_assoc _ _ _
    have distance : (r.moved offset).start - (offset + position) = r.start - position :=
      Nat.add_sub_add_left _ _ _
    rw [← stop] at tail
    refine ⟨⟨Nat.add_le_add_left le offset, tail.ordered⟩, ?_⟩
    rw [List.map_cons, spread, spread, distance, tail.spread_eq]
    rfl

/-! ### Placed parts -/

theorem makeUp_place (boundary position : Nat) (pieces : List Piece) :
    MakeUp position (place boundary position (pieces.map Piece.bytes))
      (Piece.placed boundary position pieces) := by
  induction pieces generalizing position with
  | nil => exact ⟨trivial, rfl⟩
  | cons piece rest ih =>
    have zeros : aligned boundary position - position = padding boundary position :=
      Nat.add_sub_cancel_left _ _
    rw [Piece.placed, gap, ← zeros]
    exact .cons (le_aligned _ _) rfl (ih _)

theorem start_mod_of_mem_place {boundary : Nat} (positive : 0 < boundary)
    {parts : List (List UInt8)} {r : Region} (mem : r ∈ place boundary position parts) :
    r.start % boundary = 0 := by
  induction parts generalizing position with
  | nil => cases mem
  | cons part rest ih =>
    rcases List.mem_cons.1 mem with rfl | mem
    · exact add_padding_mod positive position
    · exact ih mem

theorem length_place (boundary position : Nat) (parts : List (List UInt8)) :
    (place boundary position parts).length = parts.length := by
  induction parts generalizing position with
  | nil => rfl
  | cons part rest ih => rw [place, List.length_cons, List.length_cons, ih]

/-- The entries of a table are the positions of the regions, with what else an entry says. -/
theorem table_eq {f : List UInt8 → List UInt8} (boundary position : Nat) {pieces : List Piece}
    (entries : ∀ piece ∈ pieces, piece.entry = f piece.bytes) :
    Piece.table boundary position pieces =
      (place boundary position (pieces.map Piece.bytes)).flatMap
        fun r => wordBytes r.start.toUInt32 ++ f r.bytes := by
  induction pieces generalizing position with
  | nil => rfl
  | cons piece rest ih =>
    rw [List.forall_mem_cons] at entries
    rw [Piece.table, List.map_cons, place, List.flatMap_cons, ih _ entries.2, entries.1,
      List.append_assoc]

end

/-- The positions of regions, as the words of a table. -/
def offsets (regions : List Region) : List UInt8 :=
  regions.flatMap fun r => wordBytes r.start.toUInt32

theorem table_eq_offsets (boundary position : Nat) {pieces : List Piece}
    (entries : ∀ piece ∈ pieces, piece.entry = []) :
    Piece.table boundary position pieces =
      offsets (place boundary position (pieces.map Piece.bytes)) := by
  rw [table_eq (f := fun _ => []) boundary position entries, offsets]
  simp only [List.append_nil]

theorem length_offsets (regions : List Region) : (offsets regions).length = 4 * regions.length := by
  induction regions with
  | nil => rfl
  | cons r rest ih =>
    rw [offsets] at ih
    rw [offsets, List.flatMap_cons, List.length_append, length_wordBytes, List.length_cons, ih]
    omega

/-! ### Bytes that are laid out -/

/-- Bytes that regions make up. -/
structure LaidOut (bytes : Bytes) (regions : List Region) : Prop where
  whole : MakeUp 0 regions bytes.toList
  size : bytes.size = reach 0 regions
  /-- Every position fits a word. -/
  small : bytes.size < 2 ^ 32
  found : ∀ r ∈ regions, Has bytes r.start r.bytes
  /-- Outside of the regions there is only padding. -/
  zero : ∀ (i : Nat) (within : i < bytes.size),
    (∀ r ∈ regions, i < r.start ∨ r.stop ≤ i) → bytes[i] = 0

section

variable {bytes : Bytes} {regions : List Region} {position : Nat} {part : List UInt8}

theorem MakeUp.found (h : MakeUp position regions part) (here : Has bytes position part) :
    ∀ r ∈ regions, Has bytes r.start r.bytes := by
  obtain ⟨ordered, rfl⟩ := h
  induction regions generalizing position with
  | nil => simp
  | cons first rest ih =>
    obtain ⟨le, ordered⟩ := ordered
    have behind : Has bytes first.start (first.bytes ++ spread first.stop rest) :=
      here.right.at_position (by rw [List.length_replicate]; omega)
    rw [List.forall_mem_cons]
    exact ⟨behind.left, ih ordered behind.right⟩

theorem MakeUp.eq_zero (h : MakeUp position regions part) {i : Nat} {byte : UInt8}
    (at_i : part[i]? = some byte)
    (outside : ∀ r ∈ regions, position + i < r.start ∨ r.stop ≤ position + i) : byte = 0 := by
  obtain ⟨ordered, rfl⟩ := h
  induction regions generalizing position i with
  | nil => cases at_i
  | cons first rest ih =>
    obtain ⟨le, ordered⟩ := ordered
    rw [List.forall_mem_cons] at outside
    rw [spread] at at_i
    by_cases front : i < first.start - position
    · rw [List.getElem?_append_left (by rwa [List.length_replicate]), List.getElem?_replicate,
        if_pos front] at at_i
      exact (Option.some.inj at_i).symm
    · -- not in front of the first region, so behind it
      have behind : first.stop ≤ position + i := by
        rcases outside.1 with before | behind
        · omega
        · exact behind
      rw [Region.stop] at behind
      rw [List.getElem?_append_right (by rw [List.length_replicate]; omega),
        List.length_replicate, List.getElem?_append_right (by omega)] at at_i
      have same : first.stop + (i - (first.start - position) - first.bytes.length) =
          position + i := by
        rw [Region.stop]
        omega
      refine ih ?_ ordered at_i
      rw [same]
      exact outside.2

theorem LaidOut.of_makeUp (h : MakeUp 0 regions bytes.toList) (small : bytes.size < 2 ^ 32) :
    LaidOut bytes regions := by
  refine ⟨h, ?_, small, h.found ⟨[], [], by simp, rfl⟩, ?_⟩
  · rw [h.reach_eq, Nat.zero_add, Array.length_toList]
  · intro i within outside
    refine h.eq_zero (i := i) ?_ (by rwa [Nat.zero_add])
    rw [Array.getElem?_toList, Array.getElem?_eq_getElem within]

/-- What stands in a region stands in the bytes that hold the region. -/
theorem Has.inside {r : Region} {seg : List UInt8} (outer : Has bytes r.start r.bytes)
    (inner : Has r.bytes.toArray position seg) : Has bytes (r.start + position) seg := by
  obtain ⟨front, back, split, rfl⟩ := inner
  rw [show r.bytes = front ++ (seg ++ back) from split] at outer
  exact outer.right.left

end

end Libretto.Binary
