/-
A container is read from its own bytes.

The header declares a size.  Everything that is read lies below it, so that bytes behind it can be
anything; and of the bytes below it none can be missing, for the size is checked first.

* **`AgreeBelow`** — two inputs that hold the same bytes below a position, and so the same words;
* **`Opens`** — what a header says, with `readHeader_of_opens`: its size decides the outcome;
* **`ofBytes_eq_of_agree`** — inputs that agree below the declared size have the same outcome;
* **`Occupies`** — a view of exactly so many bytes;
* **`occupies_of_ofBytes`** — what is read occupies the declared size, and so does, within it, every
  container that is embedded.
-/
import Libretto.Binary.DramaLayout
import Libretto.Binary.View
import Libretto.Proofs.Outcome

namespace Libretto.Binary

/-! ### Inputs that agree -/

/-- Two inputs hold the same bytes below a position. -/
def AgreeBelow (size : Nat) (bytes other : Bytes) : Prop :=
  ∀ i < size, other[i]? = bytes[i]?

namespace AgreeBelow

variable {bytes other : Bytes} {size position : Nat}

theorem size_le (agree : AgreeBelow size bytes other) (fits : size ≤ bytes.size) :
    size ≤ other.size := by
  refine Nat.le_of_not_lt fun short => ?_
  have same := agree other.size short
  rw [Array.getElem?_eq_none (Nat.le_refl _), Array.getElem?_eq_getElem (by omega)] at same
  cases same

theorem mono {less : Nat} (agree : AgreeBelow size bytes other) (le : less ≤ size) :
    AgreeBelow less bytes other :=
  fun i below => agree i (Nat.lt_of_lt_of_le below le)

theorem extract (fits : size ≤ bytes.size) : AgreeBelow size bytes (bytes.extract 0 size) := by
  intro i below
  rw [Array.getElem?_extract, if_pos (by omega), Nat.zero_add]

theorem getElem_eq (agree : AgreeBelow size bytes other) {i : Nat} (below : i < size)
    (inside : i < bytes.size) (inside' : i < other.size) : other[i] = bytes[i] := by
  have same := agree i below
  rw [Array.getElem?_eq_getElem inside, Array.getElem?_eq_getElem inside'] at same
  exact Option.some.inj same

/-- What stands below the position is the same piece of both. -/
theorem extract_eq (agree : AgreeBelow size bytes other) (fits : size ≤ bytes.size) :
    other.extract 0 size = bytes.extract 0 size := by
  have fits' := agree.size_le fits
  refine Array.ext (by simp only [Array.size_extract]; omega) ?_
  intro i inside inside'
  rw [Array.size_extract] at inside
  simp only [Array.getElem_extract, Nat.zero_add]
  exact agree.getElem_eq (by omega) _ _

theorem word_eq (agree : AgreeBelow size bytes other) (fits : size ≤ bytes.size)
    (within : position + 4 ≤ size) : other.word position = bytes.word position := by
  have fits' := agree.size_le fits
  rw [Bytes.word, Bytes.word, dif_pos (by omega), dif_pos (by omega),
    agree.getElem_eq (by omega), agree.getElem_eq (by omega), agree.getElem_eq (by omega),
    agree.getElem_eq (by omega)]

theorem number_eq (agree : AgreeBelow size bytes other) (fits : size ≤ bytes.size)
    (within : position + 4 ≤ size) : other.number position = bytes.number position := by
  rw [Bytes.number, Bytes.number, agree.word_eq fits within]

theorem tag_eq (agree : AgreeBelow size bytes other) (fits : size ≤ bytes.size)
    (within : position + 4 ≤ size) : other.tag position = bytes.tag position := by
  have fits' := agree.size_le fits
  rw [Bytes.tag, Bytes.tag, dif_pos (by omega), dif_pos (by omega),
    agree.getElem_eq (by omega), agree.getElem_eq (by omega), agree.getElem_eq (by omega),
    agree.getElem_eq (by omega)]

end AgreeBelow

namespace Bytes

variable {bytes : Bytes} {position : Nat}

theorem need_eq_ok_iff {needed : Nat} :
    bytes.need position needed = .ok () ↔ position + needed ≤ bytes.size := by
  rw [need]
  split <;> simp [*]

theorem le_size_of_word {word : UInt32} (read : bytes.word position = .ok word) :
    position + 4 ≤ bytes.size := by
  rw [Bytes.word] at read
  split at read
  · assumption
  · cases read

theorem le_size_of_number {n : Nat} (read : bytes.number position = .ok n) :
    position + 4 ≤ bytes.size := by
  obtain ⟨word, found, -⟩ := exists_of_bind_eq_ok read
  exact le_size_of_word found

theorem le_size_of_expect {tag : Tag} (found : bytes.expect position tag = .ok ()) :
    position + 4 ≤ bytes.size := by
  obtain ⟨there, read, -⟩ := exists_of_bind_eq_ok found
  rw [Bytes.tag] at read
  split at read
  · assumption
  · cases read

end Bytes

/-! ### Headers -/

/-- The header of a container of the given kind and size; whether that many bytes are there is not
said. -/
structure Opens (bytes : Bytes) (kind : Tag) (size : Nat) : Prop where
  room : headerSize ≤ bytes.size
  kind : bytes.tag 0 = .ok kind
  own : bytes.number 12 = .ok headerSize
  size : bytes.number 8 = .ok size

variable {bytes other own : Bytes} {kind : Tag} {size : Nat}

theorem Opens.of_agree (h : Opens bytes kind size) (agree : AgreeBelow headerSize bytes other) :
    Opens other kind size := by
  have read : ∀ position, position + 4 ≤ headerSize →
      other.number position = bytes.number position :=
    fun position within => agree.number_eq h.room within
  refine ⟨agree.size_le h.room, ?_, ?_, ?_⟩
  · rw [agree.tag_eq h.room (by decide), h.kind]
  · rw [read 12 (by decide), h.own]
  · rw [read 8 (by decide), h.size]

/-- Behind a sound header the size decides. -/
theorem readHeader_of_opens (h : Opens bytes kind size) :
    readHeader bytes = if size ≤ bytes.size then .ok (kind, bytes.extract 0 size)
      else .error (.truncated 0 size bytes.size) := by
  have room : bytes.need 0 headerSize = .ok () :=
    Bytes.need_eq_ok_iff.2 (by rw [Nat.zero_add]; exact h.room)
  obtain ⟨word, read, value⟩ := exists_of_bind_eq_ok h.own
  have header : word.toNat = headerSize := Except.ok.inj value
  rw [readHeader, room]
  simp only [bind, Except.bind, h.kind, read, header, ne_eq, not_true_eq_false, if_false, h.size,
    Bytes.need, Nat.zero_add]
  by_cases fits : size ≤ bytes.size
  · rw [if_pos fits, if_pos fits]
    rfl
  · rw [if_neg fits, if_neg fits]

theorem opens_of_readHeader (read : readHeader bytes = .ok (kind, own)) :
    ∃ size, Opens bytes kind size ∧ size ≤ bytes.size ∧ own = bytes.extract 0 size := by
  obtain ⟨⟨⟩, room, read⟩ := exists_of_bind_eq_ok read
  obtain ⟨found, tag, read⟩ := exists_of_bind_eq_ok read
  obtain ⟨word, header, read⟩ := exists_of_bind_eq_ok read
  have room := Bytes.need_eq_ok_iff.1 room
  rw [Nat.zero_add] at room
  by_cases same : word.toNat = headerSize
  · rw [if_neg (not_not_intro same)] at read
    obtain ⟨size, declared, read⟩ := exists_of_bind_eq_ok read
    obtain ⟨⟨⟩, fits, read⟩ := exists_of_bind_eq_ok read
    obtain ⟨rfl, rfl⟩ := Prod.mk.inj (Except.ok.inj read)
    have opens : Opens bytes found size :=
      ⟨room, tag, by rw [Bytes.number, header]; exact congrArg Except.ok same, declared⟩
    have fits := Bytes.need_eq_ok_iff.1 fits
    rw [Nat.zero_add] at fits
    exact ⟨size, opens, fits, rfl⟩
  · rw [if_pos same] at read
    cases read

/-- A header whose container is cut short. -/
theorem readHeader_extract (h : Opens bytes kind size) (fits : size ≤ bytes.size) {n : Nat}
    (short : n < size) :
    readHeader (bytes.extract 0 n) =
      .error (.truncated 0 (if n < headerSize then headerSize else size) n) := by
  have length : (bytes.extract 0 n).size = n := by
    rw [Array.size_extract]
    omega
  by_cases cut : n < headerSize
  · have room :
        Bytes.need (bytes.extract 0 n) 0 headerSize = .error (.truncated 0 headerSize n) := by
      rw [Bytes.need, length, if_neg (by omega)]
    rw [readHeader, room, if_pos cut]
    rfl
  · have opens : Opens (bytes.extract 0 n) kind size :=
      h.of_agree ((AgreeBelow.extract (by omega)).mono (by omega))
    rw [readHeader_of_opens opens, length, if_neg (by omega), if_neg cut]

/-! ### Containers -/

/-- Inputs that agree below the size that the header declares have the same outcome, also if the
container is faulty. -/
theorem ofBytes_eq_of_agree (h : Opens bytes kind size) (room : headerSize ≤ size)
    (fits : size ≤ bytes.size) (agree : AgreeBelow size bytes other) :
    View.ofBytes other = View.ofBytes bytes := by
  have header : readHeader other = readHeader bytes := by
    rw [readHeader_of_opens h, readHeader_of_opens (h.of_agree (agree.mono room)),
      if_pos fits, if_pos (agree.size_le fits), agree.extract_eq fits]
  rw [View.ofBytes, View.ofBytes, header]

/-- A container that is read is large enough for its header and the tag behind it. -/
theorem le_size_of_ofBytes {view : View} (read : View.ofBytes bytes = .ok view) :
    ∃ kind size, Opens bytes kind size ∧ headerSize + 4 ≤ size ∧ size ≤ bytes.size := by
  obtain ⟨⟨kind, own⟩, header, read⟩ := exists_of_bind_eq_ok read
  obtain ⟨size, opens, fits, rfl⟩ := opens_of_readHeader header
  have length : (bytes.extract 0 size).size = size := by
    rw [Array.size_extract]
    omega
  refine ⟨kind, size, opens, ?_, fits⟩
  dsimp only at read
  split at read
  · obtain ⟨script, read, -⟩ := exists_of_bind_eq_ok read
    obtain ⟨⟨⟩, tag, -⟩ := exists_of_bind_eq_ok read
    exact length ▸ Bytes.le_size_of_expect tag
  · split at read
    · obtain ⟨drama, read, -⟩ := exists_of_bind_eq_ok read
      obtain ⟨⟨⟩, tag, -⟩ := exists_of_bind_eq_ok read
      exact length ▸ Bytes.le_size_of_expect tag
    · cases read

/-- A view of the container that begins at the first byte, which takes just so many bytes: those
behind it have no part in the view, and a piece that is shorter is refused. -/
structure Occupies (bytes : Bytes) (size : Nat) (view : View) : Prop where
  declared : bytes.number 8 = .ok size
  fits : size ≤ bytes.size
  determined : ∀ other, AgreeBelow size bytes other → View.ofBytes other = .ok view
  needed : ∀ n < size, View.ofBytes (bytes.extract 0 n) =
    .error (.truncated 0 (if n < headerSize then headerSize else size) n)

theorem exists_occupies {view : View} (read : View.ofBytes bytes = .ok view) :
    ∃ size, Occupies bytes size view := by
  obtain ⟨kind, size, opens, room, fits⟩ := le_size_of_ofBytes read
  refine ⟨size, opens.size, fits, ?_, ?_⟩
  · intro other agree
    rw [ofBytes_eq_of_agree opens (by omega) fits agree, read]
  · intro n short
    rw [View.ofBytes, readHeader_extract opens fits short]
    rfl

/-! ### Embedded containers -/

/-- Each snippet is a container by itself, from where the table says. -/
theorem ofBytes_of_readSnippets {entry count : Nat} {snippets : List ScriptView}
    (read : readSnippets bytes entry count = .ok snippets) {index : Nat} {snippet : ScriptView}
    (there : snippets[index]? = some snippet) :
    ∃ position, bytes.number (entry + 4 * index) = .ok position ∧
      View.ofBytes (bytes.extract position bytes.size) = .ok (.script snippet) := by
  induction count generalizing entry snippets index with
  | zero =>
    obtain rfl := Except.ok.inj read
    cases there
  | succ count ih =>
    obtain ⟨position, located, read⟩ := exists_of_bind_eq_ok read
    obtain ⟨⟨kind, own⟩, header, read⟩ := exists_of_bind_eq_ok read
    dsimp only at read
    split at read
    · cases read
    next script =>
      obtain rfl : kind = .script := Decidable.not_not.1 script
      obtain ⟨first, inner, read⟩ := exists_of_bind_eq_ok read
      obtain ⟨rest, behind, read⟩ := exists_of_bind_eq_ok read
      obtain rfl := Except.ok.inj read
      cases index with
      | zero =>
        obtain rfl := Option.some.inj there
        refine ⟨position, located, ?_⟩
        rw [View.ofBytes, header]
        simp only [bind, Except.bind, if_true, inner]
        rfl
      | succ index =>
        obtain ⟨position, located, view⟩ := ih behind there
        refine ⟨position, ?_, view⟩
        rwa [show entry + 4 * (index + 1) = entry + 4 + 4 * index by omega]

/-- A dialogue is read from the bytes below its size. -/
theorem dramaView_of_ofBytes {drama : DramaView} (declared : bytes.number 8 = .ok size)
    (read : View.ofBytes bytes = .ok (.drama drama)) :
    DramaView.ofBytes (bytes.extract 0 size) = .ok drama := by
  obtain ⟨⟨kind, own⟩, header, read⟩ := exists_of_bind_eq_ok read
  obtain ⟨found, opens, -, rfl⟩ := opens_of_readHeader header
  obtain rfl : found = size := Except.ok.inj (opens.size.symm.trans declared)
  dsimp only at read
  split at read
  · obtain ⟨script, -, read⟩ := exists_of_bind_eq_ok read
    cases read
  · split at read
    · obtain ⟨view, opened, same⟩ := exists_of_bind_eq_ok read
      obtain rfl := View.drama.inj (Except.ok.inj same)
      exact opened
    · cases read

/-- A dialogue without nodes has nothing; the nodes and the snippets of any other one are read from
tables of the declared lengths. -/
theorem tables_of_ofBytes {view : DramaView} (read : DramaView.ofBytes bytes = .ok view) :
    view.nodes = [] ∧ view.snippets = [] ∨ ∃ body nodeCount snippetCount,
      readNodes bytes view.strings.length snippetCount body 0 nodeCount = .ok view.nodes ∧
        readSnippets bytes (headerSize + 16) snippetCount = .ok view.snippets := by
  obtain ⟨⟨⟩, -, read⟩ := exists_of_bind_eq_ok read
  obtain ⟨nodeCount, -, read⟩ := exists_of_bind_eq_ok read
  obtain ⟨snippetCount, -, read⟩ := exists_of_bind_eq_ok read
  obtain ⟨⟨⟩, -, read⟩ := exists_of_bind_eq_ok read
  obtain ⟨strings, -, read⟩ := exists_of_bind_eq_ok read
  split at read
  · obtain rfl := Except.ok.inj read
    exact .inl ⟨rfl, rfl⟩
  · obtain ⟨body, -, read⟩ := exists_of_bind_eq_ok read
    obtain ⟨⟨⟩, -, read⟩ := exists_of_bind_eq_ok read
    obtain ⟨⟨⟩, -, read⟩ := exists_of_bind_eq_ok read
    obtain ⟨nodes, records, read⟩ := exists_of_bind_eq_ok read
    obtain ⟨snippets, table, read⟩ := exists_of_bind_eq_ok read
    obtain rfl := Except.ok.inj read
    exact .inr ⟨body, nodeCount, snippetCount, records, table⟩

/-- A container that is read occupies the size that it declares: other bytes behind it give the same
view, and no shorter piece of it gives any.  Each snippet of a dialogue does so as well, from where
the table says and within the size of the dialogue. -/
theorem occupies_of_ofBytes {view : View} (read : View.ofBytes bytes = .ok view) :
    ∃ size, Occupies bytes size view ∧
      ∀ drama, view = .drama drama → ∀ index snippet, drama.snippets[index]? = some snippet →
        ∃ position own, bytes.number (headerSize + 16 + 4 * index) = .ok position ∧
          position + own ≤ size ∧
          Occupies (bytes.extract position size) own (.script snippet) := by
  obtain ⟨size, occupies⟩ := exists_occupies read
  refine ⟨size, occupies, ?_⟩
  rintro drama rfl index snippet there
  have opened := dramaView_of_ofBytes occupies.declared read
  generalize cut : bytes.extract 0 size = inner at opened
  have length : inner.size = size := by
    have fits := occupies.fits
    rw [← cut, Array.size_extract]
    omega
  obtain ⟨-, none⟩ | ⟨-, -, count, -, table⟩ := tables_of_ofBytes opened
  · rw [none] at there
    cases there
  obtain ⟨position, located, alone⟩ := ofBytes_of_readSnippets table there
  have tail : inner.extract position inner.size = bytes.extract position size := by
    rw [length, ← cut, Array.extract_extract, Nat.zero_add, Nat.zero_add, Nat.min_self]
  rw [tail] at alone
  obtain ⟨own, embedded⟩ := exists_occupies alone
  -- the header of the snippet stands within the dialogue, so the snippet begins there
  have header := Bytes.le_size_of_number embedded.declared
  have fits := embedded.fits
  rw [Array.size_extract] at header fits
  refine ⟨position, own, ?_, by omega, embedded⟩
  have within := length ▸ Bytes.le_size_of_number located
  rw [← located, ← cut]
  exact ((AgreeBelow.extract occupies.fits).number_eq occupies.fits within).symm

/-- A dialogue with one snippet, and three bytes behind it. -/
theorem occupies_of_ofBytes_behind :
    ∃ (bytes : Bytes) (drama : DramaView) (snippet : ScriptView),
      View.ofBytes bytes = .ok (.drama drama) ∧ drama.snippets[0]? = some snippet ∧
        ∃ size, size + 3 = bytes.size ∧ Occupies bytes size (.drama drama) ∧
          ∃ position own, bytes.number (headerSize + 16) = .ok position ∧ position + own ≤ size ∧
            Occupies (bytes.extract position size) own (.script snippet) := by
  have sound : ((Drama.Document.compile .standard
      ";$<node id='a'><before>(f)</before></node>").toOption.any fun document =>
        (ofDocument document).bytes.toOption.any fun bytes =>
          (View.ofBytes (bytes ++ #[1, 2, 3])).toOption.any fun
            | .drama drama => drama.snippets[0]?.isSome &&
                (Bytes.number (bytes ++ #[1, 2, 3]) 8).toOption.any (· = bytes.size)
            | .script _ => false) = true := by decide +kernel
  obtain ⟨document, -, sound⟩ := exists_ok_of_any sound
  obtain ⟨bytes, -, sound⟩ := exists_ok_of_any sound
  obtain ⟨view, read, sound⟩ := exists_ok_of_any sound
  cases view with
  | script view => cases sound
  | drama drama =>
    obtain ⟨some, declared⟩ := Bool.and_eq_true_iff.1 sound
    obtain ⟨snippet, there⟩ := Option.isSome_iff_exists.1 some
    obtain ⟨size, stored, same⟩ := exists_ok_of_any declared
    obtain rfl : size = bytes.size := of_decide_eq_true same
    obtain ⟨size, occupies, embedded⟩ := occupies_of_ofBytes read
    obtain rfl : bytes.size = size := Except.ok.inj (stored.symm.trans occupies.declared)
    obtain ⟨position, own, located, within, alone⟩ := embedded drama rfl 0 snippet there
    exact ⟨_, drama, snippet, read, there, bytes.size, by simp, occupies, position, own, located,
      within, alone⟩

end Libretto.Binary
