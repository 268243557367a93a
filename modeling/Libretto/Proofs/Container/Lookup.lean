/-
The references of a dialogue lead somewhere.

A record holds signed words: -1 for an absent field, anything else an index.  Fields are checked
against the number of strings and the declared number of snippets, and as many snippets are read.

* **`fieldNumber`** — the number of a field, with `toInt_of_readReference`: it is what is stored;
* **`Recorded`** — the record that stands at a position, its indices within limits;
* **`recorded_of_readNodes`**, **`length_of_readSnippets`** — what the tables give;
* **`DramaView.Finds`** — every field that is not absent finds its string or its snippet;
* **`finds_of_ofBytes`** — so it is in every dialogue that is read.
-/
import Libretto.Binary.Listing
import Libretto.Proofs.Container.Confinement
import Libretto.Proofs.Container.Records

namespace Libretto.Binary

/-! ### Fields -/

/-- The number that stands for a field. -/
def fieldNumber : Option Nat → Int
  | none => -1
  | some index => index

/-- A word below `2 ^ 31` is the same number with a sign. -/
theorem toInt_toInt32 {word : UInt32} (small : word.toNat < 0x80000000) :
    word.toInt32.toInt = word.toNat := by
  show word.toBitVec.toInt = word.toBitVec.toNat
  have small : word.toBitVec.toNat < 0x80000000 := small
  rw [BitVec.toInt_eq_toNat_cond, if_pos (by omega)]

/-- A reference that is read is what is stored, and an index only below the limit. -/
theorem toInt_of_readReference {node limit : Nat} {field : String} {word : UInt32}
    {index? : Option Nat} (read : readReference node field limit word = .ok index?) :
    word.toInt32.toInt = fieldNumber index? ∧ ∀ i ∈ index?, i < limit := by
  rw [readReference] at read
  split at read
  next absent =>
    obtain rfl := Except.ok.inj read
    obtain rfl : word = 0xFFFFFFFF := UInt32.toNat_inj.1 absent
    exact ⟨by decide, fun i h => by cases h⟩
  next =>
    split at read
    next present =>
      obtain rfl := Except.ok.inj read
      refine ⟨toInt_toInt32 present.1, ?_⟩
      intro i h
      obtain rfl := Option.some.inj h
      exact present.2
    next => cases read

/-! ### Records -/

/-- The record that stands at a position, read as signed words. -/
structure Recorded (bytes : Bytes) (position strings snippets : Nat) (r : NodeRecord) : Prop where
  stored : ∃ words, bytes.words position 5 = .ok words ∧
    words.map (fun word => word.toInt32.toInt) =
      [r.id, r.before, r.after, r.plsay, r.say].map fieldNumber
  inRange : r.InRange strings snippets

variable {bytes : Bytes}

theorem words_five {position : Nat} {a b c d e : UInt32} (first : bytes.word position = .ok a)
    (second : bytes.word (position + 4) = .ok b) (third : bytes.word (position + 8) = .ok c)
    (fourth : bytes.word (position + 12) = .ok d) (fifth : bytes.word (position + 16) = .ok e) :
    bytes.words position 5 = .ok [a, b, c, d, e] := by
  simp only [Bytes.words, Nat.add_assoc, Nat.reduceAdd, bind, Except.bind, first, second, third,
    fourth, fifth]
  rfl

/-- Words that stand in a piece of the bytes stand in the bytes. -/
theorem words_of_extract {size position count : Nat} {words : List UInt32}
    (fits : size ≤ bytes.size)
    (read : Bytes.words (bytes.extract 0 size) position count = .ok words) :
    bytes.words position count = .ok words := by
  induction count generalizing position words with
  | zero => exact read
  | succ count ih =>
    obtain ⟨word, here, read⟩ := exists_of_bind_eq_ok read
    obtain ⟨rest, behind, read⟩ := exists_of_bind_eq_ok read
    obtain rfl := Except.ok.inj read
    have within := Bytes.le_size_of_word here
    rw [Array.size_extract] at within
    rw [(AgreeBelow.extract fits).word_eq fits (by omega)] at here
    rw [Bytes.words, here]
    simp only [bind, Except.bind, ih behind]
    rfl

/-- There are as many records as said, one behind the other. -/
theorem recorded_of_readNodes {strings snippets position number count : Nat}
    {nodes : List NodeRecord}
    (read : readNodes bytes strings snippets position number count = .ok nodes) :
    nodes.length = count ∧ ∀ i node, nodes[i]? = some node →
      Recorded bytes (position + recordSize * i) strings snippets node := by
  induction count generalizing position number nodes with
  | zero =>
    obtain rfl := Except.ok.inj read
    exact ⟨rfl, fun i node there => by cases there⟩
  | succ count ih =>
    obtain ⟨idWord, first, read⟩ := exists_of_bind_eq_ok read
    obtain ⟨beforeWord, second, read⟩ := exists_of_bind_eq_ok read
    obtain ⟨afterWord, third, read⟩ := exists_of_bind_eq_ok read
    obtain ⟨plsayWord, fourth, read⟩ := exists_of_bind_eq_ok read
    obtain ⟨sayWord, fifth, read⟩ := exists_of_bind_eq_ok read
    obtain ⟨id, idRead, read⟩ := exists_of_bind_eq_ok read
    obtain ⟨before, beforeRead, read⟩ := exists_of_bind_eq_ok read
    obtain ⟨after, afterRead, read⟩ := exists_of_bind_eq_ok read
    obtain ⟨plsay, plsayRead, read⟩ := exists_of_bind_eq_ok read
    obtain ⟨say, sayRead, read⟩ := exists_of_bind_eq_ok read
    obtain ⟨rest, behind, read⟩ := exists_of_bind_eq_ok read
    obtain rfl := Except.ok.inj read
    obtain ⟨idStored, idBound⟩ := toInt_of_readReference idRead
    obtain ⟨beforeStored, beforeBound⟩ := toInt_of_readReference beforeRead
    obtain ⟨afterStored, afterBound⟩ := toInt_of_readReference afterRead
    obtain ⟨plsayStored, plsayBound⟩ := toInt_of_readReference plsayRead
    obtain ⟨sayStored, sayBound⟩ := toInt_of_readReference sayRead
    obtain ⟨length, recorded⟩ := ih behind
    refine ⟨congrArg (· + 1) length, ?_⟩
    intro i node there
    cases i with
    | zero =>
      obtain rfl := Option.some.inj there
      refine ⟨⟨_, words_five first second third fourth fifth, ?_⟩,
        ⟨idBound, beforeBound, afterBound, plsayBound, sayBound⟩⟩
      simp only [List.map_cons, List.map_nil, idStored, beforeStored, afterStored, plsayStored,
        sayStored]
    | succ i =>
      have next := recorded i node there
      rwa [show position + recordSize + recordSize * i = position + recordSize * (i + 1) by
        rw [Nat.mul_succ]; omega] at next

theorem length_of_readSnippets {entry count : Nat} {snippets : List ScriptView}
    (read : readSnippets bytes entry count = .ok snippets) : snippets.length = count := by
  induction count generalizing entry snippets with
  | zero =>
    obtain rfl := Except.ok.inj read
    rfl
  | succ count ih =>
    obtain ⟨position, -, read⟩ := exists_of_bind_eq_ok read
    obtain ⟨⟨kind, own⟩, -, read⟩ := exists_of_bind_eq_ok read
    dsimp only at read
    split at read
    · cases read
    · obtain ⟨first, -, read⟩ := exists_of_bind_eq_ok read
      obtain ⟨rest, behind, read⟩ := exists_of_bind_eq_ok read
      obtain rfl := Except.ok.inj read
      exact congrArg (· + 1) (ih behind)

/-- The records of a dialogue follow each other, and name strings and snippets that it has. -/
theorem recorded_of_ofBytes {view : DramaView} (read : DramaView.ofBytes bytes = .ok view) :
    ∃ body, ∀ i node, view.nodes[i]? = some node →
      Recorded bytes (body + recordSize * i) view.strings.length view.snippets.length node := by
  obtain ⟨none, -⟩ | ⟨body, nodeCount, snippetCount, records, table⟩ := tables_of_ofBytes read
  · refine ⟨0, fun i node there => ?_⟩
    rw [none] at there
    cases there
  · -- as many snippets are read as the table is said to have
    obtain rfl := length_of_readSnippets table
    exact ⟨body, (recorded_of_readNodes records).2⟩

/-! ### Listings -/

/-- Every field of a node that is not absent finds what it names, and a listing shows it. -/
structure DramaView.Finds (view : DramaView) (node : NodeRecord) : Prop where
  strings : ∀ field ∈ [node.id, node.plsay, node.say], ∀ id ∈ field,
    ∃ text, view.strings[id]? = some text ∧ view.stringText field = text
  snippets : ∀ field ∈ [node.before, node.after], ∀ index ∈ field,
    ∃ snippet, view.snippets[index]? = some snippet ∧
      view.snippetText field = s!"snippet {index} ; {snippet.blocks.length} block(s)"

theorem DramaView.finds_of_inRange {view : DramaView} {node : NodeRecord}
    (h : node.InRange view.strings.length view.snippets.length) : view.Finds node := by
  have strings : ∀ field : Option Nat, (∀ i ∈ field, i < view.strings.length) → ∀ id ∈ field,
      ∃ text, view.strings[id]? = some text ∧ view.stringText field = text := by
    rintro field bound id rfl
    have there := List.getElem?_eq_getElem (bound id rfl)
    exact ⟨_, there, by rw [stringText, Option.bind_some, there]; rfl⟩
  have snippets : ∀ field : Option Nat, (∀ i ∈ field, i < view.snippets.length) →
      ∀ index ∈ field, ∃ snippet, view.snippets[index]? = some snippet ∧
        view.snippetText field = s!"snippet {index} ; {snippet.blocks.length} block(s)" := by
    rintro field bound index rfl
    have there := List.getElem?_eq_getElem (bound index rfl)
    exact ⟨_, there, by rw [snippetText, Option.bind_some, there]; rfl⟩
  constructor
  · simp only [List.forall_mem_cons, List.not_mem_nil, false_implies, implies_true, and_true]
    exact ⟨strings _ h.id, strings _ h.plsay, strings _ h.say⟩
  · simp only [List.forall_mem_cons, List.not_mem_nil, false_implies, implies_true, and_true]
    exact ⟨snippets _ h.before, snippets _ h.after⟩

/-- In a dialogue that is read, whatever the bytes, each field of a node is stored as -1 or as an
index of a string, or of a snippet, that was read; and so a listing finds it. -/
theorem finds_of_ofBytes {view : DramaView} (read : View.ofBytes bytes = .ok (.drama view)) :
    ∃ body, ∀ i node, view.nodes[i]? = some node →
      Recorded bytes (body + recordSize * i) view.strings.length view.snippets.length node ∧
        view.Finds node := by
  obtain ⟨size, occupies⟩ := exists_occupies read
  obtain ⟨body, recorded⟩ :=
    recorded_of_ofBytes (dramaView_of_ofBytes occupies.declared read)
  refine ⟨body, fun i node there => ?_⟩
  obtain ⟨⟨words, here, stored⟩, inRange⟩ := recorded i node there
  exact ⟨⟨⟨words, words_of_extract occupies.fits here, stored⟩, inRange⟩,
    DramaView.finds_of_inRange inRange⟩

/-- A node with an identifier, a script and nothing else. -/
theorem finds_of_ofBytes_sparse :
    ∃ (bytes : Bytes) (view : DramaView) (node : NodeRecord),
      View.ofBytes bytes = .ok (.drama view) ∧ view.nodes[0]? = some node ∧
        node = ⟨some 0, none, some 0, none, none⟩ ∧
        (∃ body, Recorded bytes body view.strings.length view.snippets.length node) ∧
        view.Finds node := by
  have sound : ((Drama.Document.compile .standard
      "<node id='a'><after>(f)</after></node>").toOption.any fun document =>
        (ofDocument document).bytes.toOption.any fun bytes =>
          (View.ofBytes bytes).toOption.any fun
            | .drama view => view.nodes[0]? = some ⟨some 0, none, some 0, none, none⟩
            | .script _ => false) = true := by decide +kernel
  obtain ⟨document, -, sound⟩ := exists_ok_of_any sound
  obtain ⟨bytes, -, sound⟩ := exists_ok_of_any sound
  obtain ⟨view, read, sound⟩ := exists_ok_of_any sound
  cases view with
  | script view => cases sound
  | drama view =>
    have there := of_decide_eq_true sound
    obtain ⟨body, found⟩ := finds_of_ofBytes read
    obtain ⟨recorded, finds⟩ := found 0 _ there
    exact ⟨bytes, view, _, read, there, rfl, ⟨body, recorded⟩, finds⟩

end Libretto.Binary
