/-
The records of dialogue nodes.

A record has five words.  An absent field holds -1, which is no index as long as indices are below
`2 ^ 31`; a container of less than `2 ^ 32` bytes has no room for as many strings or snippets.

* **`NodeRecord.words`** — the words of a record;
* **`record`**, **`writes_nodes`** — the record of a node, and that it is what a writer writes;
* **`readReference_refWord`**, **`readNodes_records`** — records in range are read back.
-/
import Libretto.Proofs.Container.Pieces
import Libretto.Proofs.Container.Reading
import Libretto.Proofs.Drama.Collection

namespace Libretto.Binary

open Writer Drama

/-- The word of a reference. -/
def refWord : Option Nat → UInt32
  | none => absentWord
  | some index => index.toUInt32

/-- The words of a record. -/
def NodeRecord.words (r : NodeRecord) : List UInt32 :=
  [refWord r.id, refWord r.before, refWord r.after, refWord r.plsay, refWord r.say]

/-- The bytes of records. -/
def recordBytes (records : List NodeRecord) : List UInt8 :=
  (records.map NodeRecord.words).flatMap (List.flatMap wordBytes)

theorem length_recordBytes (records : List NodeRecord) :
    (recordBytes records).length = recordSize * records.length := by
  induction records with
  | nil => rfl
  | cons r rest ih =>
    have first : (r.words.flatMap wordBytes).length = 20 := length_flatMap_wordBytes r.words
    rw [recordBytes, List.map_cons, List.flatMap_cons, List.length_append, first,
      show (List.flatMap _ _).length = recordSize * rest.length from ih, List.length_cons,
      recordSize]
    omega

/-! ### Writing -/

/-- The write id of a string. -/
def writeIndex (ids : WriteIds) (id : StringId) : Nat :=
  ((ids.writeId? id).getD 0).toNat

/-- The record of a node. -/
def record (ids : WriteIds) (node : Node) : NodeRecord :=
  ⟨some (writeIndex ids node.id), node.before, node.after, node.plsay.map (writeIndex ids),
    node.say.map (writeIndex ids)⟩

variable {front before : List UInt8}

/-- A string that has a write id is written by it. -/
theorem writes_stringWord {ids : WriteIds} {id? : Option StringId}
    (known : ∀ id ∈ id?, (ids.writeId? id).isSome) :
    Writes front (stringWord ids id?) before (refWord (id?.map (writeIndex ids))) before := by
  cases id? with
  | none => exact writes_pure _
  | some id =>
    obtain ⟨word, found⟩ := Option.isSome_iff_exists.1 (known id rfl)
    have same : word = (writeIndex ids id).toUInt32 := by
      rw [writeIndex, found]
      exact UInt32.ofNat_toNat.symm
    rw [stringWord, found, same]
    exact writes_pure _

/-- The index of a snippet is small, or the table of snippets outgrows the offsets. -/
theorem writes_snippetWord {index? : Option Nat} {count : Nat} (bound : ∀ i ∈ index?, i < count)
    (room : 4 * count ≤ before.length) :
    Writes front (snippetWord index?) before (refWord index?) before := by
  cases index? with
  | none => exact writes_pure _
  | some index =>
    have lt := bound index rfl
    by_cases small : index < 0x80000000
    · rw [snippetWord, if_pos small]
      exact writes_pure _
    · -- there are more than `2 ^ 31` snippets then, and four bytes stand for each of them
      refine ⟨Nat.le_refl _, .inr ⟨by omega, index, before, ?_⟩⟩
      rw [snippetWord, if_neg small]
      rfl

theorem writes_node {ids : WriteIds} {node : Node} {count : Nat}
    (known : ∀ id ∈ Document.nodeReferences node, (ids.writeId? id).isSome)
    (bound : ∀ index ∈ node.snippets, index < count) (room : 4 * count ≤ before.length) :
    Writes front (writeNode ids node) before ()
      (before ++ (record ids node).words.flatMap wordBytes) := by
  simp only [Document.nodeReferences, Node.snippets, List.mem_cons, List.mem_append,
    Option.mem_toList] at known bound
  have later : ∀ more : List UInt8, 4 * count ≤ (before ++ more).length := by
    intro more
    rw [List.length_append]
    omega
  have split : before ++ (record ids node).words.flatMap wordBytes =
      before ++ wordBytes (refWord (some (writeIndex ids node.id))) ++
        wordBytes (refWord node.before) ++ wordBytes (refWord node.after) ++
        wordBytes (refWord (node.plsay.map (writeIndex ids))) ++
        wordBytes (refWord (node.say.map (writeIndex ids))) := by
    simp only [record, NodeRecord.words, List.flatMap_cons, List.flatMap_nil, List.append_assoc,
      List.append_nil]
  rw [split, writeNode]
  refine (writes_stringWord fun id h => known id (.inl (Option.some.inj h).symm)).bind ?_
  refine (writes_word _).seq ((writes_snippetWord (fun i h => bound i (.inl h)) (later _)).bind ?_)
  refine (writes_word _).seq ((writes_snippetWord (fun i h => bound i (.inr h)) ?_).bind ?_)
  · rw [List.append_assoc]
    exact later _
  · refine (writes_word _).seq ((writes_stringWord fun id h => known id (.inr (.inl h))).bind ?_)
    refine (writes_word _).seq ((writes_stringWord fun id h => known id (.inr (.inr h))).bind ?_)
    exact writes_word _

/-- The nodes of a document are written as their records. -/
theorem writes_nodes {ids : WriteIds} {nodes : List Node} {count : Nat}
    (known : ∀ node ∈ nodes, ∀ id ∈ Document.nodeReferences node, (ids.writeId? id).isSome)
    (bound : ∀ node ∈ nodes, ∀ index ∈ node.snippets, index < count)
    (room : 4 * count ≤ before.length) :
    Writes front (nodes.forM (writeNode ids)) before ()
      (before ++ recordBytes (nodes.map (record ids))) := by
  induction nodes generalizing before with
  | nil =>
    rw [List.map_nil, recordBytes, List.map_nil, List.flatMap_nil, List.append_nil]
    exact writes_pure _
  | cons node rest ih =>
    rw [List.forall_mem_cons] at known bound
    have later : 4 * count ≤ (before ++ (record ids node).words.flatMap wordBytes).length := by
      rw [List.length_append]
      omega
    have behind := ih known.2 bound.2 later
    rw [List.append_assoc] at behind
    exact (writes_node known.1 bound.1 room).seq behind

/-! ### Reading -/

/-- The fields of a record name strings and snippets that are there. -/
structure NodeRecord.InRange (r : NodeRecord) (strings snippets : Nat) : Prop where
  id : ∀ i ∈ r.id, i < strings
  before : ∀ i ∈ r.before, i < snippets
  after : ∀ i ∈ r.after, i < snippets
  plsay : ∀ i ∈ r.plsay, i < strings
  say : ∀ i ∈ r.say, i < strings

theorem readReference_refWord {index? : Option Nat} {limit : Nat} (bound : ∀ i ∈ index?, i < limit)
    (small : limit ≤ 2 ^ 31) (node : Nat) (field : String) :
    readReference node field limit (refWord index?) = .ok index? := by
  cases index? with
  | none => rfl
  | some index =>
    have lt := bound index rfl
    have value : (refWord (some index)).toNat = index := toNat_toUInt32 (by omega)
    rw [readReference, value, if_neg (by omega), if_pos ⟨by omega, lt⟩]

/-- Records in range are read back. -/
theorem readNodes_records {bytes : Bytes} {strings snippets position : Nat}
    {records : List NodeRecord} (smallStrings : strings ≤ 2 ^ 31)
    (smallSnippets : snippets ≤ 2 ^ 31) (inRange : ∀ r ∈ records, r.InRange strings snippets)
    (h : Has bytes position (recordBytes records)) (number : Nat) :
    readNodes bytes strings snippets position number records.length = .ok records := by
  induction records generalizing position number with
  | nil => rfl
  | cons r rest ih =>
    rw [List.forall_mem_cons] at inRange
    have range := inRange.1
    have here : Has bytes position (wordBytes (refWord r.id) ++ (wordBytes (refWord r.before) ++
        (wordBytes (refWord r.after) ++ (wordBytes (refWord r.plsay) ++
          (wordBytes (refWord r.say) ++ recordBytes rest))))) := by
      simpa only [recordBytes, List.map_cons, NodeRecord.words, List.flatMap_cons, List.flatMap_nil,
        List.append_assoc, List.nil_append] using h
    have behind := ih inRange.2 here.right.right.right.right.right (number + 1)
    simp only [length_wordBytes] at behind
    have id := here.left.word
    have before := here.right.left.word
    have after := here.right.right.left.word
    have plsay := here.right.right.right.left.word
    have say := here.right.right.right.right.left.word
    simp only [length_wordBytes] at before after plsay say
    rw [List.length_cons, readNodes, id]
    simp only [bind, Except.bind, before, after, plsay, say,
      readReference_refWord range.id smallStrings, readReference_refWord range.before smallSnippets,
      readReference_refWord range.after smallSnippets,
      readReference_refWord range.plsay smallStrings,
      readReference_refWord range.say smallStrings, recordSize, behind]
    rfl

end Libretto.Binary
