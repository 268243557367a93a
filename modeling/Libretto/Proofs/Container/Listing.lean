/-
Containers that can be listed.

A listing asks of a block only that it decodes, and all code that was compiled does.  So a container
that was laid out is read back and listed, whatever it holds.

* **`ScriptView.exists_listing`**, **`DramaView.exists_listing`** — blocks that decode have a
  listing;
* **`exists_view_script`**, **`exists_view_document`** — what was written is read as blocks that
  decode;
* **`exists_listing_script`**, **`exists_listing_document`** — hence it has a listing.
-/
import Libretto.Binary.Listing
import Libretto.Proofs.Container.Dialogue

namespace Libretto.Binary

open Script Drama

variable {numbering : Numbering}

/-! ### Listings of views -/

/-- The instructions of every block are known. -/
def ScriptView.Decodes (numbering : Numbering) (view : ScriptView) : Prop :=
  ∀ block ∈ view.blocks, ∃ instructions, Instruction.decode numbering block = .ok instructions

theorem exists_blockListings {blocks : List (List UInt32)}
    (decodes : ∀ block ∈ blocks, ∃ instructions,
      Instruction.decode numbering block = .ok instructions)
    (strings : List String) (number : Nat) :
    ∃ text, blockListings numbering strings number blocks = .ok text := by
  induction blocks generalizing number with
  | nil => exact ⟨"", rfl⟩
  | cons block rest ih =>
    rw [List.forall_mem_cons] at decodes
    obtain ⟨⟨instructions, decoded⟩, decodes⟩ := decodes
    obtain ⟨behind, listed⟩ := ih decodes (number + 1)
    rw [blockListings, Script.listing, decoded, listed]
    exact ⟨_, rfl⟩

theorem ScriptView.exists_listing {view : ScriptView} (decodes : view.Decodes numbering) :
    ∃ text, view.listing numbering = .ok text := by
  obtain ⟨text, listed⟩ := exists_blockListings decodes view.strings 0
  rw [listing, listed]
  exact ⟨_, rfl⟩

theorem exists_snippetListings {snippets : List ScriptView}
    (decodes : ∀ snippet ∈ snippets, snippet.Decodes numbering) (number : Nat) :
    ∃ text, DramaView.snippetListings numbering number snippets = .ok text := by
  induction snippets generalizing number with
  | nil => exact ⟨"", rfl⟩
  | cons snippet rest ih =>
    rw [List.forall_mem_cons] at decodes
    obtain ⟨text, here⟩ := ScriptView.exists_listing decodes.1
    obtain ⟨behind, listed⟩ := ih decodes.2 (number + 1)
    rw [DramaView.snippetListings, here, listed]
    exact ⟨_, rfl⟩

theorem DramaView.exists_listing {view : DramaView}
    (decodes : ∀ snippet ∈ view.snippets, snippet.Decodes numbering) :
    ∃ text, view.listing numbering = .ok text := by
  obtain ⟨text, listed⟩ := exists_snippetListings decodes 0
  rw [listing, listed]
  exact ⟨_, rfl⟩

/-! ### Listings of what was written -/

theorem decodes_codes {unit : ScriptUnit} {data : List Datum} (h : unit.Holds data) :
    ∀ block ∈ codes unit data, ∃ instructions,
      Instruction.decode unit.numbering block = .ok instructions := by
  obtain ⟨blocks, -⟩ := h
  rw [codes]
  generalize unit.blocks = l at blocks
  induction blocks with
  | nil =>
    intro block mem
    cases mem
  | cons holds _ ih =>
    rw [List.map_cons, List.forall_mem_cons]
    exact ⟨⟨_, Datum.decode_code unit.writeWord holds.wellFormed⟩, ih⟩

/-- A script that was written is read as blocks that decode. -/
theorem exists_view_script {source : String} {bytes : Array UInt8}
    (written : (ofScript (.compile numbering source)).bytes = .ok bytes) :
    ∃ view, View.ofBytes bytes = .ok (.script view) ∧ view.Decodes numbering := by
  obtain ⟨data, h⟩ := ScriptUnit.exists_holds numbering source
  exact ⟨_, ofBytes_ofScript h written, decodes_codes h⟩

/-- What is read of snippets that were written, each by itself. -/
theorem decodes_snippets {sources : List String} {views : List ScriptView}
    (h : List.Forall₂ (fun source view => ∃ own,
      (ofScript (.compile numbering source)).bytes = .ok own ∧
        View.ofBytes own = .ok (.script view)) sources views) :
    ∀ view ∈ views, view.Decodes numbering := by
  induction h with
  | nil =>
    intro view mem
    cases mem
  | cons here _ ih =>
    obtain ⟨own, written, read⟩ := here
    obtain ⟨view, read', decodes⟩ := exists_view_script written
    obtain rfl := View.script.inj (Except.ok.inj (read'.symm.trans read))
    rw [List.forall_mem_cons]
    exact ⟨decodes, ih⟩

/-- A dialogue that was written is read, and the blocks of its snippets decode. -/
theorem exists_view_document {source : String} {document : Document} {bytes : Array UInt8}
    (compiled : Document.compile numbering source = .ok document)
    (written : (ofDocument document).bytes = .ok bytes) :
    ∃ view, View.ofBytes bytes = .ok (.drama view) ∧
      ∀ snippet ∈ view.snippets, snippet.Decodes numbering := by
  have sound := sound_of_compile compiled
  obtain ⟨snippets, scripts⟩ := exists_snippets sound
  obtain ⟨rfl, small⟩ := image_of_bytes (writesChunks_ofDocument sound scripts) written
  have inRange := inRange_records sound
  rw [scripts.length_eq] at inRange
  refine ⟨_, view_dramaContainer small inRange (snippets_eq_nil sound scripts), ?_⟩
  have views := forall_view scripts (length_image_lt sound scripts small)
  rw [sound.scripts, List.forall₂_map_left_iff] at views
  exact decodes_snippets views

/-- The container of a script has a listing, whatever the script holds. -/
theorem exists_listing_script {source : String} {bytes : Array UInt8}
    (written : (ofScript (.compile numbering source)).bytes = .ok bytes) :
    ∃ view text, View.ofBytes bytes = .ok view ∧ view.listing numbering = .ok text := by
  obtain ⟨view, read, decodes⟩ := exists_view_script written
  obtain ⟨text, listed⟩ := view.exists_listing decodes
  exact ⟨_, text, read, listed⟩

/-- The container of a dialogue has a listing, whatever the dialogue holds. -/
theorem exists_listing_document {source : String} {document : Document} {bytes : Array UInt8}
    (compiled : Document.compile numbering source = .ok document)
    (written : (ofDocument document).bytes = .ok bytes) :
    ∃ view text, View.ofBytes bytes = .ok view ∧ view.listing numbering = .ok text := by
  obtain ⟨view, read, decodes⟩ := exists_view_document compiled written
  obtain ⟨text, listed⟩ := view.exists_listing decodes
  exact ⟨_, text, read, listed⟩

end Libretto.Binary
