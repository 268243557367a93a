/-
Listings of containers.

A listing is made from a container as read back, so it shows write ids and the offsets that the
machine sees.

* **`ScriptView.listing`**, **`DramaView.listing`**, **`View.listing`** — the listing of a view,
  unless some block does not decode.
-/
import Libretto.Binary.View
import Libretto.Script.Instruction

namespace Libretto.Binary

open Script (DecodeError)

/-- The listings of blocks, the first of which has the given number. -/
def blockListings (numbering : Numbering) (strings : List String) (number : Nat) :
    List (List UInt32) → Except DecodeError String
  | [] => .ok ""
  | block :: rest => do
    let text ← Script.listing numbering (fun id => strings[id.toNat]?) block
    let behind ← blockListings numbering strings (number + 1) rest
    return s!"\nblock {number} ({block.length} words)\n" ++ text ++ behind

/-- The listing of a script. -/
def ScriptView.listing (numbering : Numbering) (view : ScriptView) : Except DecodeError String :=
  return s!"{view.blocks.length} block(s), {view.strings.length} string(s)\n" ++
    (← blockListings numbering view.strings 0 view.blocks)

/-- The rule between the parts of a dialogue listing. -/
def rule : String := "____________________________________\n"

/-- What a listing shows in place of an absent field. -/
def absent : String := "[NONE]"

namespace DramaView

/-- The string of a field. -/
def stringText (view : DramaView) (field : Option Nat) : String :=
  (field.bind fun id => view.strings[id]?).getD absent

/-- The snippet of a field. -/
def snippetText (view : DramaView) (field : Option Nat) : String :=
  (field.bind fun index => view.snippets[index]?.map fun snippet =>
    s!"snippet {index} ; {snippet.blocks.length} block(s)").getD absent

/-- The listing of a node. -/
def nodeListing (view : DramaView) (number : Nat) (node : NodeRecord) : String :=
  rule ++ s!"Node {number} id='" ++ view.stringText node.id ++ "'\n\n[Before]: " ++
    view.snippetText node.before ++ "\n[Player says]: " ++ view.stringText node.plsay ++
    "\n[Character says]: " ++ view.stringText node.say ++ "\n[After]: " ++
    view.snippetText node.after ++ "\n"

/-- The listings of snippets, the first of which has the given number. -/
def snippetListings (numbering : Numbering) (number : Nat) :
    List ScriptView → Except DecodeError String
  | [] => .ok ""
  | snippet :: rest => do
    let text ← snippet.listing numbering
    let behind ← snippetListings numbering (number + 1) rest
    return rule ++ s!"Snippet {number}: " ++ text ++ "\n" ++ behind

/-- The listing of a dialogue. -/
def listing (numbering : Numbering) (view : DramaView) : Except DecodeError String :=
  return s!"Total {view.nodes.length} nodes\n" ++
    String.join (view.nodes.zipIdx.map fun (node, number) => view.nodeListing number node) ++
    (← snippetListings numbering 0 view.snippets)

end DramaView

/-- The listing of a container. -/
def View.listing (numbering : Numbering) : View → Except DecodeError String
  | script view => view.listing numbering
  | drama view => view.listing numbering

end Libretto.Binary
