/-
Libretto: compiles scripts and dialogues into binary containers.
-/
import Libretto.Main
import Libretto.Proofs.Build.Failure
import Libretto.Proofs.Build.Inspection
import Libretto.Proofs.Build.Sparing
import Libretto.Proofs.Code.Faults
import Libretto.Proofs.Code.Filling
import Libretto.Proofs.Code.Lossless
import Libretto.Proofs.Code.Slots
import Libretto.Proofs.Container.Counts
import Libretto.Proofs.Container.Independence
import Libretto.Proofs.Container.Lookup
import Libretto.Proofs.Container.Relocation
import Libretto.Proofs.Container.Renumbering
import Libretto.Proofs.Container.Unresolved
import Libretto.Proofs.Drama.Coherence
import Libretto.Proofs.Drama.Element
import Libretto.Proofs.Drama.Tree
import Libretto.Proofs.Opcode.Closing
import Libretto.Proofs.Opcode.Reload
import Libretto.Proofs.Path.Stem
import Libretto.Proofs.Script.Account
import Libretto.Proofs.Script.Balance
import Libretto.Proofs.Script.Grammar
import Libretto.Proofs.Script.Increment
import Libretto.Proofs.Script.Naming
import Libretto.Proofs.Script.Spelling
import Libretto.Proofs.Strings.FirstReference
