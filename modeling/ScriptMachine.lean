import ScriptMachine.Main
import ScriptMachine.Proofs.Isolation
import ScriptMachine.Proofs.Untraced.Outcomes
import ScriptMachine.Proofs.Delivery
import ScriptMachine.Proofs.Namespaces
import ScriptMachine.Proofs.Payload
import ScriptMachine.Proofs.Enclosure.Assignments
import ScriptMachine.Proofs.Counting
import ScriptMachine.Proofs.PathUpdates
import ScriptMachine.Proofs.ElementVisits
import ScriptMachine.Proofs.Decimals
import ScriptMachine.Proofs.Coherence
import ScriptMachine.Proofs.SharedOperands
import ScriptMachine.Proofs.Escapes
import ScriptMachine.Proofs.Balance
import ScriptMachine.Proofs.Indentation
import ScriptMachine.Proofs.Folding
