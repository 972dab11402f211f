import ScriptGraph.About
import ScriptGraph.Main
import ScriptGraph.Proofs.Acceptance
import ScriptGraph.Proofs.Acyclicity
import ScriptGraph.Proofs.ArgumentOrder
import ScriptGraph.Proofs.Exchange
import ScriptGraph.Proofs.Indentation
import ScriptGraph.Proofs.Locality
import ScriptGraph.Proofs.NegativeWidth
import ScriptGraph.Proofs.Nesting
import ScriptGraph.Proofs.Recovery
import ScriptGraph.Proofs.Report
import ScriptGraph.Proofs.Run
import ScriptGraph.Proofs.Unambiguous
import ScriptGraph.Proofs.WeakParents
import ScriptGraph.Session.Step
