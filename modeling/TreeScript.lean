import TreeScript.Main
import TreeScript.Proofs.Exec.ForLoop
import TreeScript.Proofs.Exec.Internal
import TreeScript.Proofs.Parser.Calls
import TreeScript.Proofs.Parser.FaultOrder
import TreeScript.Proofs.Parser.FirstToken
import TreeScript.Proofs.Parser.Height
import TreeScript.Proofs.Parser.Longest
import TreeScript.Proofs.Parser.PrefixForm
import TreeScript.Proofs.Parser.Progress
import TreeScript.Proofs.Parser.Recovery
import TreeScript.Proofs.Program.Caret
import TreeScript.Proofs.Program.ExitCodes
import TreeScript.Proofs.Scoping.Addressed
import TreeScript.Proofs.Scoping.Chain
import TreeScript.Proofs.Scoping.Mentioned
import TreeScript.Proofs.Session.Turns
import TreeScript.Proofs.Session.Whole
import TreeScript.Proofs.Token.Seam
import TreeScript.Proofs.Token.Simulation
import TreeScript.Proofs.Token.Written
