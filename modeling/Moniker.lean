import Moniker.Main
import Moniker.Draw.Words
import Moniker.Proofs.Tree.Matching
import Moniker.Proofs.Tree.Failure
import Moniker.Proofs.Tree.Meaning
import Moniker.Proofs.Pattern.Parsing
import Moniker.Proofs.Tree.WellFormed
import Moniker.Proofs.Tree.Source
import Moniker.Proofs.Policy.Lookup
import Moniker.Proofs.Text.Blank
import Moniker.Proofs.Policy.Rules
import Moniker.Proofs.Command.Selection
import Moniker.Proofs.Command.Check
import Moniker.Proofs.Policy.History
import Moniker.Proofs.Pattern.Places
import Moniker.Proofs.Pattern.Tiling
import Moniker.Proofs.Command.Readback
import Moniker.Proofs.Draw.Counting
import Moniker.Proofs.Tree.Evenness
import Moniker.Proofs.Pattern.Composed
import Moniker.Proofs.Tree.Composed
import Moniker.Proofs.Policy.Faults
import Moniker.Proofs.Pattern.Cursor
import Moniker.Proofs.Pattern.Unfinished
import Moniker.Proofs.Pattern.Pointing
import Moniker.Proofs.Policy.Writing
import Moniker.Proofs.Pattern.Final
import Moniker.Proofs.Pattern.Descent
import Moniker.Proofs.Tree.Blame
import Moniker.Proofs.Tree.Orders
import Moniker.Proofs.Report.Printed
import Moniker.Proofs.Tree.Replacement
import Moniker.Proofs.Tree.Pools
