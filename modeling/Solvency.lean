import Solvency.Push.Engine
import Solvency.Risk.Report
import Solvency.Settings.Read
import Solvency.Settings.Report
import Solvency.Proofs.Account.RoundTrip
import Solvency.Proofs.Account.Decoding
import Solvency.Proofs.Account.Normalising
import Solvency.Proofs.Account.Scatter
import Solvency.Proofs.Account.Stepping
import Solvency.Proofs.Fixed.Conversion
import Solvency.Proofs.Ledger.Course
import Solvency.Proofs.Registry.History
import Solvency.Proofs.Registry.Delivery
import Solvency.Proofs.Registry.Replay
import Solvency.Proofs.Router.Convergence
import Solvency.Proofs.Router.Intake
import Solvency.Proofs.Push.Agreement
import Solvency.Proofs.Push.Course
import Solvency.Proofs.Push.Gap
import Solvency.Proofs.Push.Loading
import Solvency.Proofs.Notifier.History
import Solvency.Proofs.Notifier.Watchers
import Solvency.Proofs.Risk.Perps
import Solvency.Proofs.Risk.Prices
import Solvency.Proofs.Risk.Incomplete
import Solvency.Proofs.Risk.Roundoff
import Solvency.Proofs.Risk.Numbering
import Solvency.Proofs.View.Demand
