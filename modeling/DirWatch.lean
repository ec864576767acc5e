import DirWatch.Main
import DirWatch.Monitor.Replica
import DirWatch.Subscription.Exchange
import DirWatch.Proofs.Monitor.Protocol
import DirWatch.Proofs.Subscription.Ledger
import DirWatch.Proofs.Reconcile.Convergence
import DirWatch.Proofs.Reconcile.Events
import DirWatch.Proofs.Monitor.Registry
import DirWatch.Proofs.Monitor.Mirror
import DirWatch.Proofs.Monitor.Barrier
import DirWatch.Proofs.Monitor.RootLoss
import DirWatch.Proofs.Reconcile.Order
import DirWatch.Proofs.Subscription.Lease
import DirWatch.Proofs.Monitor.Isolation
import DirWatch.Proofs.Snapshot.Comparison
import DirWatch.Proofs.Reconcile.Subtree
import DirWatch.Proofs.Command.Console
import DirWatch.Proofs.Json.Interchange
import DirWatch.Proofs.Reconcile.Redelivery
import DirWatch.Proofs.Snapshot.Table
import DirWatch.Proofs.Scan.Recorded
import DirWatch.Proofs.Reconcile.Resync
import DirWatch.Proofs.Settings.Exclusion
import DirWatch.Proofs.Change.Renames
import DirWatch.Proofs.Command.Lines
import DirWatch.Proofs.Notification.Native
import DirWatch.Proofs.Subscription.Wakeup
