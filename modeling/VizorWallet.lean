import VizorWallet.Contact.Response
import VizorWallet.Contact.Soundness
import VizorWallet.Discovery.Readiness
import VizorWallet.GiftCard.Recorded
import VizorWallet.Keychain.Runs
import VizorWallet.Keystone.Partition
import VizorWallet.Ledger.Delivery
import VizorWallet.Ledger.Expiry
import VizorWallet.Ledger.Framing
import VizorWallet.Ledger.OrderedBroadcast
import VizorWallet.Ledger.PcztBatch
import VizorWallet.Ledger.Ufvk
import VizorWallet.Migration.KeptAnchors
import VizorWallet.Migration.Locks.Convergence
import VizorWallet.Migration.Preparation.Emission
import VizorWallet.Migration.Reorg.Reconciliation
import VizorWallet.Migration.Retention
import VizorWallet.Migration.Retry
import VizorWallet.Migration.Split.Heights
import VizorWallet.Migration.Split.Status
import VizorWallet.Migration.Store.Generations
import VizorWallet.Migration.Store.Promotion
import VizorWallet.Migration.Store.Rebase
import VizorWallet.Migration.Store.Replay
import VizorWallet.Migration.Store.Schedule
import VizorWallet.Migration.Store.Stop
import VizorWallet.Migration.Store.Terminal
import VizorWallet.NetworkPrivacy.FailClosed
import VizorWallet.Outbox.Acknowledgement
import VizorWallet.Outbox.Attempts
import VizorWallet.Outbox.Rescheduling
import VizorWallet.PaymentLink.Lifecycle
import VizorWallet.Receive.Coverage
import VizorWallet.Receive.Sections
import VizorWallet.SecureStore.Recovery
import VizorWallet.Send.ReservedSelection
import VizorWallet.Send.Resubmit
import VizorWallet.Summary.Freshness
import VizorWallet.Zns.Soundness
