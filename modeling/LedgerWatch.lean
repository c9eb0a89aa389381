import LedgerWatch.Json.Writer
import LedgerWatch.Json.Reader
import LedgerWatch.Wire.Block
import LedgerWatch.Telemetry
import LedgerWatch.Metrics.Exposition
import LedgerWatch.Delivery.Pool
import LedgerWatch.Session.Reply
import LedgerWatch.Session.Notices
import LedgerWatch.Switchboard
import LedgerWatch.Proofs.Bloom.Contents
import LedgerWatch.Proofs.Block.Contents
import LedgerWatch.Proofs.Session.Followed
import LedgerWatch.Proofs.Subscriptions.Markets
import LedgerWatch.Proofs.Switchboard.Order
import LedgerWatch.Proofs.Switchboard.Interest
import LedgerWatch.Proofs.Switchboard.Silence
import LedgerWatch.Proofs.Switchboard.Payloads
import LedgerWatch.Proofs.Switchboard.Balance
import LedgerWatch.Proofs.Switchboard.Roster
import LedgerWatch.Proofs.Switchboard.Isolation
import LedgerWatch.Proofs.Switchboard.Shutdown
import LedgerWatch.Proofs.Switchboard.Admission
import LedgerWatch.Proofs.Switchboard.Results
import LedgerWatch.Proofs.Switchboard.Uncounted
import LedgerWatch.Proofs.Ledger.Contents
import LedgerWatch.Proofs.Switchboard.Holdings
import LedgerWatch.Proofs.Switchboard.Updates
import LedgerWatch.Proofs.Session.Swapped
import LedgerWatch.Proofs.Switchboard.Markets
import LedgerWatch.Proofs.Session.Fills
import LedgerWatch.Proofs.Switchboard.Fills
import LedgerWatch.Proofs.Switchboard.Queries
import LedgerWatch.Proofs.Session.Lookups
import LedgerWatch.Proofs.Bytes.Ordered
import LedgerWatch.Proofs.Ledger.Names
import LedgerWatch.Proofs.Session.References
import LedgerWatch.Proofs.Switchboard.Refusals
import LedgerWatch.Proofs.Switchboard.BatchSizes
import LedgerWatch.Proofs.Ident.Grammar
import LedgerWatch.Proofs.Text.Hexadecimal
import LedgerWatch.Proofs.Ident.Octets
import LedgerWatch.Proofs.Block.Chain
import LedgerWatch.Proofs.Market.Ordered
import LedgerWatch.Proofs.Subscriptions.Keys
import LedgerWatch.Proofs.Bloom.Cap
import LedgerWatch.Proofs.Switchboard.FilterSizes
import LedgerWatch.Proofs.Settings.Logs
import LedgerWatch.Proofs.Decimal.Bits
import LedgerWatch.Proofs.Decimal.Nearest
import LedgerWatch.Proofs.Decimal.Grammar
import LedgerWatch.Proofs.Settings.Variables
import LedgerWatch.Proofs.Subscriptions.Impact
import LedgerWatch.Proofs.Switchboard.Sharding
