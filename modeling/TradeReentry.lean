import TradeReentry.Admission.Slots
import TradeReentry.Main
import TradeReentry.Proofs.Admission.Settlements
import TradeReentry.Proofs.Decision.Audits
import TradeReentry.Proofs.Decision.Independence
import TradeReentry.Proofs.Decision.Effects
import TradeReentry.Proofs.Decision.Replies
import TradeReentry.Proofs.HybridId.Parsing
import TradeReentry.Proofs.Vocabulary.Rules
import TradeReentry.Proofs.HybridId.RoundTrip
import TradeReentry.Proofs.Ledger.Passing
import TradeReentry.Proofs.Ledger.Sequences
import TradeReentry.Proofs.Ledger.Continuing
import TradeReentry.Proofs.HybridId.Language
import TradeReentry.Proofs.Ledger.Bars
import TradeReentry.Proofs.Ledger.Payloads
import TradeReentry.Proofs.Ledger.Reports
import TradeReentry.Proofs.Ledger.Edits
import TradeReentry.Proofs.Csv.Layouts
import TradeReentry.Proofs.Decision.Chains
import TradeReentry.Proofs.Decision.Identifying
import TradeReentry.Proofs.Ledger.Interruptions
import TradeReentry.Proofs.HybridId.Positions
import TradeReentry.Proofs.Parameters.Books
import TradeReentry.Proofs.Parameters.Loading
import TradeReentry.Proofs.Json.Rereading
import TradeReentry.Proofs.Cli.Processing
import TradeReentry.Proofs.Ledger.Influence
import TradeReentry.Proofs.Ledger.Rotation
import TradeReentry.Proofs.Decision.LegalLots
import TradeReentry.Proofs.HybridId.Comments
import TradeReentry.Proofs.Settings.Bounds
import TradeReentry.Proofs.Settings.Directives
import TradeReentry.Proofs.Settings.Overrides
import TradeReentry.Proofs.Settings.Quotes
import TradeReentry.Proofs.Decision.Histories
import TradeReentry.Proofs.Decimal.Canonical
import TradeReentry.Proofs.Json.Escapes
import TradeReentry.Proofs.Service.Deliveries
import TradeReentry.Proofs.Time.Agreement
import TradeReentry.Proofs.Parameters.Predicates
