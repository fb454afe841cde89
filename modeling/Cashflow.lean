import Cashflow.Auth.Credentials
import Cashflow.Auth.Grpc
import Cashflow.Auth.Issuer
import Cashflow.Auth.Refresh
import Cashflow.Auth.TraceContext
import Cashflow.Auth.Tracing
import Cashflow.Consolidation.Marshal
import Cashflow.Consolidation.Progress
import Cashflow.Consolidation.Query
import Cashflow.Consolidation.Retries
import Cashflow.Consolidation.Stats
import Cashflow.Consolidation.Zoned
import Cashflow.Ledger.Amounts
import Cashflow.Ledger.Consistency
import Cashflow.Ledger.Idempotency
import Cashflow.Ledger.Internal
import Cashflow.Ledger.Pagination
import Cashflow.Ledger.Perimeter
import Cashflow.Ledger.Tenancy
import Cashflow.Observability.Slog
import Cashflow.Outbox.Leases
import Cashflow.Outbox.Migration
import Cashflow.Outbox.Publish
import Cashflow.Pipeline.Agreement
import Cashflow.Pipeline.Backdating
import Cashflow.Pipeline.Backoff
import Cashflow.Pipeline.BalanceSheet
import Cashflow.Pipeline.PublicQuery
import Cashflow.Pipeline.Survival
import Cashflow.Reconciliation.Runs
import Cashflow.Reconciliation.Verdicts
