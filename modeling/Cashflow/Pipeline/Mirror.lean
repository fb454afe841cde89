import Cashflow.Consolidation.Totals
import Cashflow.Consolidation.Wire
import Cashflow.Ledger.Consistency

/-!
# Pipeline — an entry and its event

The two services know an entry under two types: the ledger's row and the
projector's event. `Mirrors` relates them, column by column; `delivered` is the
shortest way from a ledger to a projection, for concrete runs.
-/

namespace Cashflow.Pipeline

open Lib Consolidation

/-- The event says what the ledger entry says. -/
def Mirrors (e : Ledger.EntryRow) (event : EntryConfirmed) : Prop :=
  event.entryID = e.id.text ∧ event.merchantID = e.merchantID.text ∧
    event.merchantPosition = e.position ∧ event.entryType = e.entryType.text ∧
    event.amountMinor = e.amountMinor ∧ event.businessDate = e.businessDate

instance (e : Ledger.EntryRow) (event : EntryConfirmed) : Decidable (Mirrors e event) :=
  inferInstanceAs (Decidable (_ ∧ _))

/-- The calls in which the projector applies the events of a ledger's outbox, in order. -/
def delivered (d : Ledger.Db) : List Call :=
  (d.outbox.rows.filterMap fun row => (parseEntryConfirmed row.payload).toOption).mapIdx
    fun i event => Call.apply (steady (i + 1)) event

/-- The merchant of the sample requests. -/
def sampleMerchant : Ledger.UUID :=
  ⟨"0b2d5c9e-8f1a-4d3b-9c6e-7a8b9c0d1e2f".toList, rfl, rfl⟩

end Cashflow.Pipeline
