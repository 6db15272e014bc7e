import TptErp.Pos.Tender
import TptErp.Pos.Txn
import TptErp.Ledger.EventStore

/-!
# Offline sync

A register writes every sale to its local log and to the list of pending sales.  `sync_to` copies
the pending list, applies each copied sale at the central store, waiting for every answer, and
then clears the pending list.

A sale is identified by its transaction id, the idempotency key; the time stamp is left out.
-/

namespace TptErp.Pos

open Ledger

/-- Marker of registers. -/
inductive PosTerminal

inductive SaleKind
  | sale
  | ret
  | exchange
deriving DecidableEq

/-- The text of a transaction id, alone or after `ret-`. -/
inductive TxnKey
  | txn (id : Id PosTxn)
  | ret (id : Id PosTxn)
deriving DecidableEq

structure SaleEvent where
  txnId : TxnKey
  terminal : Id PosTerminal
  kind : SaleKind
  total : Money Usd
  tenders : List (TenderKind × Money Usd)

/-- The register's side: the local log, the pending sales and the count of finished runs. -/
structure PosSync where
  terminal : Id PosTerminal
  localLog : InMemoryEventStore (Id PosTerminal) SaleEvent := {}
  pending : List SaleEvent := []
  syncedJobs : Nat := 0

/-- The central store, its sales in the order they were applied in. -/
structure InMemoryCentral where
  applied : List SaleEvent := []

namespace PosSync

def recordOffline (s : PosSync) (sale : SaleEvent) : PosSync :=
  let event : Event (Id PosTerminal) SaleEvent :=
    { aggregateId := s.terminal, eventType := "sale-recorded", payload := sale }
  { s with localLog := (s.localLog.append event).2, pending := s.pending ++ [sale] }

def clear (s : PosSync) : PosSync := { s with pending := [] }

/-- The end of a run that has published its job. -/
def finish (s : PosSync) : PosSync := { s with syncedJobs := s.syncedJobs + 1 }

/-- The sales recorded so far. -/
def recorded (s : PosSync) : List SaleEvent := s.localLog.log.map (·.payload)

@[simp] theorem recordOffline_pending (s : PosSync) (sale : SaleEvent) :
    (s.recordOffline sale).pending = s.pending ++ [sale] := rfl

@[simp] theorem recordOffline_recorded (s : PosSync) (sale : SaleEvent) :
    (s.recordOffline sale).recorded = s.recorded ++ [sale] := by
  simp [recorded, recordOffline, InMemoryEventStore.stored]

end PosSync

namespace InMemoryCentral

/-- The store has applied a sale under this key. -/
def Has (c : InMemoryCentral) (key : TxnKey) : Prop := key ∈ c.applied.map (·.txnId)

instance (c : InMemoryCentral) (key : TxnKey) : Decidable (c.Has key) :=
  inferInstanceAs (Decidable (_ ∈ _))

/-- Applying a sale whose key was seen before is a no-op. -/
def applySale (c : InMemoryCentral) (sale : SaleEvent) : InMemoryCentral :=
  if c.Has sale.txnId then c else { applied := c.applied ++ [sale] }

theorem applySale_has (c : InMemoryCentral) (sale : SaleEvent) (key : TxnKey) :
    (c.applySale sale).Has key ↔ c.Has key ∨ key = sale.txnId := by
  unfold applySale
  split
  · next h =>
    constructor
    · exact Or.inl
    · rintro (h' | rfl)
      · exact h'
      · exact h
  · simp [Has]

/-- No key is ever applied twice. -/
theorem applySale_nodup (c : InMemoryCentral) (sale : SaleEvent) (h : (c.applied.map (·.txnId)).Nodup) :
    ((c.applySale sale).applied.map (·.txnId)).Nodup := by
  unfold applySale
  split
  · exact h
  · next hnew =>
    rw [List.map_append, List.nodup_append']
    refine ⟨h, by simp, ?_⟩
    intro k hk hk'
    simp only [List.map_cons, List.map_nil, List.mem_singleton] at hk'
    exact hnew (hk' ▸ hk)

end InMemoryCentral

end TptErp.Pos
