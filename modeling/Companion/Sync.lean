import Companion.Config
import Companion.Effects

/-!
# Syncing the mirror with the node

The second half of `sync.rs`: the tasks that list what the node knows and write
it to the store.  A row is returned by its upsert, a transition is planned from
that row, and only then applied; between the three another task may move, so the
plan can be stale when it is applied.

## Main definitions

* `applyObserved`, `applyPaymentObserved` — plan from a row read earlier and apply.
* `observe`, `sync` — one listed transfer, and a whole sync of transfers.
* `syncPayments` — a whole pass over the payments.
-/

set_option autoImplicit false

namespace Companion
open Lib

/-- `SyncError`, without the serialisation of a payload, which does not fail. -/
inductive SyncError
  | rln (e : RlnError)
  | store (e : StoreError)
  deriving DecidableEq, Repr

/-! ## Transfers -/

inductive Scope
  | full
  | assets (ids : List String)
  | pending
  deriving DecidableEq, Repr

structure SyncReport where
  assets : ℕ := 0
  transfers : ℕ := 0
  transitions : ℕ := 0
  deriving DecidableEq, Repr

def fullMinPageSize : ℕ := 1000

/-- The event a transition carries, under the identifier drawn for it. -/
def transitionEvent (eventId : ℕ) (row : Transfer) (tr : Transition) (now : ℤ) : Option NewEvent :=
  tr.event.map fun e => ⟨eventId, e.asStr, .transfer (eventPayload eventId e row tr now)⟩

def applyObserved (row : Transfer) (observed : TransferStatus) (now : ℤ) :
    Prog SyncError Bool :=
  match planTransition row observed with
  | none => pure false
  | some tr => do
      let eventId ← newUuid
      Fallible.mapErr .store (store
        (.applyTransition tr.transferId tr.src tr.dst (transitionEvent eventId row tr now) now))

/-- The observation made of one listed transfer. -/
def RlnTransfer.observed (assetId : Option String) (t : RlnTransfer) : Observed where
  rlnIdx := t.idx
  assetId := assetId
  kind := t.kind
  status := t.status
  recipientId := t.recipientId
  txid := t.txid
  expirationTimestamp := t.expirationTimestamp

def observe (report : SyncReport) (assetId : Option String) (t : RlnTransfer) (now : ℤ) :
    Prog SyncError SyncReport := do
  let row ← Fallible.mapErr .store (store (.upsertObserved (t.observed assetId) now))
  let report := { report with transfers := report.transfers + 1 }
  if ← applyObserved row t.status now then
    return { report with transitions := report.transitions + 1 }
  else
    return report

/-- The loop of `sync` over one listing. -/
def observeAll (assetId : Option String) (now : ℤ) :
    List RlnTransfer → SyncReport → Prog SyncError SyncReport
  | [], report => pure report
  | t :: ts, report => do
      let report ← observe report assetId t now
      observeAll assetId now ts report

def fetchAssets (now : ℤ) : Prog SyncError (List String) := do
  let assets ← Fallible.mapErr .rln (node .listAssets)
  Fallible.mapErr .store (store (.upsertAssets assets now))
  return assets.map Prod.fst

/-- The loop of `sync` over the assets. -/
def syncAssets (pageSize : ℕ) (now : ℤ) : List String → SyncReport → Prog SyncError SyncReport
  | [], report => pure report
  | assetId :: assetIds, report => do
      let transfers ← Fallible.mapErr .rln (node (.listTransfers assetId pageSize))
      let report ← observeAll (some assetId) now transfers report
      syncAssets pageSize now assetIds report

/-- The elements of a `BTreeSet`, in order. -/
def btreeSet (ids : List String) : List String := ids.dedup.insertionSort (· ≤ ·)

/-- The assets a scope lists, and whether it lists the transfers without one. -/
def scopeAssets (scope : Scope) (now : ℤ) : Prog SyncError (List String × Bool) :=
  match scope with
  | .full => do
      let ids ← fetchAssets now
      return (btreeSet ids, true)
  | .assets ids => return (btreeSet ids, false)
  | .pending => do
      let (ids, agnostic) ← Fallible.mapErr .store (store .pendingAssetIds)
      if agnostic then
        let listed ← fetchAssets now
        return (btreeSet (ids ++ listed), agnostic)
      else
        return (btreeSet ids, agnostic)

/-- `sync`: the transfers without an asset first, then those of each asset. -/
def sync (cfg : Config.Sync) (scope : Scope) (now : ℤ) : Prog SyncError SyncReport := do
  let pageSize := if scope = .full then max cfg.pageSize fullMinPageSize else cfg.pageSize
  let (assetIds, assetless) ← scopeAssets scope now
  let report : SyncReport := { assets := assetIds.length }
  if assetless then
    let transfers ← Fallible.mapErr .rln (node (.listAssetlessTransfers pageSize))
    let report ← observeAll none now transfers report
    syncAssets pageSize now assetIds report
  else
    syncAssets pageSize now assetIds report

/-! ## Payments -/

structure PaymentSyncReport where
  payments : ℕ := 0
  transitions : ℕ := 0
  deriving DecidableEq, Repr

/-- The event a payment transition carries, under the identifier drawn for it. -/
def paymentTransitionEvent (eventId : ℕ) (row : Payment) (tr : PaymentTransition) (now : ℤ) :
    Option NewEvent :=
  tr.event.map fun e => ⟨eventId, e.asStr, .payment (paymentEventPayload eventId e row tr now)⟩

def applyPaymentObserved (row : Payment) (observed : PaymentStatus) (now : ℤ) :
    Prog SyncError Bool :=
  match planPaymentTransition row observed with
  | none => pure false
  | some tr => do
      let eventId ← newUuid
      Fallible.mapErr .store (store (.applyPaymentTransition tr.paymentHash tr.src tr.dst
        (paymentTransitionEvent eventId row tr now) now))

/-- Before the baseline everything is stored as listed; after it, a payment first
seen terminal is stored as `Pending`, so that its transition is announced. -/
def insertStatus (baseline : Bool) (status : PaymentStatus) : PaymentStatus :=
  if baseline && status.terminal then .pending else status

/-- The record made of one listed payment. -/
def RlnPayment.observed (baseline : Bool) (p : RlnPayment) : NewPayment where
  paymentHash := p.paymentHash
  direction := p.paymentType.direction
  status := insertStatus baseline p.status
  assetId := p.assetId
  assetAmount := p.assetAmount
  amtMsat := p.amtMsat
  payeePubkey := some p.payeePubkey

/-- `Store::upsert_payment_observed`. -/
def upsertPaymentObserved (p : NewPayment) (now : ℤ) : Prog StoreError Payment :=
  store (.upsertPayment p (some now) now)

/-- `Store::insert_pending_payment`. -/
def insertPendingPayment (p : NewPayment) (now : ℤ) : Prog StoreError Payment :=
  store (.upsertPayment p none now)

/-- The body of the loop of `syncPayments`. -/
def observePayment (baseline : Bool) (now : ℤ) (report : PaymentSyncReport) (p : RlnPayment) :
    Prog SyncError PaymentSyncReport := do
  let row ← Fallible.mapErr .store (upsertPaymentObserved (p.observed baseline) now)
  let report := { report with payments := report.payments + 1 }
  if ← applyPaymentObserved row p.status now then
    return { report with transitions := report.transitions + 1 }
  else
    return report

/-- The loop of `syncPayments`. -/
def observePayments (baseline : Bool) (now : ℤ) :
    List RlnPayment → PaymentSyncReport → Prog SyncError PaymentSyncReport
  | [], report => pure report
  | p :: ps, report => do
      let report ← observePayment baseline now report p
      observePayments baseline now ps report

def syncPayments (cfg : Config.Sync) (now : ℤ) : Prog SyncError PaymentSyncReport := do
  let payments ← Fallible.mapErr .rln (node (.listPayments cfg.pageSize))
  let baseline ← Fallible.mapErr .store (store .paymentsBaselineAt)
  let report ← observePayments baseline.isSome now payments {}
  if baseline.isNone then
    Fallible.mapErr .store (store (.setPaymentsBaselineAt now))
  return report

end Companion
