import Companion.Api
import Companion.System

/-!
# The database as it is stored

`store.rs`, one level down: what SQLite holds of a status, a direction or the state of the
node is a text, and what it holds of an amount or an expiration is a signed integer.  Every
statement compares and writes columns, and a row is turned into a record only when it is
read, which can fail.

The operations are written here once more, statement by statement, over such rows.

## Main definitions

* `TransferRow`, `PaymentRow`, `Columns` — the rows and the database.
* `TransferRow.tryFrom`, `PaymentRow.tryFrom` — reading a row.
* `Columns.insertTransfer`, … — the operations.
* `Disk`, `diskSystem` — the companion over this database.
-/

set_option autoImplicit false

namespace Companion
open Lib Api

/-! ## Rows -/

/-- What `sqlx` reads of a row of `transfers`. -/
structure TransferRow where
  id : ℕ
  rlnIdx : Option ℤ
  assetId : Option String
  kind : Option String
  status : String
  recipientId : Option String
  txid : Option String
  batchTransferIdx : Option ℤ
  invoice : Option String
  expirationTimestamp : Option ℤ
  createdAt : ℤ
  updatedAt : ℤ
  lastSeenAt : Option ℤ
  settledAt : Option ℤ
  deriving DecidableEq, Repr

def TransferRow.Clash (a b : TransferRow) : Prop :=
  a.id = b.id ∨ sqlEq a.rlnIdx b.rlnIdx = true ∨ sqlEq a.recipientId b.recipientId = true

instance : DecidableRel TransferRow.Clash := fun a b => by
  unfold TransferRow.Clash; infer_instance

/-- What `sqlx` reads of a row of `payments`. -/
structure PaymentRow where
  paymentHash : String
  direction : String
  status : String
  assetId : Option String
  assetAmount : Option ℤ
  amtMsat : Option ℤ
  payeePubkey : Option String
  createdAt : ℤ
  updatedAt : ℤ
  lastSeenAt : Option ℤ
  deriving DecidableEq, Repr

def PaymentRow.Clash (a b : PaymentRow) : Prop := a.paymentHash = b.paymentHash

instance : DecidableRel PaymentRow.Clash := fun a b => by
  unfold PaymentRow.Clash; infer_instance

/-- The single row of `node_state`. -/
structure NodeColumns where
  state : String
  updatedAt : ℤ
  lastFullSyncAt : Option ℤ
  paymentsBaselineAt : Option ℤ
  deriving DecidableEq, Repr

/-! ## Reading a row -/

/-- `u64::try_from` of a nullable column. -/
def unsigned (message : String) : Option ℤ → Except StoreError (Option ℕ)
  | none => .ok none
  | some v => if 0 ≤ v then .ok (some v.toNat) else .error (.corrupt message)

/-- `TryFrom<TransferRow> for Transfer`. -/
def TransferRow.tryFrom (r : TransferRow) : Except StoreError Transfer := do
  let expirationTimestamp ← unsigned s!"negative expiration on {r.id}" r.expirationTimestamp
  let status ← enumFromStr TransferStatus r.status
  return {
    id := r.id
    rlnIdx := r.rlnIdx
    assetId := r.assetId
    kind := r.kind
    status
    recipientId := r.recipientId
    txid := r.txid
    batchTransferIdx := r.batchTransferIdx
    invoice := r.invoice
    expirationTimestamp
    createdAt := r.createdAt
    updatedAt := r.updatedAt
    lastSeenAt := r.lastSeenAt
    settledAt := r.settledAt }

/-- `TryFrom<PaymentRow> for Payment`. -/
def PaymentRow.tryFrom (r : PaymentRow) : Except StoreError Payment := do
  let amount := unsigned s!"negative amount on {r.paymentHash}"
  let direction ← enumFromStr PaymentDirection r.direction
  let status ← enumFromStr PaymentStatus r.status
  let assetAmount ← amount r.assetAmount
  let amtMsat ← amount r.amtMsat
  return {
    direction
    status
    assetId := r.assetId
    assetAmount
    amtMsat
    payeePubkey := r.payeePubkey
    createdAt := r.createdAt
    updatedAt := r.updatedAt
    lastSeenAt := r.lastSeenAt
    paymentHash := r.paymentHash }

/-! ## Writing a row -/

/-- The value of a nullable signed column. -/
def column (v : Option ℕ) : Option ℤ := v.map fun n => (n : ℤ)

/-- `ts_to_db`, as it is bound. -/
def bindTs (v : Option ℕ) : Except StoreError (Option ℤ) := (tsToDb v).map column

/-- `amt_to_db`, as it is bound. -/
def bindAmt (v : Option ℕ) : Except StoreError (Option ℤ) := (amtToDb v).map column

section Statuses
variable {α : Type} [Named α]

/-- `status_in` and `payment_status_in`: the names a row's status is compared with. -/
def statusIn (pred : α → Bool) : Except StoreError (List String) :=
  (Named.all.filter pred).mapM enumToStr

end Statuses

/-- The `VALUES` of `insert_transfer`. -/
def NewTransfer.values (t : NewTransfer) (id : ℕ) (status : String)
    (expirationTimestamp : Option ℤ) (now : ℤ) : TransferRow where
  id := id
  rlnIdx := none
  assetId := t.assetId
  kind := t.kind
  status := status
  recipientId := t.recipientId
  txid := t.txid
  batchTransferIdx := t.batchTransferIdx
  invoice := t.invoice
  expirationTimestamp := expirationTimestamp
  createdAt := now
  updatedAt := now
  lastSeenAt := none
  settledAt := none

/-- The `DO UPDATE SET` of `insert_transfer`. -/
def TransferRow.onConflict (excluded r : TransferRow) : TransferRow :=
  { r with
    invoice := excluded.invoice
    batchTransferIdx := excluded.batchTransferIdx
    expirationTimestamp := excluded.expirationTimestamp.or r.expirationTimestamp
    updatedAt := excluded.updatedAt }

/-- The `VALUES` of `upsert_observed`. -/
def Observed.values (o : Observed) (id : ℕ) (status : String)
    (expirationTimestamp : Option ℤ) (now : ℤ) : TransferRow where
  id := id
  rlnIdx := some o.rlnIdx
  assetId := o.assetId
  kind := some o.kind
  status := status
  recipientId := o.recipientId
  txid := o.txid
  batchTransferIdx := none
  invoice := none
  expirationTimestamp := expirationTimestamp
  createdAt := now
  updatedAt := now
  lastSeenAt := some now
  settledAt := none

/-- The `SET` of `upsert_observed`. -/
def Observed.set (o : Observed) (expirationTimestamp : Option ℤ) (now : ℤ) (r : TransferRow) :
    TransferRow :=
  { r with
    rlnIdx := some o.rlnIdx
    assetId := o.assetId.or r.assetId
    kind := some o.kind
    txid := o.txid.or r.txid
    expirationTimestamp := expirationTimestamp.or r.expirationTimestamp
    lastSeenAt := some now }

/-- The `SET` of `apply_transition`. -/
def TransferRow.set (status : String) (settledAt : Option ℤ) (now : ℤ) (r : TransferRow) :
    TransferRow :=
  { r with status, updatedAt := now, settledAt := settledAt.or r.settledAt }

/-- The `VALUES` of `upsert_payment`. -/
def NewPayment.values (p : NewPayment) (direction status : String)
    (assetAmount amtMsat lastSeenAt : Option ℤ) (now : ℤ) : PaymentRow where
  paymentHash := p.paymentHash
  direction := direction
  status := status
  assetId := p.assetId
  assetAmount := assetAmount
  amtMsat := amtMsat
  payeePubkey := p.payeePubkey
  createdAt := now
  updatedAt := now
  lastSeenAt := lastSeenAt

/-- The `DO UPDATE SET` of `upsert_payment`. -/
def PaymentRow.onConflict (excluded r : PaymentRow) : PaymentRow :=
  { r with
    direction := excluded.direction
    assetId := excluded.assetId.or r.assetId
    assetAmount := excluded.assetAmount.or r.assetAmount
    amtMsat := excluded.amtMsat.or r.amtMsat
    payeePubkey := excluded.payeePubkey.or r.payeePubkey
    lastSeenAt := excluded.lastSeenAt.or r.lastSeenAt }

/-- The `SET` of `apply_payment_transition`. -/
def PaymentRow.set (status : String) (now : ℤ) (r : PaymentRow) : PaymentRow :=
  { r with status, updatedAt := now }

/-- The `SET` of `record_attempt`. -/
def OutboxRow.setAttempt (nextAttemptAt : ℤ) (r : OutboxRow) : OutboxRow :=
  { r with attempts := r.attempts + 1, nextAttemptAt }

/-- The `SET` of `mark_delivered`. -/
def OutboxRow.setDelivered (now : ℤ) (r : OutboxRow) : OutboxRow :=
  { r with deliveredAt := some now }

theorem OutboxRow.setAttempt_clash (nextAttemptAt : ℤ) (a b : OutboxRow) :
    ((a.setAttempt nextAttemptAt).Clash b → a.Clash b) ∧
      (b.Clash (a.setAttempt nextAttemptAt) → b.Clash a) :=
  ⟨fun h => h, fun h => h⟩

theorem OutboxRow.setDelivered_clash (now : ℤ) (a b : OutboxRow) :
    ((a.setDelivered now).Clash b → a.Clash b) ∧
      (b.Clash (a.setDelivered now) → b.Clash a) :=
  ⟨fun h => h, fun h => h⟩

/-- The database, as it is stored. -/
structure Columns where
  transfers : Table TransferRow TransferRow.Clash
  assets : Table Asset Asset.Clash
  payments : Table PaymentRow PaymentRow.Clash
  nodeState : NodeColumns
  webhookOutbox : Table OutboxRow OutboxRow.Clash

namespace Columns

/-- The database the migrations create. -/
def migrated : Columns where
  transfers := Table.empty
  assets := Table.empty
  payments := Table.empty
  nodeState := ⟨"Unknown", 0, none, none⟩
  webhookOutbox := Table.empty

/-! ## Transfers -/

/-- `fetch_transfer`. -/
def fetchTransfer (transfers : Table TransferRow TransferRow.Clash) (id : ℕ) :
    Except StoreError Transfer :=
  match transfers.get? TransferRow.id id with
  | some r => r.tryFrom
  | none => .error (.corrupt s!"transfer {id} vanished")

/-- `Store::insert_transfer`. -/
def insertTransfer (db : Columns) (id : ℕ) (t : NewTransfer) (now : ℤ) :
    Except StoreError (Transfer × Columns) := do
  let status ← enumToStr t.status
  let expirationTimestamp ← bindTs t.expirationTimestamp
  let excluded := t.values id status expirationTimestamp now
  match db.transfers.rows.find? fun r => sqlEq r.recipientId excluded.recipientId with
  | some r =>
      let transfers := db.transfers.modify TransferRow.id r.id excluded.onConflict
        fun _ _ => ⟨fun h => h, fun h => h⟩
      let row ← fetchTransfer transfers r.id
      return (row, { db with transfers })
  | none =>
      match db.transfers.insert? excluded with
      | some transfers =>
          let row ← fetchTransfer transfers id
          return (row, { db with transfers })
      | none => throw .db

/-- `Store::get_transfer`. -/
def getTransfer (db : Columns) (id : ℕ) : Except StoreError (Option Transfer) :=
  (db.transfers.get? TransferRow.id id).mapM TransferRow.tryFrom

/-- `Store::list_transfers`. -/
def listTransfers (db : Columns) (status : Option TransferStatus) (assetId : Option String)
    (limit : ℕ) : Except StoreError (List Transfer) := do
  let status ← status.mapM enumToStr
  let rows := (newestFirst TransferRow.createdAt (db.transfers.rows.filter fun r =>
    (status.isNone || sqlEq (some r.status) status) &&
      (assetId.isNone || sqlEq r.assetId assetId))).take limit
  rows.mapM TransferRow.tryFrom

/-- `ORDER BY created_at, rowid` of rows in rowid order. -/
def byCreation {β : Type} (createdAt : β → ℤ) (rows : List β) : List β :=
  rows.insertionSort fun a b => createdAt a ≤ createdAt b

/-- `Store::pending_transfers`. -/
def pendingTransfers (db : Columns) : Except StoreError (List Transfer) := do
  let names ← statusIn TransferStatus.waiting
  let rows := byCreation TransferRow.createdAt (db.transfers.rows.filter fun r => r.status ∈ names)
  rows.mapM TransferRow.tryFrom

/-- How `ORDER BY` compares a nullable text: nulls come first. -/
def NullsFirst : Option String → Option String → Prop
  | none, _ => True
  | some _, none => False
  | some a, some b => a ≤ b

instance : DecidableRel NullsFirst
  | none, _ => isTrue trivial
  | some _, none => isFalse id
  | some a, some b => inferInstanceAs (Decidable (a ≤ b))

/-- `Store::pending_asset_ids`. -/
def pendingAssetIds (db : Columns) : Except StoreError (List String × Bool) := do
  let names ← statusIn TransferStatus.waiting
  let rows := ((db.transfers.rows.filter fun r => r.status ∈ names).map
    TransferRow.assetId).dedup.insertionSort NullsFirst
  let agnostic := rows.any Option.isNone
  return (rows.filterMap id, agnostic)

/-- The condition of the match of `upsert_observed`. -/
def matchesObserved (o : Observed) (r : TransferRow) : Bool :=
  sqlEq r.rlnIdx (some o.rlnIdx) ||
    (r.rlnIdx.isNone &&
      (sqlEq r.recipientId o.recipientId ||
        (sqlEq r.txid o.txid && sqlEq r.assetId o.assetId)))

/-- The `CASE` the match is ordered by. -/
def matchRank (o : Observed) (r : TransferRow) : ℕ :=
  if sqlEq r.rlnIdx (some o.rlnIdx) then 0
  else if sqlEq r.recipientId o.recipientId then 1
  else 2

/-- `Store::upsert_observed`. -/
def upsertObserved (db : Columns) (id : ℕ) (o : Observed) (now : ℤ) :
    Except StoreError (Transfer × Columns) := do
  let existing :=
    ((db.transfers.rows.filter (matchesObserved o)).argmin (matchRank o)).map TransferRow.id
  match existing with
  | some existing =>
      let expirationTimestamp ← bindTs o.expirationTimestamp
      match db.transfers.update? TransferRow.id existing (o.set expirationTimestamp now) with
      | some transfers =>
          let row ← fetchTransfer transfers existing
          return (row, { db with transfers })
      | none => throw .db
  | none =>
      let status ← enumToStr o.status
      let expirationTimestamp ← bindTs o.expirationTimestamp
      match db.transfers.insert? (o.values id status expirationTimestamp now) with
      | some transfers =>
          let row ← fetchTransfer transfers id
          return (row, { db with transfers })
      | none => throw .db

/-- `Store::apply_transition`. -/
def applyTransition (db : Columns) (id : ℕ) (src dst : TransferStatus)
    (event : Option NewEvent) (now : ℤ) : Except StoreError (Bool × Columns) := do
  if src = dst then return (false, db)
  let settledAt := if dst = .settled then some now else none
  let status ← enumToStr dst
  let expected ← enumToStr src
  match db.transfers.cas? TransferRow.id id (fun r => r.status = expected)
      (TransferRow.set status settledAt now)
      fun _ _ => ⟨fun h => h, fun h => h⟩ with
  | none => return (false, db)
  | some transfers =>
      let webhookOutbox ← Db.enqueue db.webhookOutbox event now
      return (true, { db with transfers, webhookOutbox })

/-- `Store::expired_fallible`. -/
def expiredFallible (db : Columns) (now : ℤ) : Except StoreError (List Transfer) := do
  let names ← statusIn TransferStatus.fallible
  let rows := byCreation TransferRow.createdAt (db.transfers.rows.filter fun r =>
    r.expirationTimestamp.isSome && r.expirationTimestamp.any (fun e => e < now) &&
      r.status ∈ names)
  rows.mapM TransferRow.tryFrom

/-! ## Payments -/

/-- `Store::upsert_payment`. -/
def upsertPayment (db : Columns) (p : NewPayment) (lastSeenAt : Option ℤ) (now : ℤ) :
    Except StoreError (Payment × Columns) := do
  let direction ← enumToStr p.direction
  let status ← enumToStr p.status
  let assetAmount ← bindAmt p.assetAmount
  let amtMsat ← bindAmt p.amtMsat
  let excluded := p.values direction status assetAmount amtMsat lastSeenAt now
  match db.payments.get? PaymentRow.paymentHash excluded.paymentHash with
  | some r =>
      let payments := db.payments.modify PaymentRow.paymentHash excluded.paymentHash
        excluded.onConflict fun _ _ => ⟨fun h => h, fun h => h⟩
      let row ← (excluded.onConflict r).tryFrom
      return (row, { db with payments })
  | none =>
      match db.payments.insert? excluded with
      | some payments =>
          let row ← excluded.tryFrom
          return (row, { db with payments })
      | none => throw .db

/-- `Store::apply_payment_transition`. -/
def applyPaymentTransition (db : Columns) (paymentHash : String) (src dst : PaymentStatus)
    (event : Option NewEvent) (now : ℤ) : Except StoreError (Bool × Columns) := do
  if src = dst then return (false, db)
  let status ← enumToStr dst
  let expected ← enumToStr src
  match db.payments.cas? PaymentRow.paymentHash paymentHash (fun r => r.status = expected)
      (PaymentRow.set status now)
      fun _ _ => ⟨fun h => h, fun h => h⟩ with
  | none => return (false, db)
  | some payments =>
      let webhookOutbox ← Db.enqueue db.webhookOutbox event now
      return (true, { db with payments, webhookOutbox })

/-- `Store::pending_payments`. -/
def pendingPayments (db : Columns) : Except StoreError (List Payment) := do
  let names ← statusIn fun s : PaymentStatus => !s.terminal
  let rows := byCreation PaymentRow.createdAt (db.payments.rows.filter fun r => r.status ∈ names)
  rows.mapM PaymentRow.tryFrom

/-- `Store::list_payments`. -/
def listPayments (db : Columns) (status : Option PaymentStatus) (limit : ℕ) :
    Except StoreError (List Payment) := do
  let status ← status.mapM enumToStr
  let rows := (newestFirst PaymentRow.createdAt (db.payments.rows.filter fun r =>
    status.isNone || sqlEq (some r.status) status)).take limit
  rows.mapM PaymentRow.tryFrom

/-! ## Assets, the state of the node and the outbox -/

/-- `Store::upsert_assets`. -/
def upsertAssets (db : Columns) (assets : List (String × String)) (now : ℤ) :
    Except StoreError Columns := do
  let assets ← assets.foldlM (Db.upsertAsset now) db.assets
  return { db with assets }

/-- `Store::node_state`. -/
def getNodeState (db : Columns) : Except StoreError NodeState :=
  enumFromStr NodeState db.nodeState.state

/-- `Store::set_node_state`. -/
def setNodeState (db : Columns) (state : NodeState) (now : ℤ) :
    Except StoreError (Unit × Columns) := do
  let state ← enumToStr state
  return ((), { db with nodeState := { db.nodeState with state, updatedAt := now } })

/-- `Store::set_last_full_sync_at`. -/
def setLastFullSyncAt (db : Columns) (now : ℤ) : Columns :=
  { db with nodeState := { db.nodeState with lastFullSyncAt := some now } }

/-- `Store::set_payments_baseline_at`. -/
def setPaymentsBaselineAt (db : Columns) (now : ℤ) : Columns :=
  { db with nodeState := { db.nodeState with paymentsBaselineAt := some now } }

/-- `Store::undelivered_events`. -/
def undeliveredEvents (db : Columns) (maxAttempts : ℕ) : List OutboxEvent :=
  ((db.webhookOutbox.rows.filter fun r =>
    r.deliveredAt.isNone && decide (r.attempts < maxAttempts)).take 100).map OutboxRow.event

/-- `Store::parked_events_count`. -/
def parkedEventsCount (db : Columns) (maxAttempts : ℕ) : ℕ :=
  db.webhookOutbox.rows.countP fun r => r.deliveredAt.isNone && decide (maxAttempts ≤ r.attempts)

/-- `Store::record_attempt`. -/
def recordAttempt (db : Columns) (id : ℕ) (nextAttemptAt : ℤ) : Columns :=
  { db with
    webhookOutbox := db.webhookOutbox.modify OutboxRow.id id (OutboxRow.setAttempt nextAttemptAt)
      (OutboxRow.setAttempt_clash nextAttemptAt) }

/-- `Store::mark_delivered`. -/
def markDelivered (db : Columns) (id : ℕ) (now : ℤ) : Columns :=
  { db with
    webhookOutbox := db.webhookOutbox.modify OutboxRow.id id (OutboxRow.setDelivered now)
      (OutboxRow.setDelivered_clash now) }

end Columns

/-! ## The companion over this database -/

/-- The companion's state with the database as it is stored. -/
structure Disk where
  db : Columns
  uuids : ℕ
  locked : Bool

namespace Disk

/-- What `Uuid::new_v4` returns. -/
def nextUuid (d : Disk) : ℕ :=
  (d.db.transfers.rows.map TransferRow.id ++ d.db.webhookOutbox.rows.map OutboxRow.id).foldr
    (fun id n => max (id + 1) n) d.uuids

def draw (d : Disk) : Disk := { d with uuids := d.nextUuid + 1 }

/-- An operation that fails commits nothing. -/
def commit {β : Type} (d : Disk) :
    Except StoreError (β × Columns) → Except StoreError β × Disk
  | .ok (a, db) => (.ok a, { d with db })
  | .error e => (.error e, d)

def release (d : Disk) : Disk := { d with locked := false }

end Disk

/-- What one store operation does to the stored database. -/
def StoreOp.onDisk : (q : StoreOp) → Disk → Except StoreError q.Res × Disk
  | insertTransfer t now, d => d.draw.commit (d.db.insertTransfer d.nextUuid t now)
  | pendingTransfers, d => (d.db.pendingTransfers, d)
  | pendingAssetIds, d => (d.db.pendingAssetIds, d)
  | upsertObserved o now, d => d.draw.commit (d.db.upsertObserved d.nextUuid o now)
  | applyTransition id src dst event now, d =>
      d.commit (d.db.applyTransition id src dst event now)
  | upsertPayment p lastSeenAt now, d => d.commit (d.db.upsertPayment p lastSeenAt now)
  | applyPaymentTransition hash src dst event now, d =>
      d.commit (d.db.applyPaymentTransition hash src dst event now)
  | upsertAssets assets now, d =>
      d.commit ((d.db.upsertAssets assets now).map fun db => ((), db))
  | expiredFallible now, d => (d.db.expiredFallible now, d)
  | nodeState, d => (d.db.getNodeState, d)
  | setNodeState state now, d => d.commit (d.db.setNodeState state now)
  | setLastFullSyncAt now, d => (.ok (), { d with db := d.db.setLastFullSyncAt now })
  | paymentsBaselineAt, d => (.ok d.db.nodeState.paymentsBaselineAt, d)
  | setPaymentsBaselineAt now, d => (.ok (), { d with db := d.db.setPaymentsBaselineAt now })
  | undeliveredEvents maxAttempts, d => (.ok (d.db.undeliveredEvents maxAttempts), d)
  | recordAttempt id next, d => (.ok (), { d with db := d.db.recordAttempt id next })
  | markDelivered id now, d => (.ok (), { d with db := d.db.markDelivered id now })

/-- What a query of a handler makes of the stored database. -/
def Api.ReadOp.onDisk (db : Columns) : (q : ReadOp) → Except StoreError q.Res
  | getTransfer id => db.getTransfer id
  | listTransfers status assetId limit => db.listTransfers status assetId limit
  | pendingTransfers => db.pendingTransfers
  | pendingPayments => db.pendingPayments
  | listPayments status limit => db.listPayments status limit
  | parkedEventsCount maxAttempts => .ok (db.parkedEventsCount maxAttempts)
  | nodeState => db.getNodeState
  | lastFullSyncAt => .ok db.nodeState.lastFullSyncAt

/-- One operation of a task; what is no business of the database is as before. -/
def World.onDisk (w : World) : (o : Op) → Disk → Option (o.Res × Disk)
  | .store q, d => if w.storeFails then some (.error .db, d) else some (q.onDisk d)
  | .lock, d => if d.locked then none else some ((), { d with locked := true })
  | .node c, d => some (w.env.node c, d)
  | .forward r, d => some (w.env.forward r, d)
  | .post ev, d => some (w.env.post ev, d)
  | .clock, d => some (w.env.clock, d)
  | .uuid, d => some (d.nextUuid, d.draw)
  | .unlock, d => some ((), { d with locked := false })

/-- The companion over the stored database. -/
def diskSystem (cfg : Config) : Pool Effects Disk where
  Choice := World
  perform w _ o d := w.onDisk o d
  drift _ d := some d.release
  reset := Disk.release
  boots ps := ∃ attempts passes, ps = [dispatcher cfg.webhook passes, startup cfg attempts]
  starts := Task cfg

end Companion
