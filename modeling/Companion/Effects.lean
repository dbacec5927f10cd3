import Companion.Plan
import Companion.Lib.Pool

/-!
# The operations of a task

Everything a task of the companion does to the world outside its own memory: one
statement or transaction of the store, one call of the RLN client, one forwarded
request, one webhook POST, the clock, `Uuid::new_v4`, and the engine lock.  A task
is a process over these operations, written once in the modules that follow, and
every operation is atomic.

Sleeping, waking a loop and spawning a task change nothing but the moment at
which some task runs.  They are not operations: a pool may start any task at any
moment, which covers every such moment.

## Main definitions

* `Op`, `Effects` — the operations and the type of each answer.
* `Host` — the state of the companion: the database, a bound on the identifiers
  drawn so far, and the engine lock.
* `Env`, `perform` — an environment, and what an operation does under it.
* `Prog` — the tasks.
-/

set_option autoImplicit false

namespace Companion
open Lib

/-! ## What the node says -/

inductive RlnError
  | locked
  | cannotFail
  | api (code : ℕ) (name message : String)
  | transport
  | decode (message : String)
  deriving DecidableEq, Repr

structure RlnTransfer where
  idx : ℤ
  status : TransferStatus
  kind : String
  recipientId : Option String
  txid : Option String
  expirationTimestamp : Option ℕ
  deriving DecidableEq, Repr

inductive RlnPaymentType
  | outbound
  | inboundAutoClaim
  | inboundHodl
  deriving DecidableEq, Repr

def RlnPaymentType.direction : RlnPaymentType → PaymentDirection
  | outbound => .outbound
  | inboundAutoClaim | inboundHodl => .inbound

structure RlnPayment where
  amtMsat : Option ℕ
  assetAmount : Option ℕ
  assetId : Option String
  paymentHash : String
  paymentType : RlnPaymentType
  status : PaymentStatus
  payeePubkey : String
  deriving DecidableEq, Repr

structure RlnErrorBody where
  error : String
  code : ℕ
  name : String
  deriving DecidableEq, Repr

/-! ## The intercepted routes -/

structure InvoiceResponse where
  recipientId : String
  invoice : String
  expirationTimestamp : Option ℕ
  batchTransferIdx : ℤ
  deriving DecidableEq, Repr

structure SendResponse where
  txid : String
  deriving DecidableEq, Repr

structure PaymentResponse where
  paymentHash : Option String
  status : PaymentStatus
  deriving DecidableEq, Repr

structure LNInvoiceResponse where
  invoice : String
  deriving DecidableEq, Repr

structure AssetIdField where
  assetId : String
  deriving DecidableEq, Repr

structure IssueResponse where
  asset : AssetIdField
  deriving DecidableEq, Repr

inductive Route
  | rgbinvoice
  | sendrgb
  | keysend
  | sendpayment
  | lninvoice
  | issueasset
  | inflate
  | assetlink
  | refreshtransfers
  | failtransfers
  | init
  | unlock
  | restore
  | lock
  | shutdown
  /-- Any other route: proxied without a hook. -/
  | other
  deriving DecidableEq, Repr

/-- What the hook of a route reads from the body of a successful answer. -/
def Route.Resp : Route → Type
  | rgbinvoice => InvoiceResponse
  | sendrgb => SendResponse
  | keysend | sendpayment => PaymentResponse
  | lninvoice => LNInvoiceResponse
  | issueasset => IssueResponse
  | _ => Unit

/-- The outcome of forwarding a request.  A body that does not parse is `none`. -/
inductive Forwarded (ρ : Type)
  /-- No answer: the request is refused, the node is unreachable or too slow. -/
  | failed
  /-- An answer outside 2xx. -/
  | refused (status : ℕ) (body : Option RlnErrorBody)
  | success (body : Option ρ)

/-! ## Operations -/

/-- One committed statement or transaction of the store. -/
inductive StoreOp
  | insertTransfer (t : NewTransfer) (now : ℤ)
  | pendingTransfers
  | pendingAssetIds
  | upsertObserved (o : Observed) (now : ℤ)
  | applyTransition (id : ℕ) (src dst : TransferStatus) (event : Option NewEvent) (now : ℤ)
  | upsertPayment (p : NewPayment) (lastSeenAt : Option ℤ) (now : ℤ)
  | applyPaymentTransition (paymentHash : String) (src dst : PaymentStatus)
      (event : Option NewEvent) (now : ℤ)
  | upsertAssets (assets : List (String × String)) (now : ℤ)
  | expiredFallible (now : ℤ)
  | nodeState
  | setNodeState (state : NodeState) (now : ℤ)
  | setLastFullSyncAt (now : ℤ)
  | paymentsBaselineAt
  | setPaymentsBaselineAt (now : ℤ)
  | undeliveredEvents (maxAttempts : ℕ)
  | recordAttempt (id : ℕ) (nextAttemptAt : ℤ)
  | markDelivered (id : ℕ) (now : ℤ)

def StoreOp.Res : StoreOp → Type
  | insertTransfer _ _ | upsertObserved _ _ => Transfer
  | pendingTransfers | expiredFallible _ => List Transfer
  | pendingAssetIds => List String × Bool
  | applyTransition .. | applyPaymentTransition .. => Bool
  | upsertPayment .. => Payment
  | nodeState => NodeState
  | paymentsBaselineAt => Option ℤ
  | undeliveredEvents _ => List OutboxEvent
  | upsertAssets _ _ | setNodeState _ _ | setLastFullSyncAt _ | setPaymentsBaselineAt _
  | recordAttempt _ _ | markDelivered _ _ => Unit

/-- One call of the RLN client (`RlnApi`). -/
inductive NodeCall
  | refresh (skipSync : Bool)
  | listTransfers (assetId : String) (pageSize : ℕ)
  | listAssetlessTransfers (pageSize : ℕ)
  | listPayments (pageSize : ℕ)
  | decodeLnInvoice (invoice : String)
  | listAssets
  | failTransfer (batchTransferIdx : ℤ)
  | nodeInfo
  | network
  deriving DecidableEq, Repr

def NodeCall.Res : NodeCall → Type
  | listTransfers _ _ | listAssetlessTransfers _ => List RlnTransfer
  | listPayments _ => List RlnPayment
  | decodeLnInvoice _ | network => String
  | listAssets => List (String × String)
  | refresh _ | failTransfer _ | nodeInfo => Unit

inductive Op
  | store (q : StoreOp)
  | node (c : NodeCall)
  | forward (r : Route)
  | post (ev : OutboxEvent)
  | clock
  | uuid
  | lock
  | unlock

def Op.Res : Op → Type
  | store q => Except StoreError q.Res
  | node c => Except RlnError c.Res
  | forward r => Forwarded r.Resp
  | post _ => Except String Unit
  | clock => ℤ
  | uuid => ℕ
  | lock | unlock => Unit

/-- The signature of the companion's tasks. -/
abbrev Effects : Signature := ⟨Op, Op.Res⟩

/-! ## The host -/

/-- The companion's state: what is on disk, a bound on the identifiers drawn so far,
and the engine lock. -/
structure Host where
  db : Db
  uuids : ℕ
  locked : Bool

namespace Host

/-- A host over a database that has just been created. -/
def fresh : Host := ⟨Db.migrated, 0, false⟩

/-- What `Uuid::new_v4` returns: an identifier no row has and nobody has drawn. -/
def nextUuid (h : Host) : ℕ :=
  (h.db.transfers.rows.map Transfer.id ++ h.db.webhookOutbox.rows.map OutboxRow.id).foldr
    (fun id n => max (id + 1) n) h.uuids

/-- The identifier has been drawn. -/
def draw (h : Host) : Host := { h with uuids := h.nextUuid + 1 }

theorem lt_foldr_max {ids : List ℕ} {n id : ℕ} (h : id ∈ ids) :
    id < ids.foldr (fun id n => max (id + 1) n) n := by
  induction ids with
  | nil => simp at h
  | cons i ids ih =>
      rw [List.foldr_cons]
      rcases List.mem_cons.mp h with rfl | h
      · omega
      · have := ih h
        omega

theorem transfer_lt_nextUuid {h : Host} {r : Transfer} (hr : r ∈ h.db.transfers.rows) :
    r.id < h.nextUuid :=
  lt_foldr_max (List.mem_append_left _ (List.mem_map_of_mem hr))

theorem outbox_lt_nextUuid {h : Host} {r : OutboxRow} (hr : r ∈ h.db.webhookOutbox.rows) :
    r.id < h.nextUuid :=
  lt_foldr_max (List.mem_append_right _ (List.mem_map_of_mem hr))

/-- Keep what an operation commits; an operation that fails commits nothing. -/
def commit {α : Type} (h : Host) : Except StoreError (α × Db) → Except StoreError α × Host
  | .ok (a, db) => (.ok a, { h with db })
  | .error e => (.error e, h)

theorem commit_eq_ok {α : Type} {h : Host} {r : Except StoreError (α × Db)} {a : α} {db : Db}
    (hr : r = .ok (a, db)) : h.commit r = (.ok a, { h with db }) := by
  rw [hr]
  rfl

theorem commit_eq_error {α : Type} {h : Host} {r : Except StoreError (α × Db)} {e : StoreError}
    (hr : r = .error e) : h.commit r = (.error e, h) := by
  rw [hr]
  rfl

theorem commit_ok {α : Type} {h h' : Host} {r : Except StoreError (α × Db)} {a : α}
    (hc : h.commit r = (.ok a, h')) : ∃ db', r = .ok (a, db') ∧ h' = { h with db := db' } := by
  rcases r with e | ⟨b, db⟩
  · simp [commit] at hc
  · simp only [commit, Prod.mk.injEq, Except.ok.injEq] at hc
    rcases hc with ⟨rfl, rfl⟩
    exact ⟨db, rfl, rfl⟩

/-- Committing either keeps the host and reports the error, or installs the database. -/
theorem commit_cases {α : Type} {h h' : Host} {r : Except StoreError (α × Db)}
    {a : Except StoreError α} (hc : h.commit r = (a, h')) :
    h' = h ∨ ∃ b db', r = .ok (b, db') ∧ h' = { h with db := db' } := by
  rcases r with e | ⟨b, db⟩
  · exact Or.inl (Prod.mk.inj hc).2.symm
  · exact Or.inr ⟨b, db, rfl, (Prod.mk.inj hc).2.symm⟩

end Host

/-- What one store operation does. -/
def StoreOp.perform : (q : StoreOp) → Host → Except StoreError q.Res × Host
  | insertTransfer t now, h => h.draw.commit (h.db.insertTransfer h.nextUuid t now)
  | pendingTransfers, h => (.ok h.db.pendingTransfers, h)
  | pendingAssetIds, h => (.ok h.db.pendingAssetIds, h)
  | upsertObserved o now, h => h.draw.commit (h.db.upsertObserved h.nextUuid o now)
  | applyTransition id src dst event now, h =>
      h.commit (h.db.applyTransition id src dst event now)
  | upsertPayment p lastSeenAt now, h => h.commit (h.db.upsertPayment p lastSeenAt now)
  | applyPaymentTransition hash src dst event now, h =>
      h.commit (h.db.applyPaymentTransition hash src dst event now)
  | upsertAssets assets now, h =>
      h.commit ((h.db.upsertAssets assets now).map fun db => ((), db))
  | expiredFallible now, h => (.ok (h.db.expiredFallible now), h)
  | nodeState, h => (.ok h.db.nodeState.state, h)
  | setNodeState state now, h => (.ok (), { h with db := h.db.setNodeState state now })
  | setLastFullSyncAt now, h => (.ok (), { h with db := h.db.setLastFullSyncAt now })
  | paymentsBaselineAt, h => (.ok h.db.nodeState.paymentsBaselineAt, h)
  | setPaymentsBaselineAt now, h => (.ok (), { h with db := h.db.setPaymentsBaselineAt now })
  | undeliveredEvents maxAttempts, h => (.ok (h.db.undeliveredEvents maxAttempts), h)
  | recordAttempt id next, h => (.ok (), { h with db := h.db.recordAttempt id next })
  | markDelivered id now, h => (.ok (), { h with db := h.db.markDelivered id now })

/-! ## What a store operation writes -/

inductive DbTable
  | transfers
  | assets
  | payments
  | nodeState
  | webhookOutbox
  deriving DecidableEq

/-- The tables an operation may write. -/
def StoreOp.writes : StoreOp → List DbTable
  | insertTransfer _ _ | upsertObserved _ _ => [.transfers]
  | applyTransition _ _ _ _ _ => [.transfers, .webhookOutbox]
  | upsertPayment _ _ _ => [.payments]
  | applyPaymentTransition _ _ _ _ _ => [.payments, .webhookOutbox]
  | upsertAssets _ _ => [.assets]
  | setNodeState _ _ | setLastFullSyncAt _ | setPaymentsBaselineAt _ => [.nodeState]
  | recordAttempt _ _ | markDelivered _ _ => [.webhookOutbox]
  | pendingTransfers | pendingAssetIds | expiredFallible _ | nodeState | paymentsBaselineAt
  | undeliveredEvents _ => []

/-- The databases agree, apart from the tables `ts`. -/
structure Db.Frame (ts : List DbTable) (db db' : Db) : Prop where
  transfers : .transfers ∉ ts → db'.transfers = db.transfers
  assets : .assets ∉ ts → db'.assets = db.assets
  payments : .payments ∉ ts → db'.payments = db.payments
  nodeState : .nodeState ∉ ts → db'.nodeState = db.nodeState
  webhookOutbox : .webhookOutbox ∉ ts → db'.webhookOutbox = db.webhookOutbox

theorem Db.Frame.refl (ts : List DbTable) (db : Db) : db.Frame ts db := by
  constructor <;> simp

/-- An operation leaves the other tables alone. -/
theorem StoreOp.frame {q : StoreOp} {r : Except StoreError q.Res} {h h' : Host}
    (hp : q.perform h = (r, h')) : h.db.Frame q.writes h'.db := by
  cases q with
  | insertTransfer t now =>
    rcases Host.commit_cases hp with rfl | ⟨row, db', hok, rfl⟩
    · exact .refl _ _
    obtain ⟨T, rfl, -⟩ := Db.insertTransfer_ok hok
    constructor <;> simp [writes]
  | upsertObserved o now =>
    rcases Host.commit_cases hp with rfl | ⟨row, db', hok, rfl⟩
    · exact .refl _ _
    obtain ⟨T, rfl, -⟩ := Db.upsertObserved_ok hok
    constructor <;> simp [writes]
  | applyTransition id src dst event now =>
    rcases Host.commit_cases hp with rfl | ⟨b, db', hok, rfl⟩
    · exact .refl _ _
    rcases Db.applyTransition_ok hok with ⟨-, rfl⟩ | ⟨-, -, r, T, O, -, -, rfl, -⟩
    · exact .refl _ _
    · constructor <;> simp [writes]
  | applyPaymentTransition hash src dst event now =>
    rcases Host.commit_cases hp with rfl | ⟨b, db', hok, rfl⟩
    · exact .refl _ _
    rcases Db.applyPaymentTransition_ok hok with ⟨-, rfl⟩ | ⟨-, -, r, T, O, -, -, rfl, -⟩
    · exact .refl _ _
    · constructor <;> simp [writes]
  | upsertPayment p lastSeenAt now =>
    rcases Host.commit_cases hp with rfl | ⟨row, db', hok, rfl⟩
    · exact .refl _ _
    obtain ⟨T, rfl, -⟩ := Db.upsertPayment_ok hok
    constructor <;> simp [writes]
  | upsertAssets assets now =>
    rcases Host.commit_cases hp with rfl | ⟨u, db', hok, rfl⟩
    · exact .refl _ _
    obtain ⟨T, rfl⟩ := Db.upsertAssets_ok hok
    constructor <;> simp [writes]
  | setNodeState state now | setLastFullSyncAt now | setPaymentsBaselineAt now
  | recordAttempt id next | markDelivered id now =>
    cases hp
    constructor <;> intro hno <;> first | rfl | simp [writes] at hno
  | pendingTransfers | pendingAssetIds | expiredFallible now | nodeState | paymentsBaselineAt
  | undeliveredEvents n =>
    cases hp
    exact .refl _ _

/-- What the world outside answers. -/
structure Env where
  node : (c : NodeCall) → Except RlnError c.Res
  forward : (r : Route) → Forwarded r.Resp
  post : OutboxEvent → Except String Unit
  clock : ℤ

namespace Env

/-- Nobody answers, except the webhook endpoint. -/
def silent : Env where
  node := fun _ => .error .transport
  forward := fun _ => .failed
  post := fun _ => .ok ()
  clock := 0

/-- Only requests forwarded on one route are answered. -/
def answering (r : Route) (body : r.Resp) : Env :=
  { silent with forward := fun r' => if h : r' = r then .success (some (h ▸ body)) else .failed }

/-- Only one call to the node is answered. -/
def listing (c : NodeCall) (res : c.Res) : Env :=
  { silent with node := fun c' => if h : c' = c then .ok (h ▸ res) else .error .transport }

end Env

/-- What one operation does in a given environment. -/
def perform (env : Env) : (o : Op) → Host → o.Res × Host
  | .store q, h => q.perform h
  | .node c, h => (env.node c, h)
  | .forward r, h => (env.forward r, h)
  | .post ev, h => (env.post ev, h)
  | .clock, h => (env.clock, h)
  | .uuid, h => (h.nextUuid, h.draw)
  | .lock, h => ((), { h with locked := true })
  | .unlock, h => ((), { h with locked := false })

/-! ## Tasks -/

/-- A task that ends in a value or in an error. -/
abbrev Prog (ε α : Type) := Fallible Effects ε α

/-- One store operation. -/
def store (q : StoreOp) : Prog StoreError q.Res := ExceptT.mk (@Proc.perform Effects (.store q))

/-- One call to the node. -/
def node (c : NodeCall) : Prog RlnError c.Res := ExceptT.mk (@Proc.perform Effects (.node c))

/-- `now()`. -/
def now : Proc Effects ℤ := @Proc.perform Effects .clock

/-- `Uuid::new_v4()`. -/
def newUuid : Proc Effects ℕ := @Proc.perform Effects .uuid

/-- Run a task to the end with nobody else touching the host. -/
abbrev exec {ε α : Type} (env : Env) (p : Prog ε α) (h : Host) : Except ε α × Host :=
  Fallible.exec (perform env) p h

section Calls
variable {ε : Type} {env : Env} {c : NodeCall} {q : StoreOp} {h h' : Host}

theorem exec_node (env : Env) (f : RlnError → ε) (c : NodeCall) (h : Host) :
    exec env (Fallible.mapErr f (node c)) h = ((env.node c).mapError f, h) := rfl

theorem exec_node_ok {res : c.Res} (f : RlnError → ε) (hres : env.node c = .ok res) (h : Host) :
    exec env (Fallible.mapErr f (node c)) h = (.ok res, h) := by
  rw [exec_node, hres]
  rfl

theorem exec_node_error {e : RlnError} (f : RlnError → ε) (hres : env.node c = .error e)
    (h : Host) : exec env (Fallible.mapErr f (node c)) h = (.error (f e), h) := by
  rw [exec_node, hres]
  rfl

theorem exec_store (env : Env) (f : StoreError → ε) (q : StoreOp) (h : Host) :
    exec env (Fallible.mapErr f (store q)) h =
      ((q.perform h).1.mapError f, (q.perform h).2) := rfl

theorem exec_store_ok {a : q.Res} (f : StoreError → ε) (hq : q.perform h = (.ok a, h')) :
    exec env (Fallible.mapErr f (store q)) h = (.ok a, h') := by
  rw [exec_store, hq]
  rfl

theorem exec_store_error {e : StoreError} (f : StoreError → ε)
    (hq : q.perform h = (.error e, h')) :
    exec env (Fallible.mapErr f (store q)) h = (.error (f e), h') := by
  rw [exec_store, hq]
  rfl

end Calls

end Companion
