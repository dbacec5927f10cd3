import Companion.Effects
import Companion.Lib.Text
import Companion.Names

/-!
# The API of the companion

`api.rs`: the requests the companion answers by itself.  Their handlers only read the
store, one query after another and under no lock, so a handler is a process over reads
that sees the database of a later moment with each of them.

## Main definitions

* `ReadOp`, `Reads` — the queries of the handlers.
* `bearerToken`, `requireToken` — who is let in.
* `health`, `listTransfers`, `listPayments`, `getTransfer`, `openapi` — the handlers.
* `serve` — the requests, with the errors as they are sent.
-/

set_option autoImplicit false

namespace Companion
open Lib

namespace Api

def defaultLimit : ℕ := 100
def maxLimit : ℕ := 1000

/-! ## Queries -/

inductive ReadOp
  | getTransfer (id : ℕ)
  | listTransfers (status : Option TransferStatus) (assetId : Option String) (limit : ℕ)
  | pendingTransfers
  | pendingPayments
  | listPayments (status : Option PaymentStatus) (limit : ℕ)
  | parkedEventsCount (maxAttempts : ℕ)
  | nodeState
  | lastFullSyncAt

def ReadOp.Res : ReadOp → Type
  | getTransfer _ => Option Transfer
  | listTransfers .. | pendingTransfers => List Transfer
  | pendingPayments | listPayments .. => List Payment
  | parkedEventsCount _ => ℕ
  | nodeState => NodeState
  | lastFullSyncAt => Option ℤ

/-- `ORDER BY created_at DESC, rowid DESC` of rows in rowid order. -/
def newestFirst {α : Type} (createdAt : α → ℤ) (rows : List α) : List α :=
  rows.reverse.insertionSort fun a b => createdAt b ≤ createdAt a

end Api

namespace Db
open Api

/-- `Store::list_transfers`. -/
def listTransfers (db : Db) (status : Option TransferStatus) (assetId : Option String)
    (limit : ℕ) : List Transfer :=
  (newestFirst Transfer.createdAt (db.transfers.rows.filter fun r =>
    status.all (fun s => r.status = s) && assetId.all (fun a => r.assetId = some a))).take limit

/-- `Store::pending_payments`. -/
def pendingPayments (db : Db) : List Payment :=
  (db.payments.rows.filter fun r => !r.status.terminal).insertionSort
    fun a b => a.createdAt ≤ b.createdAt

/-- `Store::list_payments`. -/
def listPayments (db : Db) (status : Option PaymentStatus) (limit : ℕ) : List Payment :=
  (newestFirst Payment.createdAt (db.payments.rows.filter fun r =>
    status.all fun s => r.status = s)).take limit

end Db

namespace Api

/-- What a query finds. -/
def ReadOp.answer (db : Db) : (q : ReadOp) → q.Res
  | getTransfer id => db.transfer? id
  | listTransfers status assetId limit => db.listTransfers status assetId limit
  | pendingTransfers => db.pendingTransfers
  | pendingPayments => db.pendingPayments
  | listPayments status limit => db.listPayments status limit
  | parkedEventsCount maxAttempts => db.parkedEventsCount maxAttempts
  | nodeState => db.nodeState.state
  | lastFullSyncAt => db.nodeState.lastFullSyncAt

/-- The signature of the handlers. -/
abbrev Reads : Signature := ⟨ReadOp, fun q => Except StoreError q.Res⟩

/-- A query finds what is there, or the database refuses it. -/
def ReadOp.Answers (q : ReadOp) (h : Host) (r : Except StoreError q.Res) : Prop :=
  r = .error .db ∨ r = .ok (q.answer h.db)

/-! ## Errors -/

inductive ApiError
  | invalidRequest (message : String)
  | unauthorized
  | notFound
  | store (e : StoreError)
  deriving DecidableEq, Repr

/-- The answer to a request that fails: the status, a name and a message. -/
structure ErrorBody where
  code : ℕ
  name : String
  error : String
  deriving DecidableEq, Repr

/-- `ApiError::into_response`; what went wrong in the store is not told. -/
def ApiError.body : ApiError → ErrorBody
  | invalidRequest message => ⟨400, "InvalidRequest", message⟩
  | unauthorized => ⟨401, "Unauthorized", "missing or invalid bearer token"⟩
  | notFound => ⟨404, "NotFound", "transfer not found"⟩
  | store _ => ⟨500, "Internal", "internal error"⟩

abbrev Handler (α : Type) := Fallible Reads ApiError α

def read (q : ReadOp) : Handler q.Res :=
  Fallible.mapErr .store (ExceptT.mk (@Proc.perform Reads q))

/-! ## The bearer token -/

/-- `char::is_whitespace`. -/
def isWhitespace (c : Char) : Bool :=
  (9 ≤ c.toNat ∧ c.toNat ≤ 13) ∨ (0x2000 ≤ c.toNat ∧ c.toNat ≤ 0x200A) ∨
    c.toNat ∈ [0x20, 0x85, 0xA0, 0x1680, 0x2028, 0x2029, 0x202F, 0x205F, 0x3000]

/-- `str::trim`. -/
def trim : List Char → List Char := trimBy isWhitespace

/-- `str::eq_ignore_ascii_case`. -/
def eqIgnoreAsciiCase (a b : List Char) : Bool := a.map Char.toLower = b.map Char.toLower

/-- `bearer_token`. -/
def bearerToken (header : List Char) : Option (List Char) := do
  let (scheme, token) ← splitOnce isWhitespace (trim header)
  if eqIgnoreAsciiCase scheme "bearer".toList && !(trim token).isEmpty then some (trim token)
  else none

/-- `HeaderValue::to_str`: visible ASCII characters, blanks and tabs. -/
def headerStr (value : List UInt8) : Option (List Char) :=
  if value.all fun b => b = 9 ∨ (32 ≤ b ∧ b < 127) then some (value.map fun b => Char.ofNat b.toNat)
  else none

/-- `require_token`: whether the request goes on to its handler. -/
def requireToken (expected : Option String) (header : Option (List UInt8)) : Bool :=
  match expected with
  | none => true
  | some expected => ((header.bind headerStr).bind bearerToken).any fun t => t = expected.toList

/-! ## Handlers -/

structure Health where
  status : String
  node : String
  pendingTransfers : ℕ
  pendingPayments : ℕ
  parkedEvents : ℕ
  lastFullSyncAt : Option ℤ
  deriving DecidableEq, Repr

def nodeName : NodeState → String
  | .unknown => "unknown"
  | .locked => "locked"
  | .unlocked => "unlocked"
  | .down => "down"
  | .misconfigured => "misconfigured"

def health (webhookMaxAttempts : ℕ) : Handler Health := do
  let node : NodeState ← read .nodeState
  let pendingTransfers : List Transfer ← read .pendingTransfers
  let pendingPayments : List Payment ← read .pendingPayments
  let parkedEvents : ℕ ← read (.parkedEventsCount webhookMaxAttempts)
  let lastFullSyncAt ← read .lastFullSyncAt
  let status := if node = .unlocked ∧ parkedEvents = 0 then "ok" else "degraded"
  return { status, node := nodeName node, pendingTransfers := pendingTransfers.length,
           pendingPayments := pendingPayments.length, parkedEvents, lastFullSyncAt }

/-- The status a query string asks for. -/
def parseStatus {α : Type} [Named α] : Option String → Handler (Option α)
  | none => return none
  | some s =>
    match fromName s with
    | some status => return some status
    | none => throw (.invalidRequest s!"invalid status: {s}")

/-- The limit a query string asks for, within what is served. -/
def pageLimit (limit : Option UInt32) : ℕ :=
  min (limit.map UInt32.toNat |>.getD defaultLimit) maxLimit

/-- A query string that has been parsed, or what the extractor has to say about it. -/
def parseQuery {α : Type} : Except String α → Handler α
  | .ok q => return q
  | .error text => throw (.invalidRequest text)

structure ListQuery where
  status : Option String
  assetId : Option String
  limit : Option UInt32
  deriving DecidableEq, Repr

def listTransfers (query : Except String ListQuery) : Handler (List Transfer) := do
  let q ← parseQuery query
  let status ← parseStatus q.status
  read (.listTransfers status q.assetId (pageLimit q.limit))

structure PaymentListQuery where
  status : Option String
  limit : Option UInt32
  deriving DecidableEq, Repr

def listPayments (query : Except String PaymentListQuery) : Handler (List Payment) := do
  let q ← parseQuery query
  let status ← parseStatus q.status
  read (.listPayments status (pageLimit q.limit))

def getTransfer (id : ℕ) : Handler Transfer := do
  match ← read (.getTransfer id) with
  | some transfer => return transfer
  | none => throw .notFound

/-! ## Requests -/

/-- A request below `/companion`; `other` is any path without a route of its own. -/
inductive Request
  | health
  | transfers (query : Except String ListQuery)
  | transfer (id : ℕ)
  | payments (query : Except String PaymentListQuery)
  | openapi
  | other

/-- The routes behind the token. -/
def Request.isProtected : Request → Bool
  | health | other => false
  | _ => true

inductive Response
  | health (h : Health)
  | transfers (ts : List Transfer)
  | transfer (t : Transfer)
  | payments (ps : List Payment)
  | openapi (spec : String)
  | error (e : ErrorBody)

/-- The answer to a request: what the handler returns, or its error. -/
def respond {α : Type} (p : Handler α) (f : α → Response) : Proc Reads Response := do
  match ← p.run with
  | .ok a => return f a
  | .error e => return .error e.body

/-- `proxy::openapi`. -/
def openapi : Option String → Response
  | some spec => .openapi spec
  | none => .error ⟨404, "NotFound", "openapi spec not available"⟩

/-- What the handlers read of the state of the server. -/
structure State where
  openapi : Option String
  authToken : Option String
  webhookMaxAttempts : UInt32

/-- `routes`: a protected request is let in before its handler runs. -/
def serve (state : State) (header : Option (List UInt8)) (req : Request) : Proc Reads Response :=
  if req.isProtected && !requireToken state.authToken header then
    return .error ApiError.unauthorized.body
  else
    match req with
    | .health => respond (health state.webhookMaxAttempts.toNat) .health
    | .transfers query => respond (listTransfers query) .transfers
    | .transfer id => respond (getTransfer id) .transfer
    | .payments query => respond (listPayments query) .payments
    | .openapi => return openapi state.openapi
    | .other => return .error ApiError.notFound.body

end Api
end Companion
