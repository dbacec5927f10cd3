import Companion.Engine

/-!
# The interceptor hooks

`intercept.rs` and the fallback of `proxy.rs`: a request is forwarded to the node
and, when the node answers 2xx, the hook of its route mirrors what happened.  A
hook works from the two bodies; one that does not parse is `none`.  An error in a
hook is logged and the answer is passed on regardless.

A hook that spawns a task returns at once, and the task is one a pool may start
at any time (`assetSync`, `reconcile`).

## Main definitions

* `forwardThen`, `noteLocked` — forwarding, with a hook for 2xx answers.
* One definition for each intercepted route, and `fallback` for the rest.
-/

set_option autoImplicit false

namespace Companion
open Lib

inductive HookError
  | request
  | response
  | engine (e : EngineError)
  deriving DecidableEq, Repr

/-- A store operation of a hook. -/
def hookStore (q : StoreOp) : Prog HookError q.Res :=
  Fallible.mapErr (fun e => .engine (.store e)) (store q)

/-- `Exchange::parse_req`. -/
def parseReq {α : Type} : Option α → Prog HookError α
  | some a => pure a
  | none => throw .request

/-- `Exchange::parse_resp`. -/
def parseResp {α : Type} : Option α → Prog HookError α
  | some a => pure a
  | none => throw .response

/-- The node state a refused request reveals. -/
def notedState : ℕ → Option RlnErrorBody → Option NodeState
  | 403, some err =>
      match err.name with
      | "LockedNode" | "ChangingState" => some .locked
      | "UnlockedNode" | "AlreadyUnlocked" => some .unlocked
      | _ => none
  | _, _ => none

def noteLocked (status : ℕ) (body : Option RlnErrorBody) : Proc Effects Unit :=
  match notedState status body with
  | none => pure ()
  | some state => do
      let _ ← (setNodeState state).run
      return ()

def forwardThen (r : Route) (onSuccess : Option r.Resp → Prog HookError Unit) :
    Proc Effects Unit := do
  match ← @Proc.perform Effects (.forward r) with
  | .failed => return ()
  | .refused status body => noteLocked status body
  | .success body =>
      let _ ← (onSuccess body).run
      return ()

/-! ## Transfers -/

structure InvoiceRequest where
  assetId : Option String
  witness : Bool
  deriving DecidableEq, Repr

/-- The row of an invoice. -/
def InvoiceRequest.transfer (req : InvoiceRequest) (resp : InvoiceResponse) : NewTransfer where
  assetId := req.assetId
  kind := some (if req.witness then "ReceiveWitness" else "ReceiveBlind")
  status := .waitingCounterparty
  recipientId := some resp.recipientId
  txid := none
  batchTransferIdx := some resp.batchTransferIdx
  invoice := some resp.invoice
  expirationTimestamp := resp.expirationTimestamp

def rgbinvoiceHook (req : Option InvoiceRequest) (resp : Option InvoiceResponse) :
    Prog HookError Unit := do
  let req ← parseReq req
  let resp ← parseResp resp
  let t ← now
  let _ ← hookStore (.insertTransfer (req.transfer resp) t)
  return ()

def rgbinvoice (req : Option InvoiceRequest) : Proc Effects Unit :=
  forwardThen .rgbinvoice (rgbinvoiceHook req)

/-- The request of `/sendrgb`; `assets` are the keys of its recipient map, in the
order the map yields them. -/
structure SendRequest where
  donation : Bool
  expirationTimestamp : Option ℕ
  assets : List String
  deriving DecidableEq, Repr

/-- The row of one asset of a send. -/
def SendRequest.transfer (req : SendRequest) (resp : SendResponse) (assetId : String) :
    NewTransfer where
  assetId := some assetId
  kind := some "Send"
  status := if req.donation then .waitingConfirmations else .waitingCounterparty
  recipientId := none
  txid := some resp.txid
  batchTransferIdx := none
  invoice := none
  expirationTimestamp := req.expirationTimestamp

/-- The loop of `sendrgb` over the assets. -/
def insertSends (req : SendRequest) (resp : SendResponse) : List String → Prog HookError Unit
  | [] => pure ()
  | assetId :: assetIds => do
      let t ← now
      let _ ← hookStore (.insertTransfer (req.transfer resp assetId) t)
      insertSends req resp assetIds

def sendrgbHook (req : Option SendRequest) (resp : Option SendResponse) : Prog HookError Unit := do
  let req ← parseReq req
  let resp ← parseResp resp
  insertSends req resp req.assets

def sendrgb (req : Option SendRequest) : Proc Effects Unit :=
  forwardThen .sendrgb (sendrgbHook req)

/-! ## Payments -/

structure KeysendRequest where
  destPubkey : String
  amtMsat : ℕ
  assetId : Option String
  assetAmount : Option ℕ
  deriving DecidableEq, Repr

def recordOutboundPayment (resp : PaymentResponse) (assetId : Option String)
    (assetAmount amtMsat : Option ℕ) (payeePubkey : Option String) : Prog HookError Unit :=
  match resp.paymentHash with
  | none => pure ()
  | some paymentHash => do
      let row : NewPayment := {
        paymentHash, direction := .outbound, status := .pending,
        assetId, assetAmount, amtMsat, payeePubkey }
      let t ← now
      let inserted ← Fallible.mapErr (fun e => .engine (.store e)) (insertPendingPayment row t)
      let _ ← Fallible.mapErr (fun e => .engine (.sync e))
        (applyPaymentObserved inserted resp.status t)
      return ()

def keysendHook (req : Option KeysendRequest) (resp : Option PaymentResponse) :
    Prog HookError Unit := do
  let req ← parseReq req
  let resp ← parseResp resp
  recordOutboundPayment resp req.assetId req.assetAmount (some req.amtMsat) (some req.destPubkey)

def keysend (req : Option KeysendRequest) : Proc Effects Unit :=
  forwardThen .keysend (keysendHook req)

structure SendPaymentRequest where
  amtMsat : Option ℕ
  assetId : Option String
  assetAmount : Option ℕ
  deriving DecidableEq, Repr

def sendpaymentHook (req : Option SendPaymentRequest) (resp : Option PaymentResponse) :
    Prog HookError Unit := do
  let req ← parseReq req
  let resp ← parseResp resp
  recordOutboundPayment resp req.assetId req.assetAmount req.amtMsat none

def sendpayment (req : Option SendPaymentRequest) : Proc Effects Unit :=
  forwardThen .sendpayment (sendpaymentHook req)

structure LNInvoiceRequest where
  amtMsat : Option ℕ
  assetId : Option String
  assetAmount : Option ℕ
  deriving DecidableEq, Repr

def decodeLnInvoice (invoice : String) : Prog EngineError String :=
  Fallible.mapErr .rln (node (.decodeLnInvoice invoice))

def lninvoiceHook (req : Option LNInvoiceRequest) (resp : Option LNInvoiceResponse) :
    Prog HookError Unit := do
  let req ← parseReq req
  let resp ← parseResp resp
  let paymentHash ← Fallible.mapErr .engine (decodeLnInvoice resp.invoice)
  let row : NewPayment := {
    paymentHash, direction := .inbound, status := .pending,
    assetId := req.assetId, assetAmount := req.assetAmount, amtMsat := req.amtMsat,
    payeePubkey := none }
  let t ← now
  let _ ← Fallible.mapErr (fun e => .engine (.store e)) (insertPendingPayment row t)
  return ()

def lninvoice (req : Option LNInvoiceRequest) : Proc Effects Unit :=
  forwardThen .lninvoice (lninvoiceHook req)

/-! ## Assets -/

/-- The task `spawn_asset_sync` spawns. -/
def assetSync (cfg : Config) (ids : List String) : Proc Effects Unit := do
  let _ ← (withLock do
    let t ← now
    syncLocked cfg (.assets ids) t).run
  return ()

/-- `issue`, under the schema of its route. -/
def issueHook (schema : String) (resp : Option IssueResponse) : Prog HookError Unit := do
  let resp ← parseResp resp
  let t ← now
  hookStore (.upsertAssets [(resp.asset.assetId, schema)] t)

def issue (schema : String) : Proc Effects Unit :=
  forwardThen .issueasset (issueHook schema)

def inflate (req : Option AssetIdField) : Proc Effects Unit :=
  forwardThen .inflate fun _ => do
    let _ ← parseReq req
    return ()

structure AssetLinkRequest where
  parentAssetId : String
  childAssetId : String
  deriving DecidableEq, Repr

def assetlink (req : Option AssetLinkRequest) : Proc Effects Unit :=
  forwardThen .assetlink fun _ => do
    let _ ← parseReq req
    return ()

/-! ## Syncs and the node's lifecycle -/

/-- The engine lock is held from before the request is forwarded. -/
def syncPending (cfg : Config) (r : Route) : Proc Effects Unit := do
  @Proc.perform Effects .lock
  forwardThen r fun _ => do
    let t ← now
    let _ ← Fallible.mapErr .engine (syncLocked cfg .pending t)
    return ()
  @Proc.perform Effects .unlock

/-- The hooks that only record what state the answer leaves the node in. -/
def stateHook (r : Route) (state : NodeState) : Proc Effects Unit :=
  forwardThen r fun _ => Fallible.mapErr .engine (setNodeState state)

def unlock : Proc Effects Unit := stateHook .unlock .unlocked

/-- Also serves `/init` and `/restore`. -/
def lock (r : Route) : Proc Effects Unit := stateHook r .locked

def shutdown : Proc Effects Unit := stateHook .shutdown .down

def fallback : Proc Effects Unit := forwardThen .other fun _ => return ()

end Companion
