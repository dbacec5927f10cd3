import Companion.Http
import Companion.System
import Companion.Lib.Follow

/-!
# The companion as it is served

`main.rs`, `app.rs` and everything that runs in the process: the probe, the loops with their
timers, the tasks that are spawned, and the handlers with the requests they read and the
answers they send.  The tasks are those of `system`, with what was left out there put in:
when they sleep, whom they wake, what they spawn, and the octets of a request and of the
node's answer, which the hooks parse.

Bodies are JSON and the parser is a parameter.  A loop of the source runs for ever, so it
takes the number of rounds it has time for, and so does `reconcile`.

## Main definitions

* `ServerOp`, `Serving` — the operations.
* `refreshLoop`, `reaper`, `fullSyncTimer`, `paymentsLoop`, `dispatcherLoop` — the loops.
* `forwardThen`, and one handler for each endpoint.
* `main` — what the process does.
* `Machine`, `server` — the state and the pool.
-/

set_option autoImplicit false

namespace Companion.Server
open Lib

/-! ## What is configured -/

/-- `serde_json`, at the types the companion reads and writes. -/
structure Codec where
  errorBody : Api.ErrorBody → Bytes
  rlnError : Bytes → Option RlnErrorBody
  resp : (r : Route) → Bytes → Option r.Resp
  invoiceRequest : Bytes → Option InvoiceRequest
  sendRequest : Bytes → Option SendRequest
  keysendRequest : Bytes → Option KeysendRequest
  sendPaymentRequest : Bytes → Option SendPaymentRequest
  lnInvoiceRequest : Bytes → Option LNInvoiceRequest
  assetIdField : Bytes → Option AssetIdField
  assetLinkRequest : Bytes → Option AssetLinkRequest

/-- `AppState`, with the configuration of the engine and of the dispatcher. -/
structure App where
  cfg : Config
  proxy : Proxy
  api : Api.State
  codec : Codec

/-! ## Operations -/

/-- What is spawned. -/
inductive Job
  | assetSync (ids : List String)
  | reconcile
  | refreshLoop
  | reaper
  | fullSyncTimer
  | paymentsLoop
  | dispatcher
  deriving DecidableEq, Repr

/-- The intervals that are slept. -/
inductive Timer
  | reap
  | fullSync
  | payments
  | dispatch
  | backoff
  deriving DecidableEq, Repr

/-- A request: one of the API, or one that is handed on to the node. -/
inductive Request
  | api (authorization : Option Bytes) (req : Api.Request)
  | proxied (parts : Parts)

inductive Reply
  | api (resp : Api.Response)
  | proxied (resp : HttpResponse)

/-- How a wait for the refresh timer or for a wake ends. -/
inductive Waited
  | elapsed
  | notified
  deriving DecidableEq, Repr

inductive ServerOp
  /-- An operation of the tasks; their requests are sent with `send`. -/
  | eff (o : Op)
  /-- A query of an API handler. -/
  | read (q : Api.ReadOp)
  /-- A request arrives, with its body still to come. -/
  | accept (req : Request)
  /-- The body of a request, as far as it is read: to its end, past the limit, or to where it
  breaks off.  A client may take any time over it. -/
  | collect (parts : Parts)
  /-- A request that the HTTP client sends to the node for a client of the companion, and the
  node's whole answer, within the time that such a request has. -/
  | send (r : Route) (out : Outgoing)
  | respond (reply : Reply)
  | spawn (j : Job)
  /-- What was spawned begins, with time for so many rounds. -/
  | begin (j : Job) (rounds : ℕ)
  /-- `Notify::notify_one`. -/
  | wake
  /-- The refresh interval, or `Notify::notified` if that comes first. -/
  | wait
  | sleep (t : Timer)
  /-- Whether the port could be bound. -/
  | bind
  /-- From here on requests are accepted. -/
  | listen

def ServerOp.Res : ServerOp → Type
  | eff o => o.Res
  | read q => Except StoreError q.Res
  | collect _ => List Frame
  | send _ _ => Except SendError HttpResponse
  | wait => Waited
  | bind => Bool
  | accept _ | respond _ | spawn _ | begin _ _ | wake | sleep _ | listen => Unit

/-- The signature of everything that runs in the process. -/
abbrev Serving : Signature := ⟨ServerOp, ServerOp.Res⟩

def effects : Effects.Hom Serving := ⟨.eff, fun _ r => r⟩

def reads : Api.Reads.Hom Serving := ⟨.read, fun _ r => r⟩

abbrev ServerProg (ε α : Type) := Fallible Serving ε α

/-- One operation. -/
def ask (o : ServerOp) : Proc Serving o.Res := @Proc.perform Serving o

/-- `Engine::wake`. -/
def wake : Proc Serving Unit := ask .wake

/-- `tokio::spawn`. -/
def spawn (j : Job) : Proc Serving Unit := ask (.spawn j)

def sleep (t : Timer) : Proc Serving Unit := ask (.sleep t)

/-! ## The engine -/

/-- Take the engine lock for the whole of `p`, however it ends. -/
def withLock {ε α : Type} (p : ServerProg ε α) : ServerProg ε α := ExceptT.mk do
  ask (.eff .lock)
  let r ← p.run
  ask (.eff .unlock)
  return r

def backoffProbe (cfg : Config) : Proc Serving Unit := do
  sleep .backoff
  (Companion.backoffProbe cfg).lift effects

/-- `Engine::reap`. -/
def reap (now : ℤ) : ServerProg EngineError ℕ :=
  withLock do
    let expired ← (Fallible.mapErr .store (store (.expiredFallible now))).lift effects
    let failed ← (reapAll now expired 0).lift effects
    if failed > 0 then
      liftM wake
    return failed

/-- `Engine::reconcile`. -/
def reconcile (cfg : Config) : ℕ → ServerProg EngineError Bool
  | 0 => do
      let ended ← (reconcileOnce cfg).lift effects
      return ended.getD false
  | rounds + 1 => do
      match ← (reconcileOnce cfg).lift effects with
      | some b => return b
      | none =>
          liftM (sleep .backoff)
          reconcile cfg rounds

/-! ## The loops -/

/-- `Engine::run_refresh_loop`. -/
def refreshLoop (cfg : Config) : ℕ → Proc Serving Unit
  | 0 => pure ()
  | rounds + 1 => do
      let _ ← ask .wait
      let t ← now.lift effects
      match ← (tick cfg t).run.lift effects with
      | .ok .paused | .ok .locked | .ok .unreachable => backoffProbe cfg
      | _ => pure ()
      refreshLoop cfg rounds

/-- `Engine::run_reaper`. -/
def reaper : ℕ → Proc Serving Unit
  | 0 => pure ()
  | rounds + 1 => do
      sleep .reap
      if ← isUnlocked.lift effects then
        let t ← now.lift effects
        let _ ← (reap t).run
      reaper rounds

/-- `Engine::run_full_sync_timer`. -/
def fullSyncTimer (cfg : Config) : ℕ → Proc Serving Unit
  | 0 => pure ()
  | rounds + 1 => do
      sleep .fullSync
      if ← isUnlocked.lift effects then
        match ← (fullSync cfg).run.lift effects with
        | .ok _ => pure ()
        | .error e =>
            match ← (classify e).run.lift effects with
            | .ok .unreachable => backoffProbe cfg
            | _ => pure ()
      fullSyncTimer cfg rounds

/-- `Engine::run_payments_loop`. -/
def paymentsLoop (cfg : Config) : ℕ → Proc Serving Unit
  | 0 => pure ()
  | rounds + 1 => do
      sleep .payments
      let t ← now.lift effects
      match ← (paymentsTick cfg t).run.lift effects with
      | .ok .unreachable => backoffProbe cfg
      | _ => pure ()
      paymentsLoop cfg rounds

/-- `Dispatcher::run`. -/
def dispatcherLoop (cfg : Config.Webhook) : ℕ → Proc Serving Unit
  | 0 => pure ()
  | rounds + 1 => do
      sleep .dispatch
      let t ← now.lift effects
      let _ ← (dispatchDue cfg t).run.lift effects
      dispatcherLoop cfg rounds

/-- What is spawned, once it runs. -/
def Job.body (cfg : Config) (rounds : ℕ) : Job → Proc Serving Unit
  | assetSync ids => (Companion.assetSync cfg ids).lift effects
  | reconcile => do
      let _ ← (Server.reconcile cfg rounds).run
      return ()
  | refreshLoop => Server.refreshLoop cfg rounds
  | reaper => Server.reaper rounds
  | fullSyncTimer => Server.fullSyncTimer cfg rounds
  | paymentsLoop => Server.paymentsLoop cfg rounds
  | dispatcher => dispatcherLoop cfg.webhook rounds

/-- A task that runs what was spawned. -/
def Job.task (cfg : Config) (rounds : ℕ) (j : Job) : Proc Serving Unit := do
  ask (.begin j rounds)
  j.body cfg rounds

/-! ## The proxy -/

section Handlers
variable (app : App)

/-- `Proxy::read_body`. -/
def readBody (parts : Parts) : ServerProg ProxyError Bytes := do
  let frames : List Frame ← liftM (ask (.collect parts))
  ExceptT.mk (pure (toBytes app.proxy.maxBody frames))

/-- `Proxy::forward_parts`. -/
def forwardParts (r : Route) (parts : Parts) (body : Bytes) :
    ServerProg ProxyError HttpResponse :=
  match checkPath parts.path.text with
  | .error _ => throw .path
  | .ok _ => do
      let answer : Except SendError HttpResponse ←
        liftM (ask (.send r (app.proxy.outgoing parts body)))
      match answer with
      | .ok answer => return answer.relayed
      | .error e => throw (.ofSend e)

/-- `Proxy::forward`. -/
def forward (parts : Parts) : ServerProg ProxyError HttpResponse := do
  let body ← readBody app parts
  forwardParts app .other parts body

/-- `ProxyError::into_response`. -/
def ProxyError.intoResponse (e : ProxyError) : HttpResponse :=
  errorResponse app.codec.errorBody e.errorBody

def noteLocked (resp : HttpResponse) : Proc Serving Unit :=
  (Companion.noteLocked resp.status (app.codec.rlnError resp.body)).lift effects

/-- The headers are not looked at. -/
theorem noteLocked_relayed (answer : HttpResponse) :
    noteLocked app answer.relayed = noteLocked app answer := by
  rw [noteLocked, HttpResponse.status_relayed, HttpResponse.body_relayed, noteLocked]

def fallback (parts : Parts) : Proc Serving HttpResponse := do
  match ← (forward app parts).run with
  | .ok resp => do
      noteLocked app resp
      return resp.intoResponse
  | .error e => return e.intoResponse app

/-! ## The hooks -/

/-- The two bodies a hook works from. -/
structure Exchange where
  req : Bytes
  resp : Bytes

/-- `forward_then`, once the body has been read. -/
def forwardRead (r : Route) (parts : Parts) (body : Bytes)
    (onSuccess : Exchange → ServerProg HookError Unit) : Proc Serving HttpResponse := do
  match ← (forwardParts app r parts body).run with
  | .error e => return e.intoResponse app
  | .ok resp => do
      if resp.isSuccess then
        let _ ← (onSuccess ⟨body, resp.body⟩).run
      else
        noteLocked app resp
      return resp.intoResponse

def forwardThen (r : Route) (parts : Parts) (onSuccess : Exchange → ServerProg HookError Unit) :
    Proc Serving HttpResponse := do
  match ← (readBody app parts).run with
  | .error e => return e.intoResponse app
  | .ok body => forwardRead app r parts body onSuccess

def rgbinvoiceHook (ex : Exchange) : ServerProg HookError Unit := do
  (Companion.rgbinvoiceHook (app.codec.invoiceRequest ex.req)
    (app.codec.resp .rgbinvoice ex.resp)).lift effects
  liftM wake

def rgbinvoice (parts : Parts) : Proc Serving HttpResponse :=
  forwardThen app .rgbinvoice parts (rgbinvoiceHook app)

/-- `spawn_asset_sync`. -/
def spawnAssetSync (ids : List String) : ServerProg HookError Unit :=
  liftM (spawn (.assetSync ids))

def sendrgbHook (ex : Exchange) : ServerProg HookError Unit := do
  let req ← (parseReq (app.codec.sendRequest ex.req)).lift effects
  let resp : SendResponse ← (parseResp (app.codec.resp .sendrgb ex.resp)).lift effects
  (insertSends req resp req.assets).lift effects
  spawnAssetSync req.assets
  liftM wake

def sendrgb (parts : Parts) : Proc Serving HttpResponse :=
  forwardThen app .sendrgb parts (sendrgbHook app)

def keysend (parts : Parts) : Proc Serving HttpResponse :=
  forwardThen app .keysend parts fun ex =>
    (keysendHook (app.codec.keysendRequest ex.req) (app.codec.resp .keysend ex.resp)).lift effects

def sendpayment (parts : Parts) : Proc Serving HttpResponse :=
  forwardThen app .sendpayment parts fun ex =>
    (sendpaymentHook (app.codec.sendPaymentRequest ex.req)
      (app.codec.resp .sendpayment ex.resp)).lift effects

def lninvoice (parts : Parts) : Proc Serving HttpResponse :=
  forwardThen app .lninvoice parts fun ex =>
    (lninvoiceHook (app.codec.lnInvoiceRequest ex.req)
      (app.codec.resp .lninvoice ex.resp)).lift effects

/-- The schemas assets are issued under. -/
inductive Schema
  | nia
  | cfa
  | uda
  | ifa
  deriving DecidableEq, Repr

def Schema.asStr : Schema → String
  | nia => "NIA"
  | cfa => "CFA"
  | uda => "UDA"
  | ifa => "IFA"

def issueHook (schema : Schema) (ex : Exchange) : ServerProg HookError Unit := do
  let resp : IssueResponse ← (parseResp (app.codec.resp .issueasset ex.resp)).lift effects
  let t ← liftM (now.lift effects)
  (hookStore (.upsertAssets [(resp.asset.assetId, schema.asStr)] t)).lift effects
  spawnAssetSync [resp.asset.assetId]

def issue (schema : Schema) (parts : Parts) : Proc Serving HttpResponse :=
  forwardThen app .issueasset parts (issueHook app schema)

/-- A hook that reads from the request which assets to sync. -/
def syncHook {α : Type} (parse : Bytes → Option α) (ids : α → List String) (ex : Exchange) :
    ServerProg HookError Unit := do
  let req ← (parseReq (parse ex.req)).lift effects
  spawnAssetSync (ids req)

def inflate (parts : Parts) : Proc Serving HttpResponse :=
  forwardThen app .inflate parts (syncHook app.codec.assetIdField fun req => [req.assetId])

def assetlink (parts : Parts) : Proc Serving HttpResponse :=
  forwardThen app .assetlink parts
    (syncHook app.codec.assetLinkRequest fun req => [req.childAssetId, req.parentAssetId])

def syncPendingHook : ServerProg HookError Unit := do
  let t ← liftM (now.lift effects)
  let _ ← (Fallible.mapErr .engine (syncLocked app.cfg .pending t)).lift effects
  return ()

/-- The engine lock is held from before the body is read. -/
def syncPending (r : Route) (parts : Parts) : Proc Serving HttpResponse := do
  ask (.eff .lock)
  let resp ← forwardThen app r parts fun _ => syncPendingHook app
  ask (.eff .unlock)
  return resp

def unlockHook : ServerProg HookError Unit := do
  (Fallible.mapErr .engine (setNodeState .unlocked)).lift effects
  liftM (spawn .reconcile)

def unlock (parts : Parts) : Proc Serving HttpResponse :=
  forwardThen app .unlock parts fun _ => unlockHook

/-- `lock` and `shutdown`. -/
def stateHook (r : Route) (state : NodeState) (parts : Parts) : Proc Serving HttpResponse :=
  forwardThen app r parts fun _ =>
    (Fallible.mapErr .engine (setNodeState state)).lift effects

/-! ## The router -/

inductive Endpoint
  | rgbinvoice
  | sendrgb
  | keysend
  | sendpayment
  | lninvoice
  | issue (schema : Schema)
  | inflate
  | assetlink
  | refreshtransfers
  | failtransfers
  | init
  | unlock
  | restore
  | lock
  | shutdown
  | fallback
  deriving DecidableEq, Repr

/-- The route whose hook it is. -/
def Endpoint.route : Endpoint → Route
  | rgbinvoice => .rgbinvoice
  | sendrgb => .sendrgb
  | keysend => .keysend
  | sendpayment => .sendpayment
  | lninvoice => .lninvoice
  | issue _ => .issueasset
  | inflate => .inflate
  | assetlink => .assetlink
  | refreshtransfers => .refreshtransfers
  | failtransfers => .failtransfers
  | init => .init
  | unlock => .unlock
  | restore => .restore
  | lock => .lock
  | shutdown => .shutdown
  | fallback => .other

/-- `interceptor_routes`. -/
def endpoints : List (String × Endpoint) :=
  [("/rgbinvoice", .rgbinvoice),
    ("/sendrgb", .sendrgb),
    ("/keysend", .keysend),
    ("/sendpayment", .sendpayment),
    ("/lninvoice", .lninvoice),
    ("/issueassetnia", .issue .nia),
    ("/issueassetcfa", .issue .cfa),
    ("/issueassetuda", .issue .uda),
    ("/issueassetifa", .issue .ifa),
    ("/inflate", .inflate),
    ("/assetlink", .assetlink),
    ("/refreshtransfers", .refreshtransfers),
    ("/failtransfers", .failtransfers),
    ("/init", .init),
    ("/unlock", .unlock),
    ("/restore", .restore),
    ("/lock", .lock),
    ("/shutdown", .shutdown)]

/-- The two tables of routes agree. -/
theorem endpoints_routes : endpoints.map (fun x => (x.1, x.2.route)) = interceptorRoutes := rfl

/-- The handler of a request, if its method has one. -/
def endpoint (parts : Parts) : Option Endpoint :=
  match endpoints.lookup parts.path.text with
  | none => some .fallback
  | some e => if parts.method = "POST" then some e else none

def Endpoint.handler (parts : Parts) : Endpoint → Proc Serving HttpResponse
  | rgbinvoice => Server.rgbinvoice app parts
  | sendrgb => Server.sendrgb app parts
  | keysend => Server.keysend app parts
  | sendpayment => Server.sendpayment app parts
  | lninvoice => Server.lninvoice app parts
  | issue schema => Server.issue app schema parts
  | inflate => Server.inflate app parts
  | assetlink => Server.assetlink app parts
  | refreshtransfers => syncPending app .refreshtransfers parts
  | failtransfers => syncPending app .failtransfers parts
  | init => stateHook app .init .locked parts
  | unlock => Server.unlock app parts
  | restore => stateHook app .restore .locked parts
  | lock => stateHook app .lock .locked parts
  | shutdown => stateHook app .shutdown .down parts
  | fallback => Server.fallback app parts

/-- The answer of a route to a method it does not have. -/
def methodNotAllowed : HttpResponse := ⟨405, .only "allow" "POST", []⟩

/-- The answer to a request that is handed on. -/
def handle (parts : Parts) : Proc Serving HttpResponse :=
  match endpoint parts with
  | some e => e.handler app parts
  | none => return methodNotAllowed

/-- One request, from its arrival to its answer. -/
def serve : Request → Proc Serving Unit
  | .api authorization req => do
      ask (.accept (.api authorization req))
      let resp ← (Api.serve app.api authorization req).lift reads
      ask (.respond (.api resp))
  | .proxied parts => do
      ask (.accept (.proxied parts))
      let resp ← handle app parts
      ask (.respond (.proxied resp))

/-! ## The process -/

/-- `spawn_background`. -/
def spawnBackground : Proc Serving Unit := do
  spawn .refreshLoop
  spawn .reaper
  spawn .fullSyncTimer
  spawn .paymentsLoop
  spawn .dispatcher

/-- `run`, from the probe on. -/
def main : Proc Serving Unit := do
  match ← (probe app.cfg).run.lift effects with
  | .error _ => return ()
  | .ok _ => do
      let bound : Bool ← ask .bind
      if bound then
        spawnBackground
        spawn .reconcile
        ask .listen

end Handlers

/-! ## The server -/

/-- The state of the process: the host, what is spawned and has not begun, whether the
refresh loop has been notified, and whether requests are accepted. -/
structure Machine where
  host : Host
  spawned : List Job
  permit : Bool
  listening : Bool

namespace Machine

/-- A machine that has never run. -/
def fresh : Machine := ⟨Host.fresh, [], false, false⟩

/-- What a crash leaves. -/
def reset (m : Machine) : Machine := ⟨m.host.release, [], false, false⟩

end Machine

/-- The listings that are fetched page by page, for as long as there are pages. -/
def paged : Op → Bool
  | .node (.listTransfers _ _) | .node (.listAssetlessTransfers _) | .node (.listPayments _) => true
  | _ => false

/-- What the environment decides in one step.  A body may not be there yet (`frames`), and a
listing may have no last page (`listed`); whatever else is asked of it has a time limit. -/
structure Wire where
  world : World
  frames : Option (List Frame)
  listed : Bool
  answer : Except SendError HttpResponse
  elapsed : Bool
  bound : Bool

def Wire.perform (w : Wire) : (o : ServerOp) → Machine → Option (o.Res × Machine)
  | .eff o, m =>
      if paged o && !w.listed then none
      else (w.world.perform o m.host).map fun (r, host) => (r, { m with host })
  | .read q, m => some (if w.world.storeFails then .error .db else .ok (q.answer m.host.db), m)
  | .accept _, m => if m.listening then some ((), m) else none
  | .collect _, m => w.frames.map fun frames => (frames, m)
  | .send _ _, m => some (w.answer, m)
  | .respond _, m => some ((), m)
  | .spawn j, m => some ((), { m with spawned := j :: m.spawned })
  | .begin j _, m =>
      if j ∈ m.spawned then some ((), { m with spawned := m.spawned.erase j }) else none
  | .wake, m => some ((), { m with permit := true })
  | .wait, m =>
      if w.elapsed then some (.elapsed, m)
      else if m.permit then some (.notified, { m with permit := false })
      else none
  | .sleep _, m => some ((), m)
  | .bind, m => some (w.bound, m)
  | .listen, m => some ((), { m with listening := true })

/-- An operation of the tasks is performed on the host, and nothing else changes. -/
theorem Wire.host_of_eff {w : Wire} {o : Op} {m m' : Machine} {r : o.Res}
    (hp : w.perform (.eff o) m = some (r, m')) :
    ∃ host, w.world.perform o m.host = some (r, host) ∧ m' = { m with host } := by
  rw [Wire.perform] at hp
  by_cases hpaged : (paged o && !w.listed) = true
  · rw [if_pos hpaged] at hp
    cases hp
  · rw [if_neg hpaged] at hp
    obtain ⟨⟨r', host⟩, hw, heq⟩ := Option.map_eq_some_iff.mp hp
    cases heq
    exact ⟨host, hw, rfl⟩

/-- What may start while the process runs; a job waits until it is spawned and a request
until requests are accepted. -/
inductive Thread (app : App) : Proc Serving Unit → Prop
  | serve (req : Request) : Thread app (serve app req)
  | job (j : Job) (rounds : ℕ) (h : j ≠ .dispatcher) : Thread app (j.task app.cfg rounds)

/-- The companion as it is served.  There is one dispatcher, thread 0. -/
def server (app : App) : Pool Serving Machine where
  Choice := Wire
  perform w _ o m := w.perform o m
  drift _ m := some { m with host := m.host.release }
  reset := Machine.reset
  boots qs := ∃ rounds, qs = [Job.dispatcher.task app.cfg rounds, main app]
  starts := Thread app

/-- A server that has never run. -/
def initial : Pool.Config Serving Machine := ⟨.fresh, []⟩

/-! ## Forwarding by itself -/

section Forwarding
variable {app : App} {parts : Parts}

/-- What a handler asks for apart from its hook. -/
def Forwarding : ServerOp → Prop
  | .collect _ | .send _ _ => True
  | .eff .clock | .eff (.store .nodeState) | .eff (.store (.setNodeState _ _)) => True
  | _ => False

theorem forwarding_readBody : (readBody app parts).run.Uses Forwarding :=
  Fallible.uses_bind (Fallible.uses_lift (Proc.uses_perform trivial)) fun _ => Proc.uses_done _

theorem forwarding_forwardParts (r : Route) (body : Bytes) :
    (forwardParts app r parts body).run.Uses Forwarding := by
  rw [forwardParts]
  split
  · trivial
  · refine Fallible.uses_bind (Fallible.uses_lift (Proc.uses_perform trivial)) fun answer => ?_
    cases answer <;> trivial

theorem forwarding_noteLocked (resp : HttpResponse) :
    (noteLocked app resp).Uses Forwarding := by
  refine Proc.lift_uses ?_
  rw [Companion.noteLocked]
  split
  · trivial
  · exact Proc.uses_bind (setNodeState_uses trivial trivial (fun _ _ => trivial) _) fun _ => trivial

variable {μ : Type} {note : μ → (o : ServerOp) → o.Res → μ} {Q : μ → ServerOp → Prop}
  {I : μ → Prop}

/-- A handler keeps what forwarding keeps, if its hook does. -/
theorem stays_forwarding (hstep : ∀ m o, Forwarding o → I m → Q m o ∧ ∀ r, I (note m o r))
    (r : Route) {onSuccess : Exchange → ServerProg HookError Unit}
    (hhook : ∀ ex, (onSuccess ex).run.Stays note Q I) :
    (forwardThen app r parts onSuccess).Stays note Q I := by
  refine Proc.stays_bind (Proc.stays_of_uses forwarding_readBody hstep) fun res => ?_
  cases res with
  | error e => exact Proc.stays_done _
  | ok body =>
    refine Proc.stays_bind (Proc.stays_of_uses (forwarding_forwardParts r body) hstep) fun res => ?_
    cases res with
    | error e => exact Proc.stays_done _
    | ok resp =>
      by_cases h : resp.isSuccess = true
      · simp only [h, if_true]
        exact Proc.stays_bind (hhook _) fun _ => Proc.stays_done _
      · simp only [h]
        exact Proc.stays_bind (Proc.stays_of_uses (forwarding_noteLocked resp) hstep)
          fun _ => Proc.stays_done _

theorem forwarding_fallback : (fallback app parts).Uses Forwarding := by
  rw [fallback, forward, ExceptT.run_bind, bind_assoc]
  refine Proc.uses_bind forwarding_readBody fun res => ?_
  cases res with
  | error e => trivial
  | ok body =>
    refine Proc.uses_bind (forwarding_forwardParts .other body) fun res => ?_
    cases res with
    | error e => trivial
    | ok resp => exact Proc.uses_bind (forwarding_noteLocked resp) fun _ => trivial

end Forwarding

end Companion.Server
