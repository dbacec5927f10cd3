import Companion.Intercept
import Companion.Webhook

/-!
# The companion as a system

All tasks of the companion over one host: the request handlers, the passes of the
background loops, the tasks they spawn, and the dispatcher.  The environment picks
which task moves, answers for the node, the webhook endpoint and the clock, may
let any store operation fail, and may kill the process and boot it again between
any two operations.

A dropped task is one that never moves again; the engine lock it may have held is
released by a drift of the environment.

## Main definitions

* `Task`, `startup` — what runs.
* `system` — the pool.
* `Op.Background` — the operations a task other than the dispatcher asks for.
* `Block` — what these tasks are made of.
-/

set_option autoImplicit false

namespace Companion
open Lib

/-- The task that runs `reconcile`, with the number of retries it has time for. -/
def reconcileTask (cfg : Config) (attempts : ℕ) : Proc Effects Unit := do
  let _ ← (reconcile cfg attempts).run
  return ()

/-- What `run` does before the companion serves requests: one probe, which must
succeed, and then the first `reconcile`. -/
def startup (cfg : Config) (attempts : ℕ) : Proc Effects Unit := do
  match ← (probe cfg).run with
  | .ok _ => reconcileTask cfg attempts
  | .error _ => return ()

/-- The tasks that may start while the companion runs. -/
inductive Task (cfg : Config) : Proc Effects Unit → Prop
  | rgbinvoice (req : Option InvoiceRequest) : Task cfg (rgbinvoice req)
  | sendrgb (req : Option SendRequest) : Task cfg (sendrgb req)
  | keysend (req : Option KeysendRequest) : Task cfg (keysend req)
  | sendpayment (req : Option SendPaymentRequest) : Task cfg (sendpayment req)
  | lninvoice (req : Option LNInvoiceRequest) : Task cfg (lninvoice req)
  | issueassetnia : Task cfg (issue "NIA")
  | issueassetcfa : Task cfg (issue "CFA")
  | issueassetuda : Task cfg (issue "UDA")
  | issueassetifa : Task cfg (issue "IFA")
  | inflate (req : Option AssetIdField) : Task cfg (inflate req)
  | assetlink (req : Option AssetLinkRequest) : Task cfg (assetlink req)
  | refreshtransfers : Task cfg (syncPending cfg .refreshtransfers)
  | failtransfers : Task cfg (syncPending cfg .failtransfers)
  | init : Task cfg (lock .init)
  | unlock : Task cfg unlock
  | restore : Task cfg (lock .restore)
  | lock : Task cfg (lock .lock)
  | shutdown : Task cfg shutdown
  | fallback : Task cfg fallback
  | assetSync (ids : List String) : Task cfg (assetSync cfg ids)
  | reconcile (attempts : ℕ) : Task cfg (reconcileTask cfg attempts)
  | refreshPass : Task cfg (refreshPass cfg)
  | reaperPass : Task cfg reaperPass
  | fullSyncPass : Task cfg (fullSyncPass cfg)
  | paymentsPass : Task cfg (paymentsPass cfg)

/-- What the environment decides in one step. -/
structure World where
  env : Env
  /-- The database refuses the operation. -/
  storeFails : Bool

/-- One operation of a task: blocked while it waits for the engine lock. -/
def World.perform (w : World) : (o : Op) → Host → Option (o.Res × Host)
  | .store q, h => if w.storeFails then some (.error .db, h) else some (q.perform h)
  | .lock, h => if h.locked then none else some (Companion.perform w.env .lock h)
  | .node c, h => some (Companion.perform w.env (.node c) h)
  | .forward r, h => some (Companion.perform w.env (.forward r) h)
  | .post ev, h => some (Companion.perform w.env (.post ev) h)
  | .clock, h => some (Companion.perform w.env .clock h)
  | .uuid, h => some (Companion.perform w.env .uuid h)
  | .unlock, h => some (Companion.perform w.env .unlock h)

/-- The environment `env`, with a database that works. -/
def World.of (env : Env) : World := ⟨env, false⟩

/-- Nobody holds the engine lock. -/
def Host.release (h : Host) : Host := { h with locked := false }

/-- The companion under a configuration.  The dispatcher is always thread 0. -/
def system (cfg : Config) : Pool Effects Host where
  Choice := World
  perform w _ o h := w.perform o h
  drift _ h := some h.release
  reset := Host.release
  boots ps := ∃ attempts passes, ps = [dispatcher cfg.webhook passes, startup cfg attempts]
  starts := Task cfg

/-- A companion that has never run. -/
def initial : Pool.Config Effects Host := ⟨Host.fresh, []⟩

/-- What a store operation of a run did: it failed, or it was performed. -/
theorem perform_store {w : World} {q : StoreOp} {h h' : Host} {r : Except StoreError q.Res}
    (hp : w.perform (.store q) h = some (r, h')) :
    (r = .error .db ∧ h' = h) ∨ q.perform h = (r, h') := by
  simp only [World.perform] at hp
  split at hp
  · cases hp
    exact Or.inl ⟨rfl, rfl⟩
  · exact Or.inr (Option.some.inj hp)

/-- Only a store operation changes the database. -/
theorem db_perform {w : World} {o : Op} {h h' : Host} {r : o.Res}
    (hp : w.perform o h = some (r, h')) (ho : ∀ q, o ≠ .store q) : h'.db = h.db := by
  cases o with
  | store q => exact absurd rfl (ho q)
  | lock =>
      simp only [World.perform] at hp
      split at hp
      · cases hp
      · exact congrArg (fun x => x.2.db) (Option.some.inj hp).symm
  | node _ | forward _ | post _ | clock | uuid | unlock =>
      exact congrArg (fun x => x.2.db) (Option.some.inj hp).symm

/-- An event of a run leaves the database alone and has no answer of the store, or is one
store operation. -/
theorem lawful_inv {cfg : Config} {U : Op → Prop} {e : Pool.Event Effects Host}
    (he : e.Lawful (system cfg) U) :
    (e.post.db = e.pre.db ∧ ∀ i q a, e.label ≠ .act i (.store q) (.ok a)) ∨
      ∃ i q r, e.label = .act i (.store q) r ∧ U (.store q) ∧
        StoreOp.perform q e.pre = (r, e.post) := by
  obtain ⟨pre, label, post⟩ := e
  simp only [Pool.Event.Lawful] at he
  cases label with
  | boot ps =>
      have hpost : post = pre.release := he
      exact Or.inl ⟨by simp only [hpost, Host.release], by simp⟩
  | start p =>
      have hpost : post = pre := he
      exact Or.inl ⟨congrArg Host.db hpost, by simp⟩
  | drift =>
      obtain ⟨w, hd⟩ := he
      exact Or.inl ⟨(congrArg Host.db (Option.some.inj hd)).symm, by simp⟩
  | act i o r =>
      obtain ⟨hu, w, hp⟩ := he
      by_cases ho : ∃ q, o = .store q
      · obtain ⟨q, rfl⟩ := ho
        rcases perform_store hp with ⟨rfl, hpost⟩ | hpost
        · refine Or.inl ⟨congrArg Host.db hpost, ?_⟩
          intro j q' a hlabel
          cases hlabel
        · exact Or.inr ⟨i, q, r, rfl, hu, hpost⟩
      · refine Or.inl ⟨db_perform hp fun q hq => ho ⟨q, hq⟩, ?_⟩
        intro j q a hlabel
        cases hlabel
        exact ho ⟨q, rfl⟩

theorem lawful_cases {cfg : Config} {U : Op → Prop} {e : Pool.Event Effects Host}
    (he : e.Lawful (system cfg) U) :
    e.post.db = e.pre.db ∨
      ∃ q r, U (.store q) ∧ StoreOp.perform q e.pre = (r, e.post) := by
  obtain ⟨hdb, -⟩ | ⟨-, q, r, -, hu, hp⟩ := lawful_inv he
  · exact Or.inl hdb
  · exact Or.inr ⟨q, r, hu, hp⟩

/-! ## The operations of the tasks -/

/-- A planned transition of the transfer `id`, with the event it carries. -/
def PlannedTransition (id : ℕ) (src dst : TransferStatus) (event : Option NewEvent) : Prop :=
  src.terminal = false ∧ rank src < rank dst ∧
    ∃ eventId row now, row.id = id ∧
      event = transitionEvent eventId row ⟨id, src, dst, EventType.of dst⟩ now

/-- A planned transition of a payment, with the event it carries: a silent restart
or a forward move. -/
def PlannedPayment (hash : String) (src dst : PaymentStatus) (event : Option NewEvent) : Prop :=
  (src.restartable = true ∧ dst = .pending ∧ event = none) ∨
    (src.terminal = false ∧ paymentRank src < paymentRank dst ∧
      ∃ eventId row now, row.paymentHash = hash ∧
        event = paymentTransitionEvent eventId row ⟨hash, src, dst, PaymentEventType.of dst⟩ now)

/-- What is planned from a row is planned. -/
theorem plannedPayment_of_plan {row : Payment} {observed : PaymentStatus} {tr : PaymentTransition}
    (hp : planPaymentTransition row observed = some tr) (eventId : ℕ) (now : ℤ) :
    PlannedPayment tr.paymentHash tr.src tr.dst (paymentTransitionEvent eventId row tr now) := by
  obtain ⟨hhash, hsrc, hdst, hplan⟩ := planPaymentTransition_eq_some hp
  obtain ⟨hash, src, dst, event⟩ := tr
  simp only at hhash hsrc hdst hplan
  subst hhash hsrc hdst
  rcases hplan with ⟨hre, hpend, rfl⟩ | ⟨hterm, hrank, rfl⟩
  · exact Or.inl ⟨hre, hpend, rfl⟩
  · exact Or.inr ⟨hterm, hrank, eventId, row, now, rfl, rfl⟩

/-- What a task other than the dispatcher asks for: no bookkeeping of the outbox,
and no transition that was not planned. -/
def Op.Background : Op → Prop
  | .store (.applyTransition id src dst event _) => PlannedTransition id src dst event
  | .store (.applyPaymentTransition hash src dst event _) => PlannedPayment hash src dst event
  | .store (.undeliveredEvents _) | .store (.recordAttempt _ _) | .store (.markDelivered _ _)
  | .post _ => False
  | _ => True

/-- What the dispatcher asks for. -/
def Op.Delivery : Op → Prop
  | .store (.undeliveredEvents _) | .store (.recordAttempt _ _) | .store (.markDelivered _ _)
  | .post _ | .clock => True
  | _ => False

/-! ## What the tasks are made of -/

/-- What a hook knows of a transfer: its recipient or its transaction, not both. -/
def NewTransfer.Hooked (t : NewTransfer) : Prop := t.recipientId = none ∨ t.txid = none

/-- An operation that neither plans nor keeps the outbox, and inserts only what a hook
knows. -/
def Op.Plain : Op → Prop
  | .store (.applyTransition ..) | .store (.applyPaymentTransition ..)
  | .store (.undeliveredEvents _) | .store (.recordAttempt _ _) | .store (.markDelivered _ _)
  | .post _ => False
  | .store (.insertTransfer t _) => t.Hooked
  | _ => True

/-- The blocks of the background tasks: the plain operations, and the four places where
a transition is planned from a row and applied. -/
inductive Block : (α : Type) → Proc Effects α → Prop
  | op {o : Op} : o.Plain → Block o.Res (@Proc.perform Effects o)
  | observe (report : SyncReport) (assetId : Option String) (t : RlnTransfer) (now : ℤ) :
      Block _ (observe report assetId t now).run
  | reap (now : ℤ) : Block _ (do
      let expired ← Fallible.mapErr .store (store (.expiredFallible now))
      reapAll now expired 0 : Prog EngineError ℕ).run
  | observePayment (baseline : Bool) (now : ℤ) (report : PaymentSyncReport) (p : RlnPayment) :
      Block _ (observePayment baseline now report p).run
  | recordOutboundPayment (resp : PaymentResponse) (assetId : Option String)
      (assetAmount amtMsat : Option ℕ) (payeePubkey : Option String) :
      Block _ (recordOutboundPayment resp assetId assetAmount amtMsat payeePubkey).run

section Blocks
open Fallible

theorem built_op {o : Op} (h : o.Plain) : Built Block (@Proc.perform Effects o) :=
  .block (.op h)

theorem built_store {q : StoreOp} (h : Op.Plain (.store q)) : Built Block (store q).run :=
  built_op h

theorem built_node (c : NodeCall) : Built Block (node c).run :=
  @built_op (.node c) trivial

theorem built_now : Built Block now :=
  @built_op .clock trivial

/-- A task that ignores how a program ends. -/
theorem built_ignore {ε α : Type} {p : Prog ε α} (h : Built Block p.run) :
    Built Block (do let _ ← p.run; return () : Proc Effects Unit) :=
  .bind h fun _ => .done _

theorem built_withLock {ε α : Type} {p : Prog ε α} (h : Built Block p.run) :
    Built Block (withLock p).run := by
  refine .bind (@built_op .lock trivial) fun _ => ?_
  refine .bind h fun r => ?_
  exact .bind (@built_op .unlock trivial) fun _ => .done _

/-! ### Syncs -/

theorem built_observeAll (assetId : Option String) (now : ℤ) (ts : List RlnTransfer)
    (report : SyncReport) : Built Block (observeAll assetId now ts report).run := by
  induction ts generalizing report with
  | nil => exact .done _
  | cons t ts ih => exact built_bind (.block (.observe report assetId t now)) ih

theorem built_syncAssets (pageSize : ℕ) (now : ℤ) (assetIds : List String) (report : SyncReport) :
    Built Block (syncAssets pageSize now assetIds report).run := by
  induction assetIds generalizing report with
  | nil => exact .done _
  | cons assetId assetIds ih =>
      refine built_bind (built_mapErr (built_node _)) fun ts => ?_
      exact built_bind (built_observeAll _ _ _ _) ih

theorem built_fetchAssets (now : ℤ) : Built Block (fetchAssets now).run := by
  refine built_bind (built_mapErr (built_node _)) fun assets => ?_
  exact built_bind (built_mapErr (built_store trivial)) fun _ => .done _

theorem built_scopeAssets (scope : Scope) (now : ℤ) :
    Built Block (scopeAssets scope now).run := by
  cases scope with
  | full => exact built_bind (built_fetchAssets now) fun _ => .done _
  | assets ids => exact .done _
  | pending =>
      refine built_bind (built_mapErr (built_store trivial)) fun found => ?_
      obtain ⟨ids, agnostic⟩ := found
      cases agnostic with
      | false => exact .done _
      | true => exact built_bind (built_fetchAssets now) fun _ => .done _

theorem built_sync (cfg : Config.Sync) (scope : Scope) (now : ℤ) :
    Built Block (sync cfg scope now).run := by
  refine built_bind (built_scopeAssets scope now) fun listed => ?_
  obtain ⟨assetIds, assetless⟩ := listed
  cases assetless with
  | false => exact built_syncAssets _ _ _ _
  | true =>
      refine built_bind (built_mapErr (built_node _)) fun ts => ?_
      exact built_bind (built_observeAll _ _ _ _) fun _ => built_syncAssets _ _ _ _

theorem built_observePayments (baseline : Bool) (now : ℤ) (ps : List RlnPayment)
    (report : PaymentSyncReport) :
    Built Block (observePayments baseline now ps report).run := by
  induction ps generalizing report with
  | nil => exact .done _
  | cons p ps ih => exact built_bind (.block (.observePayment baseline now report p)) ih

theorem built_syncPayments (cfg : Config.Sync) (now : ℤ) :
    Built Block (syncPayments cfg now).run := by
  refine built_bind (built_mapErr (built_node _)) fun ps => ?_
  refine built_bind (built_mapErr (built_store trivial)) fun baseline => ?_
  refine built_bind (built_observePayments _ _ _ _) fun report => ?_
  cases baseline with
  | some t => exact .done _
  | none => exact built_bind (built_mapErr (built_store trivial)) fun _ => .done _

/-! ### The engine -/

theorem built_setNodeState (state : NodeState) : Built Block (setNodeState state).run := by
  refine built_bind (built_mapErr (built_store trivial)) fun _ => ?_
  refine built_bind (built_lift built_now) fun _ => ?_
  exact built_mapErr (built_store trivial)

theorem built_isUnlocked : Built Block isUnlocked := by
  refine .bind (built_store trivial) fun r => ?_
  rcases r with e | s
  · exact .done _
  · cases s <;> exact .done _

theorem built_checkNetwork (cfg : Config) : Built Block (checkNetwork cfg).run := by
  rw [checkNetwork]
  cases cfg.rln.network with
  | none => exact .done _
  | some want =>
      refine built_bind (built_mapErr (built_node _)) fun got => ?_
      split <;> exact .done _

theorem built_probe (cfg : Config) : Built Block (probe cfg).run := by
  refine built_bind (built_attempt
    (built_bind (built_mapErr (built_node _)) fun _ => built_checkNetwork cfg)) fun checked => ?_
  cases checked with
  | ok _ => exact built_bind (built_setNodeState _) fun _ => .done _
  | error e =>
      simp only
      split
      · exact built_bind (built_setNodeState _) fun _ => .done _
      · exact built_bind (built_setNodeState _) fun _ => .done _
      · split
        · exact built_bind (built_setNodeState _) fun _ => .done _
        · exact .done _

theorem built_classify (e : EngineError) : Built Block (classify e).run := by
  rw [classify]
  split
  · exact built_bind (built_setNodeState _) fun _ => .done _
  · exact .done _
  · exact .done _

theorem built_tick (cfg : Config) (now : ℤ) : Built Block (tick cfg now).run := by
  refine built_bind (built_mapErr (built_store trivial)) fun state => ?_
  split
  · exact .done _
  refine built_bind (built_mapErr (built_store trivial)) fun waiting => ?_
  split
  · exact .done _
  refine built_withLock (built_bind (built_attempt ?_) fun outcome => ?_)
  · exact built_bind (built_mapErr (built_node _)) fun _ => built_mapErr (built_sync _ _ _)
  cases outcome with
  | ok report => exact .done _
  | error e =>
      refine built_bind (built_classify e) fun f => ?_
      cases f <;> exact .done _

theorem built_syncLocked (cfg : Config) (scope : Scope) (now : ℤ) :
    Built Block (syncLocked cfg scope now).run := by
  refine built_bind (built_attempt (built_sync _ _ _)) fun outcome => ?_
  cases outcome with
  | ok report => exact .done _
  | error e =>
      simp only
      split
      · exact built_bind (built_setNodeState _) fun _ => .done _
      · exact .done _

theorem built_reap (now : ℤ) : Built Block (reap now).run :=
  built_withLock (.block (.reap now))

theorem built_fullSync (cfg : Config) : Built Block (fullSync cfg).run := by
  refine built_withLock (built_bind (built_lift built_now) fun t => ?_)
  refine built_bind (built_mapErr (built_sync _ _ _)) fun report => ?_
  exact built_bind (built_mapErr (built_store trivial)) fun _ => .done _

theorem built_reconcileOnce (cfg : Config) : Built Block (reconcileOnce cfg).run := by
  refine built_bind (built_attempt
    (built_bind (built_fullSync cfg) fun _ => built_checkNetwork cfg)) fun synced => ?_
  split
  · exact built_bind (built_setNodeState _) fun _ => .done _
  · exact built_bind (built_setNodeState _) fun _ => .done _
  · split
    · exact built_bind (built_setNodeState _) fun _ => .done _
    · exact built_bind (built_setNodeState _) fun _ => .done _
    · exact .done _

theorem built_reconcile (cfg : Config) (attempts : ℕ) :
    Built Block (reconcile cfg attempts).run := by
  induction attempts with
  | zero => exact built_bind (built_reconcileOnce cfg) fun _ => .done _
  | succ attempts ih =>
      refine built_bind (built_reconcileOnce cfg) fun ended => ?_
      cases ended with
      | some b => exact .done _
      | none => exact ih

theorem built_paymentsTick (cfg : Config) (now : ℤ) :
    Built Block (paymentsTick cfg now).run := by
  refine built_bind (built_mapErr (built_store trivial)) fun state => ?_
  split
  · exact .done _
  refine built_bind (built_attempt (built_syncPayments _ _)) fun outcome => ?_
  cases outcome with
  | ok report => exact .done _
  | error e =>
      refine built_bind (built_classify _) fun f => ?_
      cases f <;> exact .done _

theorem built_refreshPass (cfg : Config) : Built Block (refreshPass cfg) := by
  refine .bind built_now fun t => ?_
  refine .bind (built_tick cfg t) fun outcome => ?_
  split <;> first | exact built_ignore (built_probe cfg) | exact .done _

theorem built_reaperPass : Built Block reaperPass := by
  refine .bind built_isUnlocked fun unlocked => ?_
  cases unlocked with
  | false => exact .done _
  | true => exact .bind built_now fun t => built_ignore (built_reap t)

theorem built_paymentsPass (cfg : Config) : Built Block (paymentsPass cfg) := by
  refine .bind built_now fun t => ?_
  refine .bind (built_paymentsTick cfg t) fun outcome => ?_
  split
  · exact built_ignore (built_probe cfg)
  · exact .done _

theorem built_fullSyncPass (cfg : Config) : Built Block (fullSyncPass cfg) := by
  refine .bind built_isUnlocked fun unlocked => ?_
  cases unlocked with
  | false => exact .done _
  | true =>
      refine .bind (built_fullSync cfg) fun outcome => ?_
      cases outcome with
      | ok report => exact .done _
      | error e =>
          refine .bind (built_classify e) fun f => ?_
          split
          · exact built_ignore (built_probe cfg)
          · exact .done _

/-! ### The hooks -/

theorem built_forwardThen {r : Route} {onSuccess : Option r.Resp → Prog HookError Unit}
    (h : ∀ resp, Built Block (onSuccess resp).run) :
    Built Block (forwardThen r onSuccess) := by
  refine .bind (@built_op (.forward r) trivial) fun answer => ?_
  cases answer with
  | failed => exact .done _
  | success body => exact built_ignore (h body)
  | refused status body =>
      change Built Block (noteLocked status body)
      rw [noteLocked]
      split
      · exact .done _
      · exact built_ignore (built_setNodeState _)

theorem built_parseReq {α : Type} (req : Option α) : Built Block (parseReq req).run := by
  cases req <;> exact .done _

theorem built_parseResp {α : Type} (resp : Option α) : Built Block (parseResp resp).run := by
  cases resp <;> exact .done _

theorem built_rgbinvoiceHook (req : Option InvoiceRequest) (resp : Option InvoiceResponse) :
    Built Block (rgbinvoiceHook req resp).run := by
  refine built_bind (built_parseReq req) fun _ => ?_
  refine built_bind (built_parseResp resp) fun _ => ?_
  refine built_bind (built_lift built_now) fun _ => ?_
  exact built_bind (built_mapErr (built_store (Or.inr rfl))) fun _ => .done _

theorem built_insertSends (req : SendRequest) (resp : SendResponse) (assetIds : List String) :
    Built Block (insertSends req resp assetIds).run := by
  induction assetIds with
  | nil => exact .done _
  | cons assetId assetIds ih =>
      refine built_bind (built_lift built_now) fun _ => ?_
      exact built_bind (built_mapErr (built_store (Or.inl rfl))) fun _ => ih

theorem built_sendrgbHook (req : Option SendRequest) (resp : Option SendResponse) :
    Built Block (sendrgbHook req resp).run := by
  refine built_bind (built_parseReq req) fun _ => ?_
  exact built_bind (built_parseResp resp) fun _ => built_insertSends _ _ _

theorem built_keysendHook (req : Option KeysendRequest) (resp : Option PaymentResponse) :
    Built Block (keysendHook req resp).run := by
  refine built_bind (built_parseReq req) fun _ => ?_
  exact built_bind (built_parseResp resp) fun _ => .block (.recordOutboundPayment _ _ _ _ _)

theorem built_sendpaymentHook (req : Option SendPaymentRequest) (resp : Option PaymentResponse) :
    Built Block (sendpaymentHook req resp).run := by
  refine built_bind (built_parseReq req) fun _ => ?_
  exact built_bind (built_parseResp resp) fun _ => .block (.recordOutboundPayment _ _ _ _ _)

theorem built_lninvoiceHook (req : Option LNInvoiceRequest) (resp : Option LNInvoiceResponse) :
    Built Block (lninvoiceHook req resp).run := by
  refine built_bind (built_parseReq req) fun _ => ?_
  refine built_bind (built_parseResp resp) fun _ => ?_
  refine built_bind (built_mapErr (built_mapErr (built_node _))) fun hash => ?_
  refine built_bind (built_lift built_now) fun _ => ?_
  exact built_bind (built_mapErr (built_store trivial)) fun _ => .done _

theorem built_issueHook (schema : String) (resp : Option IssueResponse) :
    Built Block (issueHook schema resp).run := by
  refine built_bind (built_parseResp resp) fun _ => ?_
  refine built_bind (built_lift built_now) fun _ => ?_
  exact built_mapErr (built_store trivial)

theorem built_parseOnly {r : Route} {α : Type} (req : Option α) :
    Built Block (forwardThen r fun _ => do let _ ← parseReq req; return ()) :=
  built_forwardThen fun _ => built_bind (built_parseReq req) fun _ => .done _

theorem built_assetSync (cfg : Config) (ids : List String) :
    Built Block (assetSync cfg ids) :=
  built_ignore (built_withLock (built_bind (built_lift built_now) fun _ =>
    built_syncLocked _ _ _))

theorem built_syncPending (cfg : Config) (r : Route) : Built Block (syncPending cfg r) := by
  refine .bind (@built_op .lock trivial) fun _ => ?_
  refine .bind (built_forwardThen fun resp => ?_) fun _ => @built_op .unlock trivial
  refine built_bind (built_lift built_now) fun t => ?_
  exact built_bind (built_mapErr (built_syncLocked _ _ _)) fun _ => .done _

theorem built_stateHook (r : Route) (state : NodeState) :
    Built Block (stateHook r state) :=
  built_forwardThen fun _ => built_mapErr (built_setNodeState state)

/-- Every task that may start is made of blocks. -/
theorem Task.built {cfg : Config} {p : Proc Effects Unit} (h : Task cfg p) :
    Built Block p := by
  cases h with
  | rgbinvoice req => exact built_forwardThen (built_rgbinvoiceHook req)
  | sendrgb req => exact built_forwardThen (built_sendrgbHook req)
  | keysend req => exact built_forwardThen (built_keysendHook req)
  | sendpayment req => exact built_forwardThen (built_sendpaymentHook req)
  | lninvoice req => exact built_forwardThen (built_lninvoiceHook req)
  | issueassetnia | issueassetcfa | issueassetuda | issueassetifa =>
      exact built_forwardThen (built_issueHook _)
  | inflate req => exact built_parseOnly req
  | assetlink req => exact built_parseOnly req
  | refreshtransfers | failtransfers => exact built_syncPending cfg _
  | init | restore | lock | unlock | shutdown => exact built_stateHook _ _
  | fallback => exact built_forwardThen fun _ => .done _
  | assetSync ids => exact built_assetSync cfg ids
  | reconcile attempts => exact built_ignore (built_reconcile cfg attempts)
  | refreshPass => exact built_refreshPass cfg
  | reaperPass => exact built_reaperPass
  | fullSyncPass => exact built_fullSyncPass cfg
  | paymentsPass => exact built_paymentsPass cfg

theorem built_startup (cfg : Config) (attempts : ℕ) : Built Block (startup cfg attempts) := by
  refine .bind (built_probe cfg) fun outcome => ?_
  cases outcome with
  | ok state => exact built_ignore (built_reconcile cfg attempts)
  | error e => exact .done _

end Blocks

/-! ## Every task keeps to its operations -/

section Uses
open Fallible

theorem uses_store {P : Op → Prop} {q : StoreOp} (h : P (.store q)) : (store q).run.Uses P :=
  ⟨h, fun _ => trivial⟩

theorem uses_node {P : Op → Prop} {c : NodeCall} (h : P (.node c)) : (node c).run.Uses P :=
  ⟨h, fun _ => trivial⟩

theorem uses_now {P : Op → Prop} (h : P .clock) : now.Uses P := Proc.uses_perform h

/-- What background tasks ask for is in `P`. -/
structure Op.Admitted (P : Op → Prop) : Prop where
  plain : ∀ o, o.Plain → P o
  transfer : ∀ id src dst event now, PlannedTransition id src dst event →
    P (.store (.applyTransition id src dst event now))
  payment : ∀ hash src dst event now, PlannedPayment hash src dst event →
    P (.store (.applyPaymentTransition hash src dst event now))

theorem setNodeState_uses {P : Op → Prop} (hread : P (.store .nodeState)) (hclock : P .clock)
    (hwrite : ∀ state now, P (.store (.setNodeState state now))) (state : NodeState) :
    (setNodeState state).run.Uses P := by
  refine Fallible.uses_bind (uses_mapErr (uses_store hread)) fun _ => ?_
  refine Fallible.uses_bind (uses_lift (uses_now hclock)) fun t => ?_
  exact uses_mapErr (uses_store (hwrite state t))

theorem applyPaymentObserved_asks {P : Op → Prop} (huuid : P .uuid)
    (hpayment : ∀ hash src dst event now, PlannedPayment hash src dst event →
      P (.store (.applyPaymentTransition hash src dst event now)))
    (row : Payment) (observed : PaymentStatus) (now : ℤ) :
    (applyPaymentObserved row observed now).run.Uses P := by
  rw [applyPaymentObserved]
  cases hp : planPaymentTransition row observed with
  | none => trivial
  | some tr =>
      refine Fallible.uses_bind (uses_lift (Proc.uses_perform huuid)) fun eventId => ?_
      exact uses_mapErr (uses_store (hpayment _ _ _ _ _ (plannedPayment_of_plan hp eventId now)))

section Admitted
variable {P : Op → Prop} (hP : Op.Admitted P)
include hP

theorem applyObserved_asks (row : Transfer) (observed : TransferStatus) (now : ℤ) :
    (applyObserved row observed now).run.Uses P := by
  rw [applyObserved]
  cases hp : planTransition row observed with
  | none => trivial
  | some tr =>
      obtain ⟨hterm, hrank, rfl⟩ := planTransition_eq_some.mp hp
      refine Fallible.uses_bind (uses_lift (Proc.uses_perform (hP.plain .uuid trivial)))
        fun eventId => ?_
      exact uses_mapErr (uses_store
        (hP.transfer _ _ _ _ _ ⟨hterm, hrank, eventId, row, now, rfl, rfl⟩))

theorem reapAll_asks (now : ℤ) (ts : List Transfer) (failed : ℕ) :
    (reapAll now ts failed).run.Uses P := by
  induction ts generalizing failed with
  | nil => trivial
  | cons t ts ih =>
      rw [reapAll]
      split
      · exact ih failed
      refine Fallible.uses_bind (uses_attempt (uses_node (hP.plain _ trivial))) fun outcome => ?_
      split
      · exact Fallible.uses_bind (uses_mapErr (applyObserved_asks hP _ _ _)) fun _ => ih _
      · exact ih failed
      · exact Fallible.uses_bind (setNodeState_uses (hP.plain _ trivial) (hP.plain _ trivial)
          (fun _ _ => hP.plain _ trivial) _) fun _ => trivial
      · trivial
      · trivial

/-- A block asks for what background tasks ask for. -/
theorem Block.asks {α : Type} {p : Proc Effects α} (h : Block α p) : p.Uses P := by
  cases h with
  | op ho => exact Proc.uses_perform (hP.plain _ ho)
  | observe report assetId t now =>
      refine Fallible.uses_bind (uses_mapErr (uses_store (hP.plain _ trivial))) fun row => ?_
      refine Fallible.uses_bind (applyObserved_asks hP row t.status now) fun moved => ?_
      cases moved <;> trivial
  | reap now =>
      exact Fallible.uses_bind (uses_mapErr (uses_store (hP.plain _ trivial)))
        fun _ => reapAll_asks hP now _ 0
  | observePayment baseline now report p =>
      refine Fallible.uses_bind (uses_mapErr (uses_store (hP.plain _ trivial))) fun row => ?_
      refine Fallible.uses_bind (applyPaymentObserved_asks (hP.plain _ trivial) hP.payment row
        p.status now) fun moved => ?_
      cases moved <;> trivial
  | recordOutboundPayment resp assetId assetAmount amtMsat payeePubkey =>
      rw [Companion.recordOutboundPayment]
      split
      · trivial
      refine Fallible.uses_bind (uses_lift (uses_now (hP.plain _ trivial))) fun t => ?_
      refine Fallible.uses_bind (uses_mapErr (uses_store (hP.plain _ trivial))) fun inserted => ?_
      exact Fallible.uses_bind (uses_mapErr (applyPaymentObserved_asks (hP.plain _ trivial)
        hP.payment _ _ _)) fun _ => trivial

end Admitted

theorem admitted_background : Op.Admitted Op.Background where
  plain o h := by
    cases o with
    | store q => cases q <;> trivial
    | post ev => exact h
    | node _ | forward _ | clock | uuid | lock | unlock => trivial
  transfer _ _ _ _ _ h := h
  payment _ _ _ _ _ h := h

theorem applyObserved_uses (row : Transfer) (observed : TransferStatus) (now : ℤ) :
    (applyObserved row observed now).run.Uses Op.Background :=
  applyObserved_asks admitted_background row observed now

/-- Every task that may start keeps to the background operations. -/
theorem Task.uses {cfg : Config} {p : Proc Effects Unit} (h : Task cfg p) :
    p.Uses Op.Background :=
  h.built.uses fun _ _ hq => hq.asks admitted_background

theorem startup_uses (cfg : Config) (attempts : ℕ) :
    (startup cfg attempts).Uses Op.Background :=
  (built_startup cfg attempts).uses fun _ _ hq => hq.asks admitted_background

/-! ### The dispatcher -/

theorem dispatchAll_uses (cfg : Config.Webhook) (now : ℤ) (evs : List OutboxEvent)
    (report : DispatchReport) : (dispatchAll cfg now evs report).run.Uses Op.Delivery := by
  induction evs generalizing report with
  | nil => trivial
  | cons ev evs ih =>
      rw [dispatchAll]
      split
      · trivial
      refine Fallible.uses_bind (uses_lift (Proc.uses_perform trivial)) fun answer => ?_
      cases answer with
      | ok _ => exact Fallible.uses_bind (uses_store trivial) fun _ => ih _
      | error e => exact Fallible.uses_bind (uses_store trivial) fun _ => trivial

theorem dispatcher_uses (cfg : Config.Webhook) (passes : ℕ) :
    (dispatcher cfg passes).Uses Op.Delivery := by
  induction passes with
  | zero => trivial
  | succ passes ih =>
      refine Proc.uses_bind (uses_now trivial) fun t => ?_
      refine Proc.uses_bind (Fallible.uses_bind (uses_store trivial) fun evs => ?_) fun _ => ih
      exact dispatchAll_uses cfg t evs {}

end Uses

/-- Every event of a run is one the pool allows, for an operation of a background
task or of the dispatcher. -/
theorem lawful_of_run {cfg : Config} {hist : List (Pool.Event Effects Host)}
    {c : Pool.Config Effects Host} (r : (system cfg).Run initial hist c) :
    ∀ e ∈ hist, e.Lawful (system cfg) fun o => o.Background ∨ o.Delivery := by
  refine (Pool.Run.lawful ?_ ?_ (by simp [initial]) r).2
  · rintro ps ⟨attempts, passes, rfl⟩ p hp
    rcases List.mem_pair.mp hp with rfl | rfl
    · exact (dispatcher_uses _ _).mono fun _ => Or.inr
    · exact (startup_uses _ _).mono fun _ => Or.inl
  · intro p hp
    exact (Task.uses hp).mono fun _ => Or.inl

/-- What is inserted is what a hook knows. -/
def Op.Hooked : Op → Prop
  | .store (.insertTransfer t _) => t.Hooked
  | _ => True

theorem admitted_hooked : Op.Admitted Op.Hooked where
  plain o h := by
    cases o with
    | store q => cases q <;> first | exact h | trivial
    | node _ | forward _ | post _ | clock | uuid | lock | unlock => trivial
  transfer _ _ _ _ _ _ := trivial
  payment _ _ _ _ _ _ := trivial

/-- Every transfer a run inserts is known by its recipient or by its transaction. -/
theorem hooked_of_run {cfg : Config} {hist : List (Pool.Event Effects Host)}
    {c : Pool.Config Effects Host} (r : (system cfg).Run initial hist c) :
    ∀ e ∈ hist, e.Lawful (system cfg) Op.Hooked := by
  refine (Pool.Run.lawful ?_ ?_ (by simp [initial]) r).2
  · rintro ps ⟨attempts, passes, rfl⟩ p hp
    rcases List.mem_pair.mp hp with rfl | rfl
    · refine (dispatcher_uses _ _).mono fun o ho => ?_
      cases o with
      | store q => cases q <;> trivial
      | node _ | forward _ | post _ | clock | uuid | lock | unlock => trivial
    · exact (built_startup _ _).uses fun _ _ hq => hq.asks admitted_hooked
  · intro p hp
    exact (Task.built hp).uses fun _ _ hq => hq.asks admitted_hooked

/-- What a store operation of a run answered, when it did not fail. -/
theorem performed_of_run {cfg : Config} {hist : List (Pool.Event Effects Host)}
    {c : Pool.Config Effects Host} (run : (system cfg).Run initial hist c)
    {e : Pool.Event Effects Host} (he : e ∈ hist) {i : ℕ} {q : StoreOp} {a : q.Res}
    (hact : e.label = .act i (.store q) (.ok a)) : q.perform e.pre = (.ok a, e.post) := by
  obtain ⟨-, hno⟩ | ⟨j, q', r, hlabel, -, hp⟩ := lawful_inv (lawful_of_run run e he)
  · exact absurd hact (hno i q a)
  · rw [hlabel] at hact
    cases hact
    exact hp

end Companion
