import Companion.Server
import Companion.Lib.Refine

/-!
# The server does what the tasks do

Everything that runs in the process follows tasks of `system`: a handler follows the hook of
its route once the body of its request has been read, a loop follows one pass after another,
what is spawned follows what it was spawned for.  So a run of the server is a run of the
tasks with the sleeping, waking, spawning and answering left out, and what holds of every run
of the tasks holds of the mirror that is served.

## Main definitions

* `App.meaning` — what each deed of the server is to the tasks.
* `server_refines` — the run of the tasks that a run of the server stands for.
-/

set_option autoImplicit false

namespace Companion.Server
open Lib Proc Pool

/-! ## What a deed is to the tasks -/

namespace App
variable (app : App)

/-- What the outcome of forwarding a request is to its hook. -/
def forwarded (r : Route) : Except SendError HttpResponse → Forwarded r.Resp
  | .error _ => .failed
  | .ok answer =>
      if answer.isSuccess then .success (app.codec.resp r answer.body)
      else .refused answer.status (app.codec.rlnError answer.body)

variable {app} in
theorem forwarded_success {r : Route} {answer : HttpResponse} (h : answer.isSuccess = true) :
    app.forwarded r (.ok answer) = .success (app.codec.resp r answer.body) := if_pos h

variable {app} in
theorem forwarded_refused {r : Route} {answer : HttpResponse} (h : ¬ answer.isSuccess = true) :
    app.forwarded r (.ok answer) = .refused answer.status (app.codec.rlnError answer.body) :=
  if_neg h

/-- The body of a request that goes on to the node. -/
def admitted (parts : Parts) (frames : List Frame) : Option Bytes :=
  match toBytes app.proxy.maxBody frames with
  | .error _ => none
  | .ok body =>
      match checkPath parts.path.text with
      | .error _ => none
      | .ok _ => some body

/-- The task of an endpoint, for the body of its request. -/
def task (body : Bytes) : Endpoint → Proc Effects Unit
  | .rgbinvoice => Companion.rgbinvoice (app.codec.invoiceRequest body)
  | .sendrgb => Companion.sendrgb (app.codec.sendRequest body)
  | .keysend => Companion.keysend (app.codec.keysendRequest body)
  | .sendpayment => Companion.sendpayment (app.codec.sendPaymentRequest body)
  | .lninvoice => Companion.lninvoice (app.codec.lnInvoiceRequest body)
  | .issue schema => Companion.issue schema.asStr
  | .inflate => Companion.inflate (app.codec.assetIdField body)
  | .assetlink => Companion.assetlink (app.codec.assetLinkRequest body)
  | .refreshtransfers => Companion.syncPending app.cfg .refreshtransfers
  | .failtransfers => Companion.syncPending app.cfg .failtransfers
  | .init => Companion.lock .init
  | .unlock => Companion.unlock
  | .restore => Companion.lock .restore
  | .lock => Companion.lock .lock
  | .shutdown => Companion.shutdown
  | .fallback => Companion.fallback

end App

/-- The handlers that take the engine lock before they read the body. -/
def Endpoint.locks : Endpoint → Bool
  | refreshtransfers | failtransfers => true
  | _ => false

namespace App
variable (app : App)

/-- What the arrival of a request is to the tasks. -/
def accepted : Request → Meaning Effects
  | .api _ _ => .silent
  | .proxied parts =>
      match endpoint parts with
      | none => .silent
      | some e => if e.locks then .start (app.task [] e) else .silent

/-- What the body of a request is: with it the task begins, unless it has; without it the
request is not forwarded. -/
def collected (parts : Parts) (frames : List Frame) : Meaning Effects :=
  match endpoint parts with
  | none => .silent
  | some e =>
      match app.admitted parts frames with
      | some body => if e.locks then .silent else .start (app.task body e)
      | none => if e.locks then .op ⟨.forward e.route, .failed⟩ else .silent

/-- What it is that something spawned begins. -/
def begun (rounds : ℕ) : Job → Meaning Effects
  | .assetSync ids => .start (Companion.assetSync app.cfg ids)
  | .reconcile => .start (reconcileTask app.cfg rounds)
  | _ => .silent

/-- What follows a sleep. -/
def slept : Timer → Meaning Effects
  | .reap => .start reaperPass
  | .fullSync => .start (fullSyncPass app.cfg)
  | .payments => .start (paymentsPass app.cfg)
  | .dispatch | .backoff => .silent

/-- What a deed of the server is to the tasks. -/
def meaning : Deed Serving → Meaning Effects
  | ⟨.eff o, r⟩ => .op ⟨o, r⟩
  | ⟨.send r _, answer⟩ => .op ⟨.forward r, app.forwarded r answer⟩
  | ⟨.accept req, _⟩ => app.accepted req
  | ⟨.collect parts, frames⟩ => app.collected parts frames
  | ⟨.begin j rounds, _⟩ => app.begun rounds j
  | ⟨.wait, _⟩ => .start (refreshPass app.cfg)
  | ⟨.sleep t, _⟩ => app.slept t
  | ⟨.read _, _⟩ | ⟨.respond _, _⟩ | ⟨.spawn _, _⟩ | ⟨.wake, _⟩ | ⟨.bind, _⟩ | ⟨.listen, _⟩ =>
      .silent

end App

variable {app : App}

theorem meaning_effects (o : Op) (r : o.Res) :
    app.meaning ⟨effects.op o, r⟩ = .op ⟨o, effects.res o r⟩ := rfl

/-- What a thread does is what the tasks may do. -/
abbrev Shows (app : App) {α : Type} (q : Proc Serving α) (p : Proc Effects Unit)
    (R : α → Proc Effects Unit → Prop) : Prop := q.Follows app.meaning (Task app.cfg) p R

/-- What a thread does is what the tasks may do, wherever it leaves them. -/
abbrev Serves (app : App) {α : Type} (q : Proc Serving α) (p : Proc Effects Unit) : Prop :=
  q.Implements app.meaning (Task app.cfg) p

/-- Operations that the tasks know nothing of. -/
def Quiet (app : App) (o : ServerOp) : Prop := ∀ r, app.meaning ⟨o, r⟩ = .silent

/-- An operation of the tasks. -/
theorem shows_eff {α : Type} {o : Op} {q : o.Res → Proc Serving α}
    {g : o.Res → Proc Effects Unit} {R : α → Proc Effects Unit → Prop}
    (h : ∀ r, Shows app (q r) (g r) R) :
    Shows app (ask (.eff o) >>= q) (@Proc.perform Effects o >>= g) R :=
  fun r => ⟨g, rfl, h r⟩

theorem serves_of_quiet {α : Type} {q : Proc Serving α} (h : q.Uses (Quiet app))
    (p : Proc Effects Unit) : Serves app q p :=
  (follows_silent h).mono fun _ _ _ => trivial

/-! ## The loops -/

section Loops

/-- After a pass, the loop goes on. -/
theorem serves_next {α : Type} {q : Proc Serving α} {p : Proc Effects Unit}
    {next : α → Proc Serving Unit} (h : Serves app q p) (hnext : ∀ a p, Serves app (next a) p) :
    Serves app (q >>= next) p :=
  follows_bind (h.mono fun a p' _ => hnext a p')

theorem serves_lift {α : Type} {p : Proc Effects α} {q : α → Proc Serving Unit}
    {g : α → Proc Effects Unit} (h : ∀ a, Serves app (q a) (g a)) :
    Serves app (p.lift effects >>= q) (p >>= g) :=
  follows_lift_bind meaning_effects h

theorem serves_backoffProbe :
    Serves app (backoffProbe app.cfg) (Companion.backoffProbe app.cfg) :=
  follows_bind (follows_perform (fun _ => rfl) fun _ =>
    (follows_lift_unit meaning_effects _).mono fun _ _ _ => trivial)

theorem serves_refreshLoop (rounds : ℕ) (p : Proc Effects Unit) :
    Serves app (refreshLoop app.cfg rounds) p := by
  induction rounds generalizing p with
  | zero => trivial
  | succ rounds ih =>
    refine follows_bind (follows_anew (fun _ => rfl) fun _ => ⟨.refreshPass, ?_⟩)
    refine serves_lift fun t => serves_lift fun outcome => ?_
    rcases outcome with e | o
    · exact ih _
    · cases o with
      | paused | locked | unreachable => exact serves_next serves_backoffProbe fun _ => ih
      | idle | refreshed report => exact ih _

/-- The engine lock around what follows a task under it. -/
theorem shows_withLock {ε α : Type} {q : ServerProg ε α} {p : Prog ε α}
    {f : Except ε α → Proc Effects Unit}
    (h : ∀ f', Shows app q.run (p.run >>= f') fun r p' => p' = f' r) :
    Shows app (withLock q).run ((Companion.withLock p).run >>= f) fun r p' => p' = f r := by
  have hrun : ((Companion.withLock p).run >>= f) = @Proc.perform Effects .lock >>= fun _ =>
      p.run >>= fun r => @Proc.perform Effects .unlock >>= fun _ => f r := by
    change (@Proc.perform Effects .lock >>= fun _ => p.run >>= fun r =>
      @Proc.perform Effects .unlock >>= fun _ => .done r) >>= f = _
    simp only [bind_assoc, done_bind]
  rw [hrun]
  refine shows_eff fun _ => ?_
  refine follows_bind ((h _).mono fun r p' hp' => ?_)
  rw [hp']
  exact shows_eff fun _ => rfl

theorem shows_reap (t : ℤ) (f : Except EngineError ℕ → Proc Effects Unit) :
    Shows app (reap t).run ((Companion.reap t).run >>= f) fun r p' => p' = f r := by
  refine shows_withLock fun f' => ?_
  refine Fallible.follows_lift_bind meaning_effects (fun expired => ?_) fun _ => rfl
  refine Fallible.follows_bind ((follows_lift meaning_effects _ _).mono fun r p' hp' => ?_)
  rw [hp']
  cases r with
  | error e => rfl
  | ok failed =>
    -- nobody but the refresh loop is told of the wake
    by_cases h : failed > 0
    · simp only [h, if_true]
      exact fun _ => rfl
    · simp only [h, if_false]
      rfl

theorem serves_reaper (rounds : ℕ) (p : Proc Effects Unit) :
    Serves app (reaper rounds) p := by
  induction rounds generalizing p with
  | zero => trivial
  | succ rounds ih =>
    refine follows_bind (follows_anew (fun _ => rfl) fun _ => ⟨.reaperPass, ?_⟩)
    refine serves_lift fun unlocked => ?_
    cases unlocked with
    | false => exact ih _
    | true =>
      refine serves_lift fun t => ?_
      exact follows_bind (follows_bind ((shows_reap t _).mono fun r p' _ => ih p'))

theorem serves_fullSyncTimer (rounds : ℕ) (p : Proc Effects Unit) :
    Serves app (fullSyncTimer app.cfg rounds) p := by
  induction rounds generalizing p with
  | zero => trivial
  | succ rounds ih =>
    refine follows_bind (follows_anew (fun _ => rfl) fun _ => ⟨.fullSyncPass, ?_⟩)
    refine serves_lift fun unlocked => ?_
    cases unlocked with
    | false => exact ih _
    | true =>
      refine serves_lift fun outcome => ?_
      cases outcome with
      | ok report => exact ih _
      | error e =>
        refine serves_lift fun kind => ?_
        rcases kind with e | k
        · exact ih _
        · cases k with
          | locked => exact ih _
          | unreachable => exact serves_next serves_backoffProbe fun _ => ih

theorem serves_paymentsLoop (rounds : ℕ) (p : Proc Effects Unit) :
    Serves app (paymentsLoop app.cfg rounds) p := by
  induction rounds generalizing p with
  | zero => trivial
  | succ rounds ih =>
    refine follows_bind (follows_anew (fun _ => rfl) fun _ => ⟨.paymentsPass, ?_⟩)
    refine serves_lift fun t => serves_lift fun outcome => ?_
    rcases outcome with e | o
    · exact ih _
    · cases o with
      | unreachable => exact serves_next serves_backoffProbe fun _ => ih
      | paused | locked | synced report => exact ih _

theorem serves_dispatcherLoop (rounds : ℕ) :
    Serves app (dispatcherLoop app.cfg.webhook rounds) (dispatcher app.cfg.webhook rounds) := by
  induction rounds with
  | zero => trivial
  | succ rounds ih =>
    refine follows_bind (follows_perform (fun _ => rfl) fun _ => ?_)
    exact serves_lift fun t => serves_lift fun _ => ih

theorem shows_reconcile (rounds : ℕ) (f : Except EngineError Bool → Proc Effects Unit) :
    Shows app (reconcile app.cfg rounds).run ((Companion.reconcile app.cfg rounds).run >>= f)
      fun r p' => p' = f r := by
  induction rounds with
  | zero => exact Fallible.follows_lift_bind meaning_effects (fun _ => rfl) fun _ => rfl
  | succ rounds ih =>
    refine Fallible.follows_lift_bind meaning_effects (fun ended => ?_) fun _ => rfl
    cases ended with
    | some b => rfl
    | none => exact fun _ => ih

/-- What was spawned, wherever the thread stands. -/
theorem serves_job {j : Job} (h : j ≠ .dispatcher) (rounds : ℕ) (p : Proc Effects Unit) :
    Serves app (j.task app.cfg rounds) p := by
  cases j with
  | assetSync ids =>
    refine follows_bind (follows_anew (fun _ => rfl) fun _ => ⟨.assetSync ids, ?_⟩)
    exact (follows_lift_unit meaning_effects _).mono fun _ _ _ => trivial
  | reconcile =>
    refine follows_bind (follows_anew (fun _ => rfl) fun _ => ⟨.reconcile rounds, ?_⟩)
    exact follows_bind ((shows_reconcile rounds _).mono fun _ _ _ => trivial)
  | refreshLoop =>
    exact follows_bind (follows_perform (fun _ => rfl) fun _ => serves_refreshLoop _ _)
  | reaper => exact follows_bind (follows_perform (fun _ => rfl) fun _ => serves_reaper _ _)
  | fullSyncTimer =>
    exact follows_bind (follows_perform (fun _ => rfl) fun _ => serves_fullSyncTimer _ _)
  | paymentsLoop =>
    exact follows_bind (follows_perform (fun _ => rfl) fun _ => serves_paymentsLoop _ _)
  | dispatcher => exact absurd rfl h

end Loops

/-! ## The hooks -/

section Hooks

/-- The hook does what the task's does with the two bodies. -/
def Mirrors (app : App) (r : Route) (onSuccess : Exchange → ServerProg HookError Unit)
    (hook : Bytes → Option r.Resp → Prog HookError Unit) : Prop :=
  ∀ body resp f, Shows app (onSuccess ⟨body, resp⟩).run
    ((hook body (app.codec.resp r resp)).run >>= fun _ => f) fun _ p' => p' = f

/-- A hook that is the task's own. -/
theorem mirrors_lift {r : Route} (hook : Bytes → Option r.Resp → Prog HookError Unit) :
    Mirrors app r (fun ex => (hook ex.req (app.codec.resp r ex.resp)).lift effects) hook :=
  fun _ _ _ => follows_lift meaning_effects _ _

theorem mirrors_rgbinvoice : Mirrors app .rgbinvoice (rgbinvoiceHook app)
    fun body => Companion.rgbinvoiceHook (app.codec.invoiceRequest body) := by
  intro body resp f
  refine Fallible.follows_bind ((follows_lift meaning_effects _ _).mono fun r p' hp' => ?_)
  cases r with
  | error e => exact hp'
  | ok _ => exact fun _ => hp'

theorem mirrors_sendrgb : Mirrors app .sendrgb (sendrgbHook app)
    fun body => Companion.sendrgbHook (app.codec.sendRequest body) := by
  intro body resp f
  refine Fallible.follows_lift_bind meaning_effects (fun req => ?_) fun _ => rfl
  refine Fallible.follows_lift_bind meaning_effects (fun resp => ?_) fun _ => rfl
  refine Fallible.follows_bind ((follows_lift meaning_effects _ _).mono fun r p' hp' => ?_)
  cases r with
  | error e => exact hp'
  | ok _ => exact fun _ _ => hp'

theorem mirrors_issue (schema : Schema) : Mirrors app .issueasset (issueHook app schema)
    fun _ => Companion.issueHook schema.asStr := by
  intro body resp f
  refine Fallible.follows_lift_bind meaning_effects (fun resp => ?_) fun _ => rfl
  refine Fallible.follows_liftM_bind meaning_effects fun t => ?_
  refine Fallible.follows_bind ((follows_lift meaning_effects _ _).mono fun r p' hp' => ?_)
  cases r with
  | error e => exact hp'
  | ok _ => exact fun _ => hp'

theorem mirrors_syncHook {α : Type} {r : Route} (parse : Bytes → Option α)
    (ids : α → List String) : Mirrors app r (syncHook parse ids) fun body _ => do
      let _ ← parseReq (parse body)
      return () := by
  intro body resp f
  exact Fallible.follows_lift_bind meaning_effects (fun _ _ => rfl) fun _ => rfl

theorem mirrors_unlock : Mirrors app .unlock (fun _ => unlockHook)
    fun _ _ => Fallible.mapErr .engine (setNodeState .unlocked) := by
  intro body resp f
  refine Fallible.follows_bind ((follows_lift meaning_effects _ _).mono fun r p' hp' => ?_)
  cases r with
  | error e => exact hp'
  | ok _ => exact fun _ => hp'

theorem mirrors_stateHook {r : Route} (state : NodeState) : Mirrors app r
    (fun _ => (Fallible.mapErr .engine (setNodeState state)).lift effects)
    fun _ _ => Fallible.mapErr .engine (setNodeState state) :=
  mirrors_lift fun _ _ => Fallible.mapErr .engine (setNodeState state)

theorem mirrors_syncPending (r : Route) : Mirrors app r (fun _ => syncPendingHook app)
    fun _ _ => do
      let t ← now
      let _ ← Fallible.mapErr .engine (syncLocked app.cfg .pending t)
      return () := by
  intro body resp f
  refine Fallible.follows_liftM_bind meaning_effects fun t => ?_
  exact Fallible.follows_lift_bind meaning_effects (fun _ => rfl) fun _ => rfl

end Hooks

/-! ## The handlers -/

section Handlers
variable {parts : Parts} {body : Bytes} {onSuccess : Exchange → ServerProg HookError Unit}

/-- What `forward_parts` does when the path is refused, and when it is not. -/
theorem forwardParts_refused {r : Route} {e : Companion.ProxyError}
    (h : checkPath parts.path.text = .error e) :
    forwardParts app r parts body = throw .path := by
  rw [forwardParts, h]

/-- When the path is not refused, the node is asked. -/
theorem shows_forwardParts {α : Type} {r : Route}
    {k : Except ProxyError HttpResponse → Proc Serving α} {g : Forwarded r.Resp → Proc Effects Unit}
    {R : α → Proc Effects Unit → Prop} (hpath : checkPath parts.path.text = .ok ())
    (hok : ∀ answer : HttpResponse,
      Shows app (k (.ok answer.relayed)) (g (app.forwarded r (.ok answer))) R)
    (hfailed : ∀ e, Shows app (k (.error (.ofSend e))) (g .failed) R) :
    Shows app ((forwardParts app r parts body).run >>= k)
      (@Proc.perform Effects (.forward r) >>= g) R := by
  rw [forwardParts, hpath]
  intro answer
  refine ⟨g, rfl, ?_⟩
  cases answer with
  | error e => exact hfailed e
  | ok answer => exact hok answer

/-- Once the request may be forwarded, the handler does what the task does. -/
theorem shows_forwardRead {r : Route} {hook : Bytes → Option r.Resp → Prog HookError Unit}
    (hpath : checkPath parts.path.text = .ok ()) (hm : Mirrors app r onSuccess hook)
    (f : Proc Effects Unit) :
    Shows app (forwardRead app r parts body onSuccess)
      (Companion.forwardThen r (hook body) >>= fun _ => f) fun _ p' => p' = f := by
  rw [Companion.forwardThen, bind_assoc]
  refine shows_forwardParts hpath (fun answer => ?_) fun e => rfl
  by_cases h : answer.isSuccess = true
  · rw [App.forwarded_success h]
    simp only [HttpResponse.isSuccess_relayed, HttpResponse.body_relayed, h, if_true, bind_assoc]
    exact follows_bind ((hm _ _ _).mono fun _ _ hp' => hp')
  · rw [App.forwarded_refused h]
    simp only [HttpResponse.isSuccess_relayed, noteLocked_relayed, h]
    exact follows_lift_bind meaning_effects fun _ => rfl

/-- What the tasks see of a body, when its request may be forwarded. -/
theorem collected_ok {e : Endpoint} {frames : List Frame} (he : endpoint parts = some e)
    (hbody : toBytes app.proxy.maxBody frames = .ok body)
    (hpath : checkPath parts.path.text = .ok ()) :
    app.collected parts frames = if e.locks then .silent else .start (app.task body e) := by
  simp only [App.collected, he, App.admitted, hbody, hpath]

/-- What they see of it when it may not. -/
theorem collected_refused {e : Endpoint} {frames : List Frame} (he : endpoint parts = some e)
    (hno : app.admitted parts frames = none) :
    app.collected parts frames =
      if e.locks then .op ⟨.forward e.route, .failed⟩ else .silent := by
  simp only [App.collected, he, hno]

/-- Reading the body comes first. -/
theorem shows_readBody {α : Type} {k : Except ProxyError Bytes → Proc Serving α}
    {p : Proc Effects Unit} {R : α → Proc Effects Unit → Prop}
    (h : ∀ frames, (app.collected parts frames).Leads (Task app.cfg) p fun p' =>
      Shows app (k (toBytes app.proxy.maxBody frames)) p' R) :
    Shows app ((readBody app parts).run >>= k) p R := h

/-- Reading the body comes first, and then the request is forwarded unless it is refused. -/
theorem shows_forwardThen {r : Route} {p : Proc Effects Unit}
    {R : HttpResponse → Proc Effects Unit → Prop}
    (hno : ∀ frames resp, app.admitted parts frames = none →
      (app.collected parts frames).Leads (Task app.cfg) p (R resp))
    (hok : ∀ frames body, toBytes app.proxy.maxBody frames = .ok body →
      checkPath parts.path.text = .ok () →
      (app.collected parts frames).Leads (Task app.cfg) p fun p' =>
        Shows app (forwardRead app r parts body onSuccess) p' R) :
    Shows app (forwardThen app r parts onSuccess) p R := by
  refine shows_readBody fun frames => ?_
  cases hbody : toBytes app.proxy.maxBody frames with
  | error e =>
    apply hno
    simp only [App.admitted, hbody]
  | ok body =>
    cases hpath : checkPath parts.path.text with
    | error e =>
      simp only [forwardRead, forwardParts_refused hpath]
      apply hno
      simp only [App.admitted, hbody, hpath]
    | ok _ => exact hok frames body hbody hpath

/-- A handler with a hook begins its task with the body of its request. -/
theorem serves_hook {e : Endpoint} (he : endpoint parts = some e) (hlocks : e.locks = false)
    {hook : Bytes → Option e.route.Resp → Prog HookError Unit}
    (hm : Mirrors app e.route onSuccess hook)
    (htask : ∀ body, app.task body e = Companion.forwardThen e.route (hook body))
    (hstart : ∀ body, Task app.cfg (app.task body e)) (p : Proc Effects Unit) :
    Serves app (forwardThen app e.route parts onSuccess) p := by
  refine shows_forwardThen (fun frames resp hno => ?_) fun frames body hbody hpath => ?_
  · rw [collected_refused he hno, hlocks]
    trivial
  · rw [collected_ok he hbody hpath, hlocks]
    refine ⟨hstart body, ?_⟩
    have h : Shows app (forwardRead app e.route parts body onSuccess)
        (Companion.forwardThen e.route (hook body) >>= fun _ => .done ())
        fun _ p' => p' = .done () := shows_forwardRead hpath hm (.done ())
    rw [show (Companion.forwardThen e.route (hook body) >>= fun _ => .done ()) = app.task body e
      from (bind_done _).trans (htask body).symm] at h
    exact h.mono fun _ _ _ => trivial

/-- A handler that has taken the engine lock is in its task already. -/
theorem shows_syncPending {e : Endpoint} (he : endpoint parts = some e) (hlocks : e.locks = true) :
    Serves app (syncPending app e.route parts) (Companion.syncPending app.cfg e.route) := by
  refine shows_eff fun _ => ?_
  refine follows_bind (R := fun _ _ => True) ((shows_forwardThen (r := e.route)
    (R := fun _ p' => p' = @Proc.perform Effects .unlock)
    (fun frames resp hno => ?_) fun frames body hbody hpath => ?_).mono fun resp p' hp' => ?_)
  · rw [collected_refused he hno, hlocks]
    exact ⟨_, rfl, rfl⟩
  · rw [collected_ok he hbody hpath, hlocks]
    exact shows_forwardRead hpath (mirrors_syncPending e.route) _
  · rw [hp']
    exact fun _ => ⟨_, rfl, trivial⟩

/-- An answer the client is content with says nothing of the node's state. -/
theorem noteLocked_success {resp : HttpResponse} (h : resp.isSuccess = true) :
    noteLocked app resp = .done () := by
  have hstatus : resp.status ≠ 403 := by
    simp only [HttpResponse.isSuccess, decide_eq_true_eq] at h
    omega
  have hnone : notedState resp.status (app.codec.rlnError resp.body) = none := by
    rw [notedState.eq_def]
    split
    · exact absurd (by assumption) hstatus
    · rfl
  rw [noteLocked, Companion.noteLocked, hnone]
  rfl

theorem serves_fallback (he : endpoint parts = some .fallback) (p : Proc Effects Unit) :
    Serves app (fallback app parts) p := by
  rw [fallback, forward, ExceptT.run_bind, bind_assoc]
  refine shows_readBody fun frames => ?_
  cases hbody : toBytes app.proxy.maxBody frames with
  | error e =>
    rw [collected_refused he (by simp only [App.admitted, hbody])]
    trivial
  | ok body =>
    cases hpath : checkPath parts.path.text with
    | error e =>
      rw [collected_refused he (by simp only [App.admitted, hbody, hpath])]
      simp only [forwardParts_refused hpath]
      trivial
    | ok _ =>
      rw [collected_ok he hbody hpath]
      refine ⟨.fallback, shows_forwardParts hpath (fun answer => ?_) fun e => trivial⟩
      by_cases h : answer.isSuccess = true
      · simp only [noteLocked_relayed, noteLocked_success h]
        trivial
      · rw [App.forwarded_refused h]
        simp only [noteLocked_relayed]
        exact follows_bind ((follows_lift_unit meaning_effects _).mono fun _ _ _ => trivial)

/-- The two tasks that take the engine lock. -/
theorem task_locks {e : Endpoint} (h : e.locks = true) : Task app.cfg (app.task [] e) := by
  cases e with
  | refreshtransfers => exact .refreshtransfers
  | failtransfers => exact .failtransfers
  | rgbinvoice | sendrgb | keysend | sendpayment | lninvoice | issue _ | inflate | assetlink
  | init | unlock | restore | lock | shutdown | fallback => cases h

/-- What a handler does is what its task does. -/
theorem serves_handler {e : Endpoint} (he : endpoint parts = some e) (p : Proc Effects Unit)
    (hp : e.locks = true → p = app.task [] e) : Serves app (e.handler app parts) p := by
  cases e with
  | rgbinvoice =>
    exact serves_hook he rfl mirrors_rgbinvoice (fun _ => rfl) (fun _ => .rgbinvoice _) p
  | sendrgb => exact serves_hook he rfl mirrors_sendrgb (fun _ => rfl) (fun _ => .sendrgb _) p
  | keysend =>
    exact serves_hook he rfl (mirrors_lift (r := .keysend) fun body =>
      keysendHook (app.codec.keysendRequest body)) (fun _ => rfl) (fun _ => .keysend _) p
  | sendpayment =>
    exact serves_hook he rfl (mirrors_lift (r := .sendpayment) fun body =>
      sendpaymentHook (app.codec.sendPaymentRequest body)) (fun _ => rfl)
      (fun _ => .sendpayment _) p
  | lninvoice =>
    exact serves_hook he rfl (mirrors_lift (r := .lninvoice) fun body =>
      lninvoiceHook (app.codec.lnInvoiceRequest body)) (fun _ => rfl) (fun _ => .lninvoice _) p
  | issue schema =>
    refine serves_hook he rfl (mirrors_issue schema) (fun _ => rfl) (fun _ => ?_) p
    cases schema with
    | nia => exact .issueassetnia
    | cfa => exact .issueassetcfa
    | uda => exact .issueassetuda
    | ifa => exact .issueassetifa
  | inflate =>
    exact serves_hook he rfl (mirrors_syncHook _ _) (fun _ => rfl) (fun _ => .inflate _) p
  | assetlink =>
    exact serves_hook he rfl (mirrors_syncHook _ _) (fun _ => rfl) (fun _ => .assetlink _) p
  | refreshtransfers =>
    rw [hp rfl]
    exact shows_syncPending (e := .refreshtransfers) he rfl
  | failtransfers =>
    rw [hp rfl]
    exact shows_syncPending (e := .failtransfers) he rfl
  | init => exact serves_hook he rfl (mirrors_stateHook .locked) (fun _ => rfl) (fun _ => .init) p
  | unlock => exact serves_hook he rfl mirrors_unlock (fun _ => rfl) (fun _ => .unlock) p
  | restore =>
    exact serves_hook he rfl (mirrors_stateHook .locked) (fun _ => rfl) (fun _ => .restore) p
  | lock => exact serves_hook he rfl (mirrors_stateHook .locked) (fun _ => rfl) (fun _ => .lock) p
  | shutdown =>
    exact serves_hook he rfl (mirrors_stateHook .down) (fun _ => rfl) (fun _ => .shutdown) p
  | fallback => exact serves_fallback he p

/-- The answer is nothing to the tasks. -/
theorem serves_respond {α : Type} {q : Proc Serving α} {p : Proc Effects Unit}
    {reply : α → Reply} (h : Serves app q p) :
    Serves app (q >>= fun resp => ask (.respond (reply resp))) p :=
  follows_bind (h.mono fun _ _ _ _ => trivial)

/-- A request, wherever the thread stands. -/
theorem serves_request (req : Request) (p : Proc Effects Unit) : Serves app (serve app req) p := by
  cases req with
  | api authorization req =>
    refine follows_bind (follows_perform (fun _ => rfl) fun _ => serves_respond ?_)
    exact serves_of_quiet (lift_uses (Uses.mono (fun _ _ _ => rfl) (uses_true _))) p
  | proxied parts =>
    refine follows_ask fun _ => ?_
    change (app.accepted (.proxied parts)).Leads _ _ _
    cases he : endpoint parts with
    | none =>
      simp only [App.accepted, he, handle]
      exact serves_respond trivial
    | some e =>
      simp only [App.accepted, he, handle]
      by_cases hlocks : e.locks = true
      · rw [if_pos hlocks]
        refine ⟨task_locks hlocks, serves_respond (serves_handler he _ fun _ => rfl)⟩
      · rw [if_neg hlocks]
        exact serves_respond (serves_handler he p fun h => absurd h hlocks)

theorem quiet_spawn (j : Job) : (spawn j).Uses (Quiet app) := uses_perform fun _ => rfl

theorem quiet_spawnBackground : spawnBackground.Uses (Quiet app) := by
  refine uses_bind (quiet_spawn _) fun _ => uses_bind (quiet_spawn _) fun _ => ?_
  exact uses_bind (quiet_spawn _) fun _ => uses_bind (quiet_spawn _) fun _ => quiet_spawn _

/-- The process probes the node as a task does; what it does then is nothing to the tasks. -/
theorem serves_main (rounds : ℕ) : Serves app (main app) (startup app.cfg rounds) := by
  refine serves_lift fun outcome => ?_
  cases outcome with
  | error e => trivial
  | ok state =>
    refine follows_ask fun (bound : Bool) => ?_
    cases bound with
    | false => trivial
    | true =>
      refine serves_of_quiet (uses_bind quiet_spawnBackground fun _ => ?_) _
      exact uses_bind (quiet_spawn _) fun _ => uses_perform fun _ => rfl

end Handlers

/-! ## The refinement -/

/-- The node answers the requests forwarded on one route. -/
def answers (r : Route) (answer : Forwarded r.Resp) : World :=
  .of { Env.silent with forward := fun r' => if h : r' = r then h ▸ answer else .failed }

theorem performs_forward (cfg : Config) (r : Route) (answer : Forwarded r.Resp) (host : Host) :
    (system cfg).Performs host host (.op ⟨.forward r, answer⟩) := by
  refine ⟨answers r answer, fun _ => ?_⟩
  have hanswer : (answers r answer).env.forward r = answer := dif_pos rfl
  exact congrArg (fun a => some (a, host)) hanswer

/-- What a body means leaves the host as it is. -/
theorem performs_collected (parts : Parts) (frames : List Frame) (host : Host) :
    (system app.cfg).Performs host host (app.collected parts frames) := by
  rw [App.collected]
  split
  · rfl
  · split
    · split <;> rfl
    · split
      · exact performs_forward _ _ _ host
      · rfl

theorem performs_accepted (req : Request) (host : Host) :
    (system app.cfg).Performs host host (app.accepted req) := by
  cases req with
  | api _ _ => rfl
  | proxied parts =>
    simp only [App.accepted]
    split
    · rfl
    · split <;> rfl

/-- What an operation leaves of the machine. -/
inductive Machine.Moved (m : Machine) : (o : ServerOp) → o.Res → Machine → Prop
  | eff {q : Op} {r : q.Res} (host : Host) : Moved m (.eff q) r { m with host }
  | spawned {j : Job} : Moved m (.spawn j) () { m with spawned := j :: m.spawned }
  | begun {j : Job} {rounds : ℕ} : j ∈ m.spawned →
      Moved m (.begin j rounds) () { m with spawned := m.spawned.erase j }
  | woken : Moved m .wake () { m with permit := true }
  | taken : m.permit = true → Moved m .wait Waited.notified { m with permit := false }
  | listening : Moved m .listen () { m with listening := true }
  | still {o : ServerOp} {r : o.Res} : (∀ q, o ≠ .eff q) → Moved m o r m

theorem moved_of_perform {w : Wire} {o : ServerOp} {m m' : Machine} {r : o.Res}
    (hp : w.perform o m = some (r, m')) : m.Moved o r m' := by
  cases o with
  | eff q =>
    obtain ⟨host, -, rfl⟩ := Wire.host_of_eff hp
    exact .eff host
  | accept _ =>
    simp only [Wire.perform] at hp
    split at hp
    · cases hp
      exact .still (by simp)
    · cases hp
  | begin j rounds =>
    simp only [Wire.perform] at hp
    split at hp
    · next hj =>
      cases hp
      exact .begun hj
    · cases hp
  | wait =>
    simp only [Wire.perform] at hp
    split at hp
    · cases hp
      exact .still (by simp)
    · split at hp
      · next hpermit =>
        cases hp
        exact .taken hpermit
      · cases hp
  | wake =>
    cases hp
    exact .woken
  | listen =>
    cases hp
    exact .listening
  | collect _ =>
    obtain ⟨frames, -, heq⟩ := Option.map_eq_some_iff.mp hp
    cases heq
    exact .still (by simp)
  | read _ | send _ _ | respond _ | sleep _ | bind =>
    cases hp
    exact .still (by simp)
  | spawn j =>
    cases hp
    exact .spawned

/-- Apart from the operations of the tasks nothing is done to the host. -/
theorem host_perform {w : Wire} {o : ServerOp} {m m' : Machine} {r : o.Res}
    (hp : w.perform o m = some (r, m')) (ho : ∀ q, o ≠ .eff q) : m'.host = m.host := by
  cases moved_of_perform hp with
  | eff host => exact absurd rfl (ho _)
  | spawned | begun _ | woken | taken _ | listening | still _ => rfl

/-- What is done to the host is what it means to the tasks. -/
theorem performs_meaning {w : Wire} {o : ServerOp} {m m' : Machine} {r : o.Res}
    (hp : w.perform o m = some (r, m')) :
    (system app.cfg).Performs m.host m'.host (app.meaning ⟨o, r⟩) := by
  by_cases ho : ∃ q, o = .eff q
  · obtain ⟨q, rfl⟩ := ho
    obtain ⟨host, hw, rfl⟩ := Wire.host_of_eff hp
    exact ⟨w.world, fun _ => hw⟩
  · rw [host_perform hp fun q hq => ho ⟨q, hq⟩]
    cases o with
    | eff q => exact absurd ⟨q, rfl⟩ ho
    | send r' out => exact performs_forward _ _ _ _
    | accept req => exact performs_accepted req _
    | collect parts => exact performs_collected parts r _
    | begin j rounds => cases j <;> rfl
    | sleep t => cases t <;> rfl
    | read _ | respond _ | spawn _ | wake | wait | bind | listen => rfl

theorem serves_dispatcher (rounds : ℕ) : Serves app (Job.dispatcher.task app.cfg rounds)
    (dispatcher app.cfg.webhook rounds) :=
  follows_bind (follows_perform (fun _ => rfl) fun _ => serves_dispatcherLoop rounds)

/-- The tasks of the server are tasks of `system`. -/
theorem refines (app : App) : Refines (system app.cfg) (server app) Machine.host app.meaning where
  perform _ _ _ _ _ _ hp := performs_meaning hp
  drift _ _ _ hd := ⟨.of .silent, congrArg (Option.map Machine.host) hd⟩
  reset _ := rfl
  boots qs hb := by
    obtain ⟨rounds, rfl⟩ := hb
    refine ⟨_, ⟨rounds, rounds, rfl⟩, fun i q hq => ?_⟩
    match i with
    | 0 =>
      cases hq
      exact serves_dispatcher rounds
    | 1 =>
      cases hq
      exact serves_main rounds
    | i + 2 => cases hq
  starts q hq := by
    cases hq with
    | serve req => exact serves_request req _
    | job j rounds h => exact serves_job h rounds _

theorem tracks_initial : Tracks app.meaning (Task app.cfg) (fun _ => none)
    Companion.initial.threads initial.threads where
  follows i q hq := by simp [initial] at hq
  inj i i' j hi := by cases hi
  fresh _ _ := rfl

/-- **A run of the server stands for a run of the tasks**: what is done to the host is done
there by the tasks, one deed after another, from the same states and with the same answers. -/
theorem server_refines {app : App} {hist : List (Event Serving Machine)}
    {d : Pool.Config Serving Machine} (run : (server app).Run initial hist d) :
    ∃ past c, (system app.cfg).Run Companion.initial past c ∧ c.shared = d.shared.host ∧
      past.filterMap Event.deed? = hist.filterMap (Event.shown Machine.host app.meaning) := by
  obtain ⟨past, c, h⟩ := (refines app).run run rfl ⟨_, tracks_initial⟩
  exact ⟨past, c, h.run, h.shared, h.deeds⟩

/-! ## An invoice -/

/-- What is parsed of one request for an invoice and of its answer. -/
def invoiceCodec : Codec where
  errorBody _ := []
  rlnError _ := none
  resp r _ := if h : r = .rgbinvoice then some (h ▸ ⟨"r", "invoice", none, 7⟩) else none
  invoiceRequest _ := some ⟨some "A", false⟩
  sendRequest _ := none
  keysendRequest _ := none
  sendPaymentRequest _ := none
  lnInvoiceRequest _ := none
  assetIdField _ := none
  assetLinkRequest _ := none

def invoiceApp : App :=
  ⟨defaults, ⟨"http://localhost:3001", 1024⟩, ⟨none, none, 8⟩, invoiceCodec⟩

/-- What a client sends: `connection` is for the companion alone. -/
def invoiceParts : Parts where
  method := "POST"
  path := ⟨"/rgbinvoice", by simp, Or.inr rfl⟩
  query := none
  headers := ((HeaderMap.only "host" "localhost:8080").put "connection" ⟨octets "close", []⟩).put
    "content-type" ⟨octets "application/json", []⟩

/-- What the node answers: it gives no type to its content. -/
def invoiceAnswer : HttpResponse where
  status := 200
  headers := .only "content-length" "64"
  body := octets
    "\x7b\"recipient_id\":\"r\",\"invoice\":\"invoice\",\"batch_transfer_idx\":7\x7d"

/-- The node is up, and answers. -/
def invoiceWire : Wire where
  world := .of (.listing .nodeInfo ())
  frames := some [.data (octets "\x7b\"asset_id\":\"A\","), .data (octets "\"witness\":false\x7d")]
  listed := true
  answer := .ok invoiceAnswer
  elapsed := true
  bound := true

/-- The companion is booted until it listens; then a request comes, and its first `n`
operations are performed. -/
def requesting (req : Request) (n : ℕ) : List (Move (server invoiceApp)) :=
  .boot [Job.dispatcher.task invoiceApp.cfg 0, main invoiceApp] ::
    List.replicate 12 (.act 1 invoiceWire) ++
      .start (serve invoiceApp req) :: List.replicate n (.act 2 invoiceWire)

theorem requesting_admitted (req : Request) (n : ℕ) : Admitted (requesting req n) := by
  refine ⟨⟨0, rfl⟩, admitted_append.mpr ⟨admitted_replicate trivial, ?_⟩⟩
  exact ⟨.serve _, admitted_replicate trivial⟩

/-- An invoice is asked for. -/
def invoicing (n : ℕ) : List (Move (server invoiceApp)) := requesting (.proxied invoiceParts) n

theorem invoicing_admitted (n : ℕ) : Admitted (invoicing n) := requesting_admitted _ n

/-- Up to the arrival, to the send, to the row, and to the answer. -/
theorem invoicing_plays : ∀ n ∈ [0, 3, 5, 7],
    ((server invoiceApp).play (invoicing n) initial).isSome :=
  List.forall_mem_cons.mpr ⟨rfl, List.forall_mem_cons.mpr ⟨rfl, List.forall_mem_cons.mpr ⟨rfl,
    List.forall_mem_cons.mpr ⟨rfl, List.forall_mem_nil _⟩⟩⟩⟩

/-- The companion when an invoice is asked for. -/
def asked : Pool.Config Serving Machine :=
  (((server invoiceApp).play (invoicing 0) initial).get (invoicing_plays 0 (by simp))).1

/-- The run to the answer. -/
theorem invoicing_answered : ∃ before e c resp,
    (server invoiceApp).Run initial (before ++ [e]) c ∧
    e.label = .act 2 (.respond (.proxied resp)) () := by
  have run := run_of_isSome (invoicing_admitted 7) (invoicing_plays 7 (by simp))
  obtain ⟨before, e, resp, hhist, he⟩ : ∃ before e resp,
      (((server invoiceApp).play (invoicing 7) initial).get
        (invoicing_plays 7 (by simp))).2 = before ++ [e] ∧
      e.label = .act 2 (.respond (.proxied resp)) () :=
    ⟨_, _, _, (List.dropLast_append_getLast (List.cons_ne_nil _ _)).symm, rfl⟩
  rw [hhist] at run
  exact ⟨before, e, _, resp, run, he⟩

/-- The tasks of the invoice, with the row it leaves. -/
theorem server_refines_invoice : ∃ hist d, (server invoiceApp).Run initial hist d ∧
    ∃ past c, (system defaults).Run Companion.initial past c ∧ c.shared = d.shared.host ∧
      c.shared.db.transfers.rows.length = 1 ∧
      past.filterMap Event.deed? =
        hist.filterMap (Event.shown Machine.host invoiceApp.meaning) := by
  have run := run_of_isSome (invoicing_admitted 7) (invoicing_plays 7 (by simp))
  obtain ⟨past, c, run', hshared, hdeeds⟩ := server_refines run
  exact ⟨_, _, run, past, c, run', hshared, by rw [hshared]; rfl, hdeeds⟩

end Companion.Server
