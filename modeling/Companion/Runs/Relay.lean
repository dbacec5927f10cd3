import Companion.Runs.Server

/-!
# What a client is told

The companion stands between its clients and the node.  Whatever its hooks do with a request,
whether they can parse it, whether the store or the node fails them, the client is told what
the node answered, or why the node was not asked or did not answer.  Each request is given to
the HTTP client at most once, and nothing is written for it before the node has answered.

## Main definitions

* `Traffic`, `traffic` — what has passed for the request of a thread.
* `Relayed` — the answers that go with it.
* `client_told`, `sent_once`, `sent_as_received`, `written_after_answer` — what the threads of a
  run answer, send and write.
-/

set_option autoImplicit false

namespace Companion.Server
open Lib Proc Pool

variable {app : App}

/-- What has passed for a request: itself, its body, and what was given to the HTTP client with
what came back. -/
structure Traffic where
  request : Option Request := none
  frames : Option (List Frame) := none
  sent : List (Outgoing × Except SendError HttpResponse) := []

def Traffic.note (m : Traffic) : (o : ServerOp) → o.Res → Traffic
  | .accept req, _ => { m with request := some req }
  | .collect _, (frames : List Frame) => { m with frames := some frames }
  | .send _ out, (answer : Except SendError HttpResponse) =>
      { m with sent := m.sent ++ [(out, answer)] }
  | _, _ => m

/-- What has passed for the request of thread `i`. -/
def traffic (i : ℕ) (hist : List (Event Serving Machine)) : Traffic :=
  memory Traffic.note {} i hist

/-- The request may be sent to the node, with this body. -/
structure Admitted (app : App) (parts : Parts) (frames : List Frame) (body : Bytes) : Prop where
  endpoint : endpoint parts ≠ none
  body : toBytes app.proxy.maxBody frames = .ok body
  path : checkPath parts.path.text = .ok ()

/-- What the client is told, for what has passed: the response that is given to the server. -/
inductive Relayed (app : App) : Traffic → HttpResponse → Prop
  /-- There is no such method. -/
  | refused {parts : Parts} : endpoint parts = none →
      Relayed app ⟨some (.proxied parts), none, []⟩ methodNotAllowed
  /-- The body does not arrive, or is too large. -/
  | unread {parts : Parts} {frames : List Frame} {e : ProxyError} :
      toBytes app.proxy.maxBody frames = .error e →
      Relayed app ⟨some (.proxied parts), some frames, []⟩ (e.intoResponse app)
  | badPath {parts : Parts} {frames : List Frame} {body : Bytes} :
      toBytes app.proxy.maxBody frames = .ok body → checkPath parts.path.text ≠ .ok () →
      Relayed app ⟨some (.proxied parts), some frames, []⟩ (ProxyError.path.intoResponse app)
  | failed {parts : Parts} {frames : List Frame} {body : Bytes} {e : SendError} :
      Admitted app parts frames body →
      Relayed app
        ⟨some (.proxied parts), some frames, [(app.proxy.outgoing parts body, .error e)]⟩
        ((ProxyError.ofSend e).intoResponse app)
  | answered {parts : Parts} {frames : List Frame} {body : Bytes} {answer : HttpResponse} :
      Admitted app parts frames body →
      Relayed app
        ⟨some (.proxied parts), some frames, [(app.proxy.outgoing parts body, .ok answer)]⟩
        answer.relayed.intoResponse

/-- When the node has answered, the client is told its answer. -/
theorem Relayed.conveys {m : Traffic} {resp answer : HttpResponse} {out : Outgoing}
    (h : Relayed app m resp) (hsent : m.sent = [(out, .ok answer)]) : resp.Conveys answer := by
  cases h with
  | refused _ | unread _ | badPath _ _ | failed _ => cases hsent
  | answered _ =>
    cases hsent
    exact answer.conveys_relayed

/-- The request has not been sent, and may be. -/
def Sendable (app : App) (m : Traffic) (out : Outgoing) : Prop :=
  ∃ parts frames body, m = ⟨some (.proxied parts), some frames, []⟩ ∧
    Admitted app parts frames body ∧ out = app.proxy.outgoing parts body

/-- The node has answered the request, and its answer allows the write. -/
def Allows (m : Traffic) (q : StoreOp) : Prop :=
  ∃ out answer, m.sent = [(out, .ok answer)] ∧
    (answer.isSuccess = true ∨ (answer.status = 403 ∧ q.writes = [.nodeState]))

/-- What a thread may do, for what has passed. -/
def Proper (app : App) (m : Traffic) : ServerOp → Prop
  | .respond (.proxied resp) => Relayed app m resp
  | .send _ out => Sendable app m out
  | .eff (.store q) => m.request ≠ none → q.writes ≠ [] → Allows m q
  | _ => True

/-! ## Threads without a request -/

section Jobs

/-- Operations that are no part of the exchange with a client. -/
def Internal : ServerOp → Prop
  | .accept _ | .collect _ | .send _ _ | .respond _ => False
  | _ => True

theorem internal_lift {α : Type} (p : Proc Effects α) : (p.lift effects).Uses Internal :=
  lift_uses ((uses_true p).mono fun _ _ => trivial)

theorem internal_ask {o : ServerOp} (h : Internal o) : (ask o).Uses Internal := uses_perform h

theorem internal_backoffProbe (cfg : Config) : (backoffProbe cfg).Uses Internal :=
  uses_bind (internal_ask trivial) fun _ => internal_lift _

theorem internal_refreshLoop (cfg : Config) (rounds : ℕ) :
    (refreshLoop cfg rounds).Uses Internal := by
  induction rounds with
  | zero => trivial
  | succ rounds ih =>
    refine uses_bind (internal_ask trivial) fun _ => uses_bind (internal_lift _) fun t => ?_
    refine uses_bind (internal_lift _) fun outcome => ?_
    rcases outcome with e | o
    · exact ih
    · cases o with
      | paused | locked | unreachable => exact uses_bind (internal_backoffProbe cfg) fun _ => ih
      | idle | refreshed report => exact ih

theorem internal_withLock {ε α : Type} {p : ServerProg ε α} (h : p.run.Uses Internal) :
    (withLock p).run.Uses Internal :=
  uses_bind (internal_ask trivial) fun _ => uses_bind h fun _ =>
    uses_bind (internal_ask trivial) fun _ => trivial

theorem internal_reap (t : ℤ) : (reap t).run.Uses Internal := by
  refine internal_withLock (Fallible.uses_bind (internal_lift _) fun expired => ?_)
  refine Fallible.uses_bind (internal_lift _) fun failed => ?_
  by_cases h : failed > 0
  · simp only [h, if_true]
    exact ⟨trivial, fun _ => trivial⟩
  · simp only [h, if_false]
    trivial

theorem internal_reaper (rounds : ℕ) : (reaper rounds).Uses Internal := by
  induction rounds with
  | zero => trivial
  | succ rounds ih =>
    refine uses_bind (internal_ask trivial) fun _ => uses_bind (internal_lift _) fun unlocked => ?_
    cases unlocked with
    | false => exact ih
    | true =>
      refine uses_bind (internal_lift _) fun t => ?_
      exact uses_bind (internal_reap t) fun _ => ih

theorem internal_fullSyncTimer (cfg : Config) (rounds : ℕ) :
    (fullSyncTimer cfg rounds).Uses Internal := by
  induction rounds with
  | zero => trivial
  | succ rounds ih =>
    refine uses_bind (internal_ask trivial) fun _ => uses_bind (internal_lift _) fun unlocked => ?_
    cases unlocked with
    | false => exact ih
    | true =>
      refine uses_bind (internal_lift _) fun outcome => ?_
      cases outcome with
      | ok report => exact ih
      | error e =>
        refine uses_bind (internal_lift _) fun kind => ?_
        rcases kind with e | k
        · exact ih
        · cases k with
          | locked => exact ih
          | unreachable => exact uses_bind (internal_backoffProbe cfg) fun _ => ih

theorem internal_paymentsLoop (cfg : Config) (rounds : ℕ) :
    (paymentsLoop cfg rounds).Uses Internal := by
  induction rounds with
  | zero => trivial
  | succ rounds ih =>
    refine uses_bind (internal_ask trivial) fun _ => uses_bind (internal_lift _) fun t => ?_
    refine uses_bind (internal_lift _) fun outcome => ?_
    rcases outcome with e | o
    · exact ih
    · cases o with
      | unreachable => exact uses_bind (internal_backoffProbe cfg) fun _ => ih
      | paused | locked | synced report => exact ih

theorem internal_dispatcherLoop (cfg : Config.Webhook) (rounds : ℕ) :
    (dispatcherLoop cfg rounds).Uses Internal := by
  induction rounds with
  | zero => trivial
  | succ rounds ih =>
    refine uses_bind (internal_ask trivial) fun _ => uses_bind (internal_lift _) fun t => ?_
    exact uses_bind (internal_lift _) fun _ => ih

theorem internal_reconcile (cfg : Config) (rounds : ℕ) :
    (reconcile cfg rounds).run.Uses Internal := by
  induction rounds with
  | zero => exact Fallible.uses_bind (internal_lift _) fun _ => trivial
  | succ rounds ih =>
    refine Fallible.uses_bind (internal_lift _) fun ended => ?_
    cases ended with
    | some b => trivial
    | none => exact Fallible.uses_bind (Fallible.uses_lift (internal_ask trivial)) fun _ => ih

theorem internal_task (cfg : Config) (rounds : ℕ) (j : Job) :
    (j.task cfg rounds).Uses Internal := by
  refine uses_bind (internal_ask trivial) fun _ => ?_
  cases j with
  | assetSync ids => exact internal_lift _
  | reconcile => exact uses_bind (internal_reconcile cfg rounds) fun _ => trivial
  | refreshLoop => exact internal_refreshLoop cfg rounds
  | reaper => exact internal_reaper rounds
  | fullSyncTimer => exact internal_fullSyncTimer cfg rounds
  | paymentsLoop => exact internal_paymentsLoop cfg rounds
  | dispatcher => exact internal_dispatcherLoop cfg.webhook rounds

theorem internal_spawn (j : Job) : (spawn j).Uses Internal := internal_ask trivial

theorem internal_main : (main app).Uses Internal := by
  refine uses_bind (internal_lift _) fun outcome => ?_
  cases outcome with
  | error e => trivial
  | ok state =>
    refine uses_bind (internal_ask trivial) fun (bound : Bool) => ?_
    cases bound with
    | false => trivial
    | true =>
      refine uses_bind ?_ fun _ => uses_bind (internal_spawn _) fun _ => internal_ask trivial
      refine uses_bind (internal_spawn _) fun _ => uses_bind (internal_spawn _) fun _ => ?_
      exact uses_bind (internal_spawn _) fun _ => uses_bind (internal_spawn _) fun _ =>
        internal_spawn _

/-- Such operations leave what has passed as it is. -/
theorem note_internal {o : ServerOp} (h : Internal o) (m : Traffic) (r : o.Res) :
    m.note o r = m := by
  cases o with
  | accept _ | collect _ | send _ _ => exact absurd h id
  | eff _ | read _ | respond _ | spawn _ | begin _ _ | wake | wait | sleep _ | bind | listen => rfl

/-- And without a request they may all be asked for. -/
theorem keeps_internal {α : Type} {p : Proc Serving α} (h : p.Uses Internal) :
    p.Keeps Traffic.note (Proper app) {} fun _ _ => True := by
  have hstays : p.Stays Traffic.note (Proper app) (· = {}) := by
    refine stays_of_uses h fun m o ho hm => ⟨?_, fun r => (note_internal ho m r).trans hm⟩
    subst hm
    cases o with
    | accept _ | collect _ | send _ _ | respond _ => exact absurd ho id
    | eff q =>
      cases q with
      | store q => exact fun hreq => absurd rfl hreq
      | node _ | forward _ | post _ | clock | uuid | lock | unlock => trivial
    | read _ | spawn _ | begin _ _ | wake | wait | sleep _ | bind | listen => trivial
  exact (hstays {} rfl).mono fun _ _ _ => trivial

end Jobs

/-! ## Forwarding -/

section Handlers
variable {parts : Parts} {frames : List Frame} {body : Bytes}

/-- The node has answered the request. -/
structure Answered (app : App) (parts : Parts) (answer : HttpResponse) (m : Traffic) : Prop where
  admitted : ∃ frames body, Admitted app parts frames body ∧
    m = ⟨some (.proxied parts), some frames, [(app.proxy.outgoing parts body, .ok answer)]⟩

theorem Answered.told {answer : HttpResponse} {m : Traffic} (h : Answered app parts answer m) :
    Relayed app m answer.relayed.intoResponse := by
  obtain ⟨frames, body, hadmitted, rfl⟩ := h.admitted
  exact .answered hadmitted

/-- What comes of forwarding is what the client is told. -/
def Forwards (app : App) (parts : Parts) : Except ProxyError HttpResponse → Traffic → Prop
  | .ok resp, m => ∃ answer, resp = answer.relayed ∧ Answered app parts answer m
  | .error e, m => Relayed app m (e.intoResponse app)

/-- A contract of what answers a request, from the notes it begins with. -/
abbrev Tells (app : App) {α : Type} (q : Proc Serving α) (m : Traffic) (R : α → Traffic → Prop) :
    Prop := q.Keeps Traffic.note (Proper app) m R

theorem tells_ask {α : Type} {o : ServerOp} {f : o.Res → Proc Serving α} {m : Traffic}
    {R : α → Traffic → Prop} (ho : Proper app m o) (h : ∀ r, Tells app (f r) (m.note o r) R) :
    Tells app (ask o >>= f) m R := ⟨ho, h⟩

theorem tells_forwardParts (r : Route) (he : endpoint parts ≠ none)
    (hbody : toBytes app.proxy.maxBody frames = .ok body) :
    Tells app (forwardParts app r parts body).run ⟨some (.proxied parts), some frames, []⟩
      (Forwards app parts) := by
  rw [forwardParts]
  cases hpath : checkPath parts.path.text with
  | error e => exact .badPath hbody (by simp [hpath])
  | ok _ =>
    have hadmitted : Admitted app parts frames body := ⟨he, hbody, hpath⟩
    refine ⟨⟨parts, frames, body, rfl, hadmitted, rfl⟩, fun answer => ?_⟩
    cases answer with
    | ok answer => exact ⟨answer, rfl, frames, body, hadmitted, rfl⟩
    | error e => exact .failed hadmitted

/-- Operations that leave what has passed as it is may be asked for as it allows. -/
theorem tells_allowed {α : Type} {P : ServerOp → Prop} {q : Proc Serving α} {m : Traffic}
    (hq : q.Uses P) (hinternal : ∀ o, P o → Internal o)
    (hallows : ∀ o, P (.eff (.store o)) → o.writes ≠ [] → Allows m o) :
    Tells app q m fun _ m' => m' = m := by
  have hstays : q.Stays Traffic.note (Proper app) (· = m) := by
    refine stays_of_uses hq fun m' o ho hm => ⟨?_, fun r => ?_⟩
    · subst hm
      have hint := hinternal o ho
      cases o with
      | accept _ | collect _ | send _ _ | respond _ => exact absurd hint id
      | eff q =>
        cases q with
        | store q => exact fun _ => hallows q ho
        | node _ | forward _ | post _ | clock | uuid | lock | unlock => trivial
      | read _ | spawn _ | begin _ _ | wake | wait | sleep _ | bind | listen => trivial
    · exact (note_internal (hinternal o ho) m' r).trans hm
  exact hstays m rfl

/-- What the hook of a route does, when the node has answered with success. -/
theorem tells_hook {α : Type} {q : Proc Serving α} (hq : q.Uses Internal) {answer : HttpResponse}
    {m : Traffic} (h : Answered app parts answer m) (hsuccess : answer.isSuccess = true) :
    Tells app q m fun _ m' => m' = m := by
  refine tells_allowed hq (fun _ ho => ho) fun o _ _ => ?_
  obtain ⟨frames, body, -, rfl⟩ := h.admitted
  exact ⟨_, answer, rfl, Or.inl hsuccess⟩

/-- Setting the state of the node. -/
def SetsState (o : ServerOp) : Prop :=
  o = .eff .clock ∨ ∃ q, o = .eff (.store q) ∧ (q.writes ≠ [] → q.writes = [.nodeState])

/-- The state of the node is noted when the answer says it. -/
theorem tells_noteLocked {answer : HttpResponse} {m : Traffic} (h : Answered app parts answer m) :
    Tells app (noteLocked app answer.relayed) m fun _ m' => m' = m := by
  rw [noteLocked_relayed, noteLocked, Companion.noteLocked]
  cases hstate : notedState answer.status (app.codec.rlnError answer.body) with
  | none => rfl
  | some state =>
    have hstatus : answer.status = 403 := by
      rw [notedState.eq_def] at hstate
      split at hstate
      · assumption
      · cases hstate
    have huses : (setNodeState state).run.Uses fun o => SetsState (.eff o) :=
      setNodeState_uses (Or.inr ⟨_, rfl, fun hno => absurd rfl hno⟩) (Or.inl rfl)
        (fun _ _ => Or.inr ⟨_, rfl, fun _ => rfl⟩) state
    refine tells_allowed (P := SetsState)
      (lift_uses (uses_bind huses fun _ => trivial)) (fun o ho => ?_) fun q hq hwrites => ?_
    · rcases ho with rfl | ⟨q, rfl, -⟩ <;> trivial
    · rcases hq with hq | ⟨q', hq, hnode⟩
      · cases hq
      · cases hq
        obtain ⟨frames, body, -, rfl⟩ := h.admitted
        exact ⟨_, answer, rfl, Or.inr ⟨hstatus, hnode hwrites⟩⟩

theorem tells_forwardRead (r : Route) (he : endpoint parts ≠ none)
    (hbody : toBytes app.proxy.maxBody frames = .ok body)
    {onSuccess : Exchange → ServerProg HookError Unit}
    (hhook : ∀ ex, (onSuccess ex).run.Uses Internal) :
    Tells app (forwardRead app r parts body onSuccess)
      ⟨some (.proxied parts), some frames, []⟩ fun resp m => Relayed app m resp := by
  refine keeps_bind ((tells_forwardParts r he hbody).mono fun res m hres => ?_)
  cases res with
  | error e => exact hres
  | ok resp =>
    obtain ⟨answer, rfl, hanswered⟩ := hres
    -- whatever comes of the hook or of the note, the answer goes back as it is
    by_cases h : answer.isSuccess = true
    · simp only [HttpResponse.isSuccess_relayed, h, if_true]
      refine keeps_bind ((tells_hook (hhook _) hanswered h).mono fun _ m' hm' => ?_)
      rw [hm']
      exact hanswered.told
    · simp only [HttpResponse.isSuccess_relayed, h]
      refine keeps_bind ((tells_noteLocked hanswered).mono fun _ m' hm' => ?_)
      rw [hm']
      exact hanswered.told

/-- Reading the body comes first. -/
theorem tells_readBody {α : Type} {k : Except ProxyError Bytes → Proc Serving α}
    {R : α → Traffic → Prop}
    (h : ∀ frames, Tells app (k (toBytes app.proxy.maxBody frames))
      ⟨some (.proxied parts), some frames, []⟩ R) :
    Tells app ((readBody app parts).run >>= k) ⟨some (.proxied parts), none, []⟩ R :=
  ⟨trivial, h⟩

theorem tells_forwardThen (r : Route) (he : endpoint parts ≠ none)
    {onSuccess : Exchange → ServerProg HookError Unit}
    (hhook : ∀ ex, (onSuccess ex).run.Uses Internal) :
    Tells app (forwardThen app r parts onSuccess) ⟨some (.proxied parts), none, []⟩
      fun resp m => Relayed app m resp := by
  refine tells_readBody fun frames => ?_
  cases hbody : toBytes app.proxy.maxBody frames with
  | error e => exact .unread hbody
  | ok body => exact tells_forwardRead r he hbody hhook

theorem tells_fallback (he : endpoint parts ≠ none) :
    Tells app (fallback app parts) ⟨some (.proxied parts), none, []⟩
      fun resp m => Relayed app m resp := by
  rw [fallback, forward, ExceptT.run_bind, bind_assoc]
  refine tells_readBody fun frames => ?_
  cases hbody : toBytes app.proxy.maxBody frames with
  | error e => exact .unread hbody
  | ok body =>
    refine keeps_bind ((tells_forwardParts .other he hbody).mono fun res m hres => ?_)
    cases res with
    | error e => exact hres
    | ok resp =>
      obtain ⟨answer, rfl, hanswered⟩ := hres
      refine keeps_bind ((tells_noteLocked hanswered).mono fun _ m' hm' => ?_)
      rw [hm']
      exact hanswered.told

/-! ## The hooks -/

theorem internal_hook {α : Type} (p : Prog HookError α) : (p.lift effects).run.Uses Internal :=
  internal_lift p.run

theorem internal_liftM {ε α : Type} {p : Proc Serving α} (h : p.Uses Internal) :
    (liftM p : ServerProg ε α).run.Uses Internal := Fallible.uses_lift h

theorem internal_rgbinvoiceHook (ex : Exchange) :
    (rgbinvoiceHook app ex).run.Uses Internal :=
  Fallible.uses_bind (internal_hook _) fun _ => internal_liftM (internal_ask trivial)

theorem internal_spawnAssetSync (ids : List String) :
    (spawnAssetSync ids).run.Uses Internal := internal_liftM (internal_spawn _)

theorem internal_sendrgbHook (ex : Exchange) : (sendrgbHook app ex).run.Uses Internal := by
  refine Fallible.uses_bind (internal_hook _) fun req => ?_
  refine Fallible.uses_bind (internal_hook _) fun resp => ?_
  refine Fallible.uses_bind (internal_hook _) fun _ => ?_
  exact Fallible.uses_bind (internal_spawnAssetSync _) fun _ =>
    internal_liftM (internal_ask trivial)

theorem internal_issueHook (schema : Schema) (ex : Exchange) :
    (issueHook app schema ex).run.Uses Internal := by
  refine Fallible.uses_bind (internal_hook _) fun resp => ?_
  refine Fallible.uses_bind (internal_liftM (internal_lift _)) fun t => ?_
  exact Fallible.uses_bind (internal_hook _) fun _ => internal_spawnAssetSync _

theorem internal_syncHook {α : Type} (parse : Bytes → Option α) (ids : α → List String)
    (ex : Exchange) : (syncHook parse ids ex).run.Uses Internal :=
  Fallible.uses_bind (internal_hook _) fun _ => internal_spawnAssetSync _

theorem internal_syncPendingHook : (syncPendingHook app).run.Uses Internal :=
  Fallible.uses_bind (internal_liftM (internal_lift _)) fun _ =>
    Fallible.uses_bind (internal_hook _) fun _ => trivial

theorem internal_unlockHook : unlockHook.run.Uses Internal :=
  Fallible.uses_bind (internal_hook _) fun _ => internal_liftM (internal_spawn _)

/-- The engine lock is nothing to the client. -/
theorem tells_syncPending (r : Route) (he : endpoint parts ≠ none) :
    Tells app (syncPending app r parts) ⟨some (.proxied parts), none, []⟩
      fun resp m => Relayed app m resp := by
  refine tells_ask trivial fun _ => ?_
  refine keeps_bind ((tells_forwardThen r he fun _ => internal_syncPendingHook).mono
    fun resp m hresp => ?_)
  exact tells_ask trivial fun _ => hresp

theorem tells_handler {e : Endpoint} (he : endpoint parts = some e) :
    Tells app (e.handler app parts) ⟨some (.proxied parts), none, []⟩
      fun resp m => Relayed app m resp := by
  have hsome : endpoint parts ≠ none := by simp [he]
  cases e with
  | rgbinvoice => exact tells_forwardThen _ hsome internal_rgbinvoiceHook
  | sendrgb => exact tells_forwardThen _ hsome internal_sendrgbHook
  | keysend | sendpayment | lninvoice =>
    exact tells_forwardThen _ hsome fun _ => internal_hook _
  | issue schema => exact tells_forwardThen _ hsome (internal_issueHook schema)
  | inflate | assetlink => exact tells_forwardThen _ hsome (internal_syncHook _ _)
  | refreshtransfers | failtransfers => exact tells_syncPending _ hsome
  | init | restore | lock | shutdown =>
    exact tells_forwardThen _ hsome fun _ => internal_hook _
  | unlock => exact tells_forwardThen _ hsome fun _ => internal_unlockHook
  | fallback => exact tells_fallback hsome

/-- A request, from its arrival to its answer. -/
theorem tells_serve (req : Request) :
    Tells app (serve app req) {} fun _ _ => True := by
  cases req with
  | api authorization req =>
    refine tells_ask trivial fun _ => keeps_bind ?_
    have hreads : ((Api.serve app.api authorization req).lift reads).Uses
        fun o => ∃ q, o = ServerOp.read q :=
      lift_uses ((uses_true _).mono fun q _ => ⟨q, rfl⟩)
    refine (tells_allowed hreads (fun o ho => ?_) fun q hq => ?_).mono
      fun _ _ _ => ⟨trivial, fun _ => trivial⟩
    · obtain ⟨q, rfl⟩ := ho
      trivial
    · obtain ⟨q', hq⟩ := hq
      cases hq
  | proxied parts =>
    refine tells_ask trivial fun _ => keeps_bind ?_
    rw [handle]
    cases he : endpoint parts with
    | none => exact ⟨.refused he, fun _ => trivial⟩
    | some e => exact (tells_handler he).mono fun resp m hresp => ⟨hresp, fun _ => trivial⟩

end Handlers

/-! ## Runs -/

section Runs

theorem contracted : (server app).Contracted Traffic.note {} (Proper app) (fun _ => True)
    initial where
  boots qs hb q hq := by
    obtain ⟨rounds, rfl⟩ := hb
    simp only [List.mem_cons, List.not_mem_nil, or_false] at hq
    rcases hq with rfl | rfl
    · exact keeps_internal (internal_task _ _ _)
    · exact keeps_internal internal_main
  starts q hq := by
    cases hq with
    | serve req => exact tells_serve req
    | job j rounds h => exact keeps_internal (internal_task _ _ _)
  threads q hq := by simp [initial] at hq

variable {hist before after : List (Event Serving Machine)} {e : Event Serving Machine}
  {c : Pool.Config Serving Machine}

/-- **What a client is told**: the answer to a request is what has come of it, which is the
node's answer if there is one. -/
theorem client_told (run : (server app).Run initial hist c) (hhist : hist = before ++ e :: after)
    {i : ℕ} {resp : HttpResponse} {r : Unit}
    (hact : e.label = .act i (.respond (.proxied resp)) r) :
    Relayed app (traffic i before) resp ∧
      ∀ out answer, (traffic i before).sent = [(out, .ok answer)] → resp.Conveys answer := by
  have hrelayed : Relayed app (traffic i before) resp := run.act_keeps contracted hhist hact
  exact ⟨hrelayed, fun _ _ hsent => hrelayed.conveys hsent⟩

/-- The run of one request up to the answer. -/
theorem invoicing_told : ∃ before e c resp out,
    (server invoiceApp).Run initial (before ++ [e]) c ∧
    e.label = .act 2 (.respond (.proxied resp)) () ∧
    (traffic 2 before).sent = [(out, .ok invoiceAnswer)] := by
  have run := run_of_isSome (invoicing_admitted 7) (invoicing_plays 7 (by simp))
  obtain ⟨before, e, resp, out, hhist, he, hsent⟩ : ∃ before e resp out,
      (((server invoiceApp).play (invoicing 7) initial).get
        (invoicing_plays 7 (by simp))).2 = before ++ [e] ∧
      e.label = .act 2 (.respond (.proxied resp)) () ∧
      (traffic 2 before).sent = [(out, .ok invoiceAnswer)] :=
    ⟨_, _, _, _, (List.dropLast_append_getLast (List.cons_ne_nil _ _)).symm, rfl, rfl⟩
  rw [hhist] at run
  exact ⟨before, e, _, resp, out, run, he, hsent⟩

/-- The client gets its invoice, with a type. -/
theorem client_told_invoice : ∃ before e c resp,
    (server invoiceApp).Run initial (before ++ [e]) c ∧
    e.label = .act 2 (.respond (.proxied resp)) () ∧ resp.body = invoiceAnswer.body ∧
    resp.headers.lookup "content-length" = none ∧
    resp.headers.lookup "content-type" = some ⟨octets "application/octet-stream", []⟩ := by
  obtain ⟨before, e, c, resp, out, run, he, hsent⟩ := invoicing_told
  have htold := (client_told run rfl he).2 out _ hsent
  refine ⟨before, e, c, resp, run, he, htold.body, ?_, ?_⟩
  · rw [htold.headers, if_pos (Or.inl rfl)]
  · rw [htold.headers, if_neg (by decide)]
    rfl

/-- **A request is sent once**: it is given to the HTTP client once at most, and only as it
may be. -/
theorem sent_once (run : (server app).Run initial hist c) (hhist : hist = before ++ e :: after)
    {i : ℕ} {r : Route} {out : Outgoing} {answer : Except SendError HttpResponse}
    (hact : e.label = .act i (.send r out) answer) : Sendable app (traffic i before) out :=
  run.act_keeps contracted hhist hact

/-- The run of one request up to the send. -/
theorem invoicing_sent : ∃ before e c out answer,
    (server invoiceApp).Run initial (before ++ [e]) c ∧
    e.label = .act 2 (.send .rgbinvoice out) answer ∧
    (traffic 2 before).request = some (.proxied invoiceParts) := by
  have run := run_of_isSome (invoicing_admitted 3) (invoicing_plays 3 (by simp))
  obtain ⟨before, e, out, answer, hhist, he, hrequest⟩ : ∃ before e out answer,
      (((server invoiceApp).play (invoicing 3) initial).get
        (invoicing_plays 3 (by simp))).2 = before ++ [e] ∧
      e.label = .act 2 (.send .rgbinvoice out) answer ∧
      (traffic 2 before).request = some (.proxied invoiceParts) :=
    ⟨_, _, _, _, (List.dropLast_append_getLast (List.cons_ne_nil _ _)).symm, rfl, rfl⟩
  rw [hhist] at run
  exact ⟨before, e, _, out, answer, run, he, hrequest⟩

/-- The client is asked to send the request for the invoice. -/
theorem sent_once_invoice : ∃ before e c out answer,
    (server invoiceApp).Run initial (before ++ [e]) c ∧
    e.label = .act 2 (.send .rgbinvoice out) answer ∧
    Sendable invoiceApp (traffic 2 before) out := by
  obtain ⟨before, e, c, out, answer, run, he, -⟩ := invoicing_sent
  exact ⟨before, e, c, out, answer, run, he, sent_once run rfl he⟩

/-- **What is sent is what was received**: what the HTTP client is given is the request that has
been accepted, with all of its body and with all the values of every header that is not
withheld. -/
theorem sent_as_received (run : (server app).Run initial hist c)
    (hhist : hist = before ++ e :: after) {i : ℕ} {r : Route} {out : Outgoing}
    {answer : Except SendError HttpResponse} (hact : e.label = .act i (.send r out) answer) :
    ∃ (parts : Parts) (bodies : List Bytes),
      (traffic i before).request = some (.proxied parts) ∧
      (traffic i before).frames = some (bodies.map .data) ∧
      bodies.flatten.length ≤ app.proxy.maxBody ∧
      out.method = parts.method ∧ out.url = app.proxy.baseUrl ++ parts.pathAndQuery ∧
      out.body = bodies.flatten ∧
      ∀ name, out.headers.lookup name =
        if name ∈ withheld then none else parts.headers.lookup name := by
  have hsendable : Sendable app (traffic i before) out := run.act_keeps contracted hhist hact
  obtain ⟨parts, frames, body, htraffic, hadmitted, rfl⟩ := hsendable
  obtain ⟨bodies, rfl, rfl, hlength⟩ := toBytes_eq_ok.mp hadmitted.body
  exact ⟨parts, bodies, by rw [htraffic], by rw [htraffic], hlength, rfl, rfl, rfl,
    lookup_outgoing app.proxy parts _⟩

/-- The host is the client's own, and the connection is not the node's. -/
theorem sent_as_received_invoice : ∃ before e c out answer,
    (server invoiceApp).Run initial (before ++ [e]) c ∧
    e.label = .act 2 (.send .rgbinvoice out) answer ∧
    out.method = "POST" ∧ out.url = "http://localhost:3001" ++ invoiceParts.pathAndQuery ∧
    out.headers.lookup "host" = none ∧ out.headers.lookup "connection" = none ∧
    out.headers.lookup "content-type" = some ⟨octets "application/json", []⟩ := by
  obtain ⟨before, e, c, out, answer, run, he, hinvoice⟩ := invoicing_sent
  obtain ⟨parts, bodies, hrequest, -, -, hmethod, hurl, -, hheaders⟩ :=
    sent_as_received run rfl he
  rw [hinvoice] at hrequest
  cases hrequest
  refine ⟨before, e, c, out, answer, run, he, hmethod, hurl, ?_, ?_, ?_⟩
  · rw [hheaders, if_pos (by decide)]
  · rw [hheaders, if_pos (by decide)]
  · rw [hheaders, if_neg (by decide)]
    exact SwapMap.lookup_put _ _ _ _

/-- **Written after the answer**: on behalf of a request nothing is written before the node
has answered it. -/
theorem written_after_answer (run : (server app).Run initial hist c)
    (hhist : hist = before ++ e :: after) {i : ℕ} {q : StoreOp} {r : Except StoreError q.Res}
    (hact : e.label = .act i (.eff (.store q)) r) (hreq : (traffic i before).request ≠ none)
    (hwrites : q.writes ≠ []) : Allows (traffic i before) q :=
  run.act_keeps contracted hhist hact hreq hwrites

/-- The invoice is mirrored once it is there. -/
theorem written_after_answer_invoice : ∃ before e c t now r,
    (server invoiceApp).Run initial (before ++ [e]) c ∧
    e.label = .act 2 (.eff (.store (.insertTransfer t now))) r ∧
    Allows (traffic 2 before) (.insertTransfer t now) := by
  have run := run_of_isSome (invoicing_admitted 5) (invoicing_plays 5 (by simp))
  obtain ⟨before, e, t, now, r, hhist, he, hreq⟩ : ∃ before e t now r,
      (((server invoiceApp).play (invoicing 5) initial).get
        (invoicing_plays 5 (by simp))).2 = before ++ [e] ∧
      e.label = .act 2 (.eff (.store (.insertTransfer t now))) r ∧
      (traffic 2 before).request.isSome = true :=
    ⟨_, _, _, _, _, (List.dropLast_append_getLast (List.cons_ne_nil _ _)).symm, rfl, rfl⟩
  have hallows := written_after_answer run hhist he
    (Option.isSome_iff_ne_none.mp hreq) (by simp [StoreOp.writes])
  rw [hhist] at run
  exact ⟨before, e, _, t, now, r, run, he, hallows⟩

end Runs

end Companion.Server
