import Companion.System

/-!
# Clients that leave

A handler runs inside the future of its own request, hook and lock guard included.
When the client disconnects the server drops that future at the await it is suspended
at: the operations it had still to ask for are never asked for, and the guard is
released.  The node does not notice; it executes a request that has been sent.

So what a call leaves behind is what its handler had done by then, and this module says
when that is enough.

## Main definitions

* `Intercepted` — the handlers of the intercepted routes, with their hooks.
* `Suspended`, `Sent` — where a handler may be dropped after its request was sent.
* `HookDone`, `LockKept` — what a call that is seen through has done.
* `seenThrough_iff` — which calls are seen through.
-/

set_option autoImplicit false

namespace Companion
open Lib

/-! ## The handlers -/

/-- The routes whose handlers hold the engine lock. -/
def Route.locks : Route → Bool
  | refreshtransfers | failtransfers => true
  | _ => false

/-- The hook of `/refreshtransfers` and `/failtransfers`. -/
def syncPendingHook (cfg : Config) : Prog HookError Unit := do
  let t ← now
  let _ ← Fallible.mapErr .engine (syncLocked cfg .pending t)
  return ()

/-- The handlers of the intercepted routes, with the hook of each. -/
inductive Intercepted (cfg : Config) :
    (r : Route) → (Option r.Resp → Prog HookError Unit) → Proc Effects Unit → Prop
  | rgbinvoice (req : Option InvoiceRequest) :
      Intercepted cfg .rgbinvoice (rgbinvoiceHook req) (rgbinvoice req)
  | sendrgb (req : Option SendRequest) : Intercepted cfg .sendrgb (sendrgbHook req) (sendrgb req)
  | keysend (req : Option KeysendRequest) :
      Intercepted cfg .keysend (keysendHook req) (keysend req)
  | sendpayment (req : Option SendPaymentRequest) :
      Intercepted cfg .sendpayment (sendpaymentHook req) (sendpayment req)
  | lninvoice (req : Option LNInvoiceRequest) :
      Intercepted cfg .lninvoice (lninvoiceHook req) (lninvoice req)
  | issueassetnia : Intercepted cfg .issueasset (issueHook "NIA") (issue "NIA")
  | issueassetcfa : Intercepted cfg .issueasset (issueHook "CFA") (issue "CFA")
  | issueassetuda : Intercepted cfg .issueasset (issueHook "UDA") (issue "UDA")
  | issueassetifa : Intercepted cfg .issueasset (issueHook "IFA") (issue "IFA")
  | inflate (req : Option AssetIdField) :
      Intercepted cfg .inflate (fun _ => do let _ ← parseReq req; return ()) (inflate req)
  | assetlink (req : Option AssetLinkRequest) :
      Intercepted cfg .assetlink (fun _ => do let _ ← parseReq req; return ()) (assetlink req)
  | refreshtransfers : Intercepted cfg .refreshtransfers (fun _ => syncPendingHook cfg)
      (syncPending cfg .refreshtransfers)
  | failtransfers : Intercepted cfg .failtransfers (fun _ => syncPendingHook cfg)
      (syncPending cfg .failtransfers)
  | init : Intercepted cfg .init (fun _ => Fallible.mapErr .engine (setNodeState .locked))
      (lock .init)
  | unlock : Intercepted cfg .unlock (fun _ => Fallible.mapErr .engine (setNodeState .unlocked))
      unlock
  | restore : Intercepted cfg .restore (fun _ => Fallible.mapErr .engine (setNodeState .locked))
      (lock .restore)
  | lock : Intercepted cfg .lock (fun _ => Fallible.mapErr .engine (setNodeState .locked))
      (lock .lock)
  | shutdown : Intercepted cfg .shutdown (fun _ => Fallible.mapErr .engine (setNodeState .down))
      shutdown

variable {cfg : Config} {r : Route} {hook : Option r.Resp → Prog HookError Unit}
  {p rest : Proc Effects Unit} {l : List (Proc.Deed Effects)} {answer : Forwarded r.Resp}

/-- They are among the tasks that may start. -/
theorem Intercepted.task (h : Intercepted cfg r hook p) : Task cfg p := by
  cases h <;> constructor

/-- Forwarding, and for two routes the engine lock around it. -/
theorem Intercepted.shape (h : Intercepted cfg r hook p) :
    (r.locks = false ∧ p = forwardThen r hook) ∨
      (r.locks = true ∧ p = @Proc.perform Effects .lock >>= fun _ =>
        forwardThen r hook >>= fun _ => @Proc.perform Effects .unlock) := by
  cases h with
  | refreshtransfers | failtransfers => exact Or.inr ⟨rfl, rfl⟩
  | _ => exact Or.inl ⟨rfl, rfl⟩

/-! ## Where a handler may be dropped -/

/-- The operations that suspend the future; the others run on to the next one. -/
def Op.awaits : Op → Bool
  | .clock | .uuid | .unlock => false
  | _ => true

/-- The future waits at an await, or has finished. -/
def Suspended : Proc Effects Unit → Prop
  | .done _ => True
  | .ask o _ => o.awaits = true

/-- Forwarding has returned: with the node's answer, or without one when the request could not
be sent or took too long. -/
def Answered (r : Route) (l : List (Proc.Deed Effects)) : Prop := ∃ d ∈ l, d.op = .forward r

/-- The handler got `answer`, and did `after` since. -/
def Since (r : Route) (l : List (Proc.Deed Effects)) (answer : Forwarded r.Resp)
    (after : List (Proc.Deed Effects)) : Prop :=
  ∃ before, ¬ Answered r before ∧ l = before ++ ⟨.forward r, answer⟩ :: after

/-- The request has been sent, and `answer` is what the node makes of it: the handler
has it already, or still waits for it. -/
def Sent (r : Route) (l : List (Proc.Deed Effects)) (rest : Proc Effects Unit)
    (answer : Forwarded r.Resp) : Prop :=
  (∃ after, Since r l answer after) ∨ ¬ Answered r l ∧ ∃ k, rest = .ask (.forward r) k

/-! ## Seeing a call through -/

/-- The hook was run on the answer, to its end. -/
def HookDone (r : Route) (hook : Option r.Resp → Prog HookError Unit)
    (l : List (Proc.Deed Effects)) : Prop :=
  ∃ body after, Since r l (.success body) after ∧
    ∃ during later outcome, after = during ++ later ∧
      (hook body).run.Reaches during (.done outcome)

/-- The engine lock is released when the handler does so, and when a handler that holds
it is dropped; each time after the deeds `before`. -/
inductive ReleasedAfter (l : List (Proc.Deed Effects)) : List (Proc.Deed Effects) → Prop
  | unlock {before after : List (Proc.Deed Effects)} {d : Proc.Deed Effects} :
      l = before ++ d :: after → d.op = .unlock → ReleasedAfter l before
  | dropped : (∃ d ∈ l, d.op = .lock) → (∀ d ∈ l, d.op ≠ .unlock) → ReleasedAfter l l

/-- The engine lock is not released before the node has answered. -/
def LockKept (r : Route) (l : List (Proc.Deed Effects)) : Prop :=
  ∀ before, ReleasedAfter l before → Answered r before

/-- The node answered 2xx. -/
def Forwarded.isSuccess {ρ : Type} : Forwarded ρ → Bool
  | success _ => true
  | _ => false

/-- A call is seen through: its hook is run to the end if the node answers 2xx, and the
lock, if its route has one, is kept until the node has answered. -/
def SeenThrough (r : Route) (hook : Option r.Resp → Prog HookError Unit)
    (l : List (Proc.Deed Effects)) (answer : Forwarded r.Resp) : Prop :=
  (answer.isSuccess = true → HookDone r hook l) ∧ (r.locks = true → LockKept r l)

/-! ## Where a handler is -/

/-- What is done with the answer. -/
def proceed (hook : Option r.Resp → Prog HookError Unit) : Forwarded r.Resp → Proc Effects Unit
  | .failed => .done ()
  | .refused status body => noteLocked status body
  | .success body => (hook body).run >>= fun _ => .done ()

theorem forwardThen_eq (hook : Option r.Resp → Prog HookError Unit) :
    forwardThen r hook = .ask (.forward r) (proceed hook) := by
  refine congrArg (Proc.ask _) (funext fun answer => ?_)
  cases answer <;> rfl

/-- There is one answer, and one list of deeds since. -/
theorem Since.unique {answer answer' : Forwarded r.Resp} {after after' : List (Proc.Deed Effects)}
    (h : Since r l answer after) (h' : Since r l answer' after') :
    answer = answer' ∧ after = after' := by
  obtain ⟨before, hb, hl⟩ := h
  obtain ⟨before', hb', hl'⟩ := h'
  rw [hl] at hl'
  clear hl
  induction before generalizing before' with
  | nil =>
    cases before' with
    | nil =>
      cases hl'
      exact ⟨rfl, rfl⟩
    | cons d before' =>
      obtain ⟨rfl, -⟩ := List.cons.inj hl'
      exact absurd ⟨_, List.mem_cons_self, rfl⟩ hb'
  | cons d before ih =>
    cases before' with
    | nil =>
      obtain ⟨rfl, -⟩ := List.cons.inj hl'
      exact absurd ⟨_, List.mem_cons_self, rfl⟩ hb
    | cons d' before' =>
      have hrest : ∀ {d : Proc.Deed Effects} {l}, ¬ Answered r (d :: l) → ¬ Answered r l :=
        fun h ⟨d, hd, ho⟩ => h ⟨d, List.mem_cons_of_mem _ hd, ho⟩
      exact ih (hrest hb) before' (hrest hb') (List.cons.inj hl').2

/-- Behind the hook there is nothing the handler could be dropped at. -/
theorem hook_finished_iff {body : Option r.Resp} {tail : Proc Effects Unit}
    (htail : ∀ l rest, tail.Reaches l rest → Suspended rest → rest = .done ())
    (h : ((hook body).run >>= fun _ => tail).Reaches l rest) (hsus : Suspended rest) :
    (∃ during later outcome, l = during ++ later ∧ (hook body).run.Reaches during (.done outcome)) ↔
      rest = .done () := by
  rcases Proc.reaches_bind h with ⟨p', hp', rfl⟩ | ⟨a, l₁, l₂, rfl, hl₁, hl₂⟩
  · rw [Proc.finished_iff hp']
    cases p' with
    | done a => exact iff_of_true ⟨a, rfl⟩ (htail [] _ (.here _) hsus)
    | ask o k => simp
  · exact iff_of_true ⟨l₁, l₂, a, rfl, hl₁⟩ (htail l₂ rest hl₂ hsus)

theorem hookDone_of_since {body : Option r.Resp} {after : List (Proc.Deed Effects)}
    (h : Since r l (.success body) after) :
    HookDone r hook l ↔ ∃ during later outcome, after = during ++ later ∧
      (hook body).run.Reaches during (.done outcome) := by
  constructor
  · rintro ⟨body', after', h', hdone⟩
    obtain ⟨hbody, rfl⟩ := h.unique h'
    cases hbody
    exact hdone
  · exact fun hdone => ⟨body, after, h, hdone⟩

theorem Since.answered {after : List (Proc.Deed Effects)} (h : Since r l answer after) :
    Answered r l := by
  obtain ⟨before, -, rfl⟩ := h
  exact ⟨⟨.forward r, answer⟩, by simp, rfl⟩

theorem HookDone.answered (h : HookDone r hook l) : Answered r l := by
  obtain ⟨body, after, hsince, -⟩ := h
  exact hsince.answered

/-- What surrounds the forwarding: nothing, or the engine lock. -/
inductive Around (r : Route) : List (Proc.Deed Effects) → Proc Effects Unit → Prop
  | nothing : r.locks = false → Around r [] (.done ())
  | lock : r.locks = true → Around r [⟨.lock, ()⟩] (@Proc.perform Effects .unlock)

theorem Around.not_answered {before : List (Proc.Deed Effects)} {tail : Proc Effects Unit}
    (h : Around r before tail) : ¬ Answered r before := by
  cases h <;> simp [Answered]

/-- The release of the lock is no place to be dropped at. -/
theorem Around.done {before : List (Proc.Deed Effects)} {tail : Proc Effects Unit}
    (h : Around r before tail) (hreach : tail.Reaches l rest) (hsus : Suspended rest) :
    rest = .done () := by
  cases h with
  | nothing => exact (Proc.reaches_done hreach).2
  | lock =>
    rcases Proc.reaches_ask hreach with ⟨rfl, rfl⟩ | ⟨u, l', rfl, h'⟩
    · cases hsus
    · exact (Proc.reaches_done h').2

/-- Where a handler is once its request has been sent: it waits for the answer, or it is
in what it does with the answer. -/
theorem Intercepted.reaches (hp : Intercepted cfg r hook p) (h : p.Reaches l rest)
    (hsent : Sent r l rest answer) :
    ∃ before tail, Around r before tail ∧
      ((l = before ∧ ∃ k, rest = .ask (.forward r) k) ∨
        ∃ after, l = before ++ ⟨.forward r, answer⟩ :: after ∧
          (proceed hook answer >>= fun _ => tail).Reaches after rest) := by
  -- what comes from the forwarding on, once the lock has been taken if there is one
  have hforward : ∀ {before tail l'}, Around r before tail → l = before ++ l' →
      (forwardThen r hook >>= fun _ => tail).Reaches l' rest →
      ∃ before tail, Around r before tail ∧
        ((l = before ∧ ∃ k, rest = .ask (.forward r) k) ∨
          ∃ after, l = before ++ ⟨.forward r, answer⟩ :: after ∧
            (proceed hook answer >>= fun _ => tail).Reaches after rest) := by
    intro before tail l' haround hl hreach
    have hask : (@Proc.ask Effects Unit (.forward r) fun answer =>
        proceed hook answer >>= fun _ => tail).Reaches l' rest := by
      rw [forwardThen_eq] at hreach
      exact hreach
    refine ⟨before, tail, haround, ?_⟩
    rcases Proc.reaches_ask hask with ⟨rfl, rfl⟩ | ⟨answer', after, rfl, hafter⟩
    · exact Or.inl ⟨by simpa using hl, _, rfl⟩
    · have hsince : Since r l answer' after := ⟨before, haround.not_answered, hl⟩
      rcases hsent with ⟨after', hsince'⟩ | ⟨hnot, -⟩
      · obtain ⟨rfl, rfl⟩ := hsince.unique hsince'
        exact Or.inr ⟨after, hl, hafter⟩
      · exact absurd hsince.answered hnot
  rcases hp.shape with ⟨hlocks, rfl⟩ | ⟨hlocks, rfl⟩
  · refine hforward (.nothing hlocks) rfl ?_
    rw [Proc.bind_done]
    exact h
  · rcases Proc.reaches_ask h with ⟨rfl, rfl⟩ | ⟨u, l', rfl, h'⟩
    · -- still waiting for the lock: nothing has been sent
      rcases hsent with ⟨after, hsince⟩ | ⟨-, k, hk⟩
      · simpa [Answered] using hsince.answered
      · cases hk
    · exact hforward (.lock hlocks) rfl h'

/-- The hook is done exactly if the handler has passed its last await. -/
theorem hookDone_iff (hp : Intercepted cfg r hook p) (h : p.Reaches l rest)
    (hsus : Suspended rest) (hsent : Sent r l rest answer) (hok : answer.isSuccess = true) :
    HookDone r hook l ↔ rest = .done () := by
  obtain ⟨before, tail, haround, ⟨rfl, k, rfl⟩ | ⟨after, rfl, hafter⟩⟩ := hp.reaches h hsent
  · refine iff_of_false (fun hdone => haround.not_answered hdone.answered) ?_
    simp
  · cases answer with
    | failed => cases hok
    | refused status body => cases hok
    | success body =>
      rw [hookDone_of_since ⟨before, haround.not_answered, rfl⟩]
      refine hook_finished_iff (fun l rest => haround.done) ?_ hsus
      simpa only [proceed, Proc.bind_assoc, Proc.done_bind] using hafter

/-- The lock is kept exactly if the handler has the answer. -/
theorem lockKept_iff (hp : Intercepted cfg r hook p) (h : p.Reaches l rest)
    (hsent : Sent r l rest answer) (hlocks : r.locks = true) : LockKept r l ↔ Answered r l := by
  obtain ⟨before, tail, haround, hl⟩ := hp.reaches h hsent
  cases haround with
  | nothing hno => simp [hlocks] at hno
  | lock =>
    rcases hl with ⟨rfl, -⟩ | ⟨after, rfl, -⟩
    · constructor
      · intro hkept
        exact hkept _ (.dropped ⟨_, List.mem_singleton_self _, rfl⟩ (by simp))
      · intro hans
        simp [Answered] at hans
    · refine iff_of_true (fun past hpast => ?_) ⟨⟨.forward r, answer⟩, by simp, rfl⟩
      cases hpast with
      | dropped => exact ⟨⟨.forward r, answer⟩, by simp, rfl⟩
      | @unlock past later d hsplit hd =>
        -- the first two deeds took the lock and got the answer
        cases past with
        | nil =>
          obtain ⟨rfl, -⟩ := List.cons.inj hsplit
          cases hd
        | cons a past =>
          obtain ⟨-, hsplit⟩ := List.cons.inj hsplit
          cases past with
          | nil =>
            obtain ⟨rfl, -⟩ := List.cons.inj hsplit
            cases hd
          | cons b past =>
            obtain ⟨rfl, -⟩ := List.cons.inj hsplit
            exact ⟨⟨.forward r, answer⟩, by simp, rfl⟩

theorem seenThrough_of_reaches (hp : Intercepted cfg r hook p) (h : p.Reaches l rest)
    (hsus : Suspended rest) (hsent : Sent r l rest answer) :
    SeenThrough r hook l answer ↔
      (answer.isSuccess = true → rest = .done ()) ∧ (r.locks = true → Answered r l) := by
  refine and_congr (forall_congr' fun hok => hookDone_iff hp h hsus hsent hok) ?_
  exact forall_congr' fun hlocks => lockKept_iff hp h hsent hlocks

/-! ## Runs -/

section Runs
open Pool
variable {c c' : Pool.Config Effects Host} {hist : List (Event Effects Host)} {i : ℕ}

/-- **Seeing a call through.**  Whatever the other tasks do, a call whose client leaves
after the request was sent is seen through if and only if the client stays until the
handler has passed its last await when the node answers 2xx, and, on the two routes that
hold the engine lock, until the handler has the answer. -/
theorem seenThrough_iff (hp : Intercepted cfg r hook p) (run : (system cfg).Run c hist c')
    (hstart : c.threads[i]? = some p) (hboot : ∀ e ∈ hist, e.label.isBoot = false)
    (hleft : c'.threads[i]? = some rest) (hsus : Suspended rest)
    (hsent : Sent r (deeds i hist) rest answer) :
    SeenThrough r hook (deeds i hist) answer ↔
      (answer.isSuccess = true → rest = .done ()) ∧
        (r.locks = true → Answered r (deeds i hist)) := by
  obtain ⟨q, hq, hreach⟩ := run.reaches hboot hstart
  obtain rfl := Option.some.inj (hq.symm.trans hleft)
  exact seenThrough_of_reaches hp hreach hsus hsent

/-- A request for an invoice, and the node's answer to it. -/
def invoiceRequest : Option InvoiceRequest := some ⟨some "A", false⟩

def invoiceAnswer : Forwarded Route.rgbinvoice.Resp := .success (some ⟨"r", "invoice", none, 7⟩)

/-- The first `n` operations of its handler, the node having answered. -/
def invoiceSteps (n : ℕ) : List (Move (system defaults)) :=
  List.replicate n (.act 0 (.of (.answering .rgbinvoice ⟨"r", "invoice", none, 7⟩)))

/-- The companion with that handler only. -/
def invoiceStart : Pool.Config Effects Host := ⟨Host.fresh, [rgbinvoice invoiceRequest]⟩

theorem invoice_admitted (n : ℕ) : Admitted (invoiceSteps n) := admitted_replicate trivial

theorem invoice_plays : ((system defaults).play (invoiceSteps 3) invoiceStart).isSome := rfl

/-- When the client stays the hook is done, and the row of the invoice is there. -/
theorem invoice_stays : ∃ hist c', (system defaults).Run invoiceStart hist c' ∧
    c'.shared.db.transfers.rows.length = 1 ∧
    SeenThrough .rgbinvoice (rgbinvoiceHook invoiceRequest) (deeds 0 hist) invoiceAnswer := by
  have run := run_of_isSome (invoice_admitted 3) invoice_plays
  have hall : ((((system defaults).play (invoiceSteps 3) invoiceStart).get invoice_plays).2.all
      fun e => e.label.isBoot = false) = true := rfl
  have hdone : Suspended (.done ()) := trivial
  refine ⟨_, _, run, rfl, (seenThrough_iff (.rgbinvoice _) run rfl ?_ rfl hdone
    (Or.inl ⟨_, [], ?_, rfl⟩)).mpr ⟨fun _ => rfl, nofun⟩⟩
  · intro e he
    simpa using List.all_eq_true.mp hall e he
  · simp [Answered]

theorem invoice_left_plays : ((system defaults).play (invoiceSteps 2) invoiceStart).isSome := rfl

/-- The client of `/failtransfers` leaves while the node works on the request; the lock
is free again, and a `/refreshtransfers` takes it and goes to the node as well. -/
def piledUp : List (Move (system defaults)) :=
  let w := World.of .silent
  [.act 0 w, .drift w, .start (syncPending defaults .refreshtransfers), .act 1 w]

def failStart : Pool.Config Effects Host := ⟨Host.fresh, [syncPending defaults .failtransfers]⟩

theorem piledUp_admitted : Admitted piledUp := by
  simp only [piledUp, Admitted, Move.Admitted, and_true, true_and]
  exact .refreshtransfers

theorem piledUp_plays : ((system defaults).play piledUp failStart).isSome := rfl

/-- A client may leave while the row of its invoice is being inserted: the node has issued
the invoice, and the mirror never hears of it.  A client may leave `/failtransfers` before
the node has answered: the lock is released, and two requests are at the node. -/
theorem client_leaves :
    (∃ hist c' rest, (system defaults).Run invoiceStart hist c' ∧ c'.threads[0]? = some rest ∧
      Suspended rest ∧ Sent .rgbinvoice (deeds 0 hist) rest invoiceAnswer ∧
      c'.shared.db.transfers.rows = [] ∧
      ¬ SeenThrough .rgbinvoice (rgbinvoiceHook invoiceRequest) (deeds 0 hist) invoiceAnswer) ∧
    ∃ hist c' rest k, (system defaults).Run failStart hist c' ∧ c'.threads[0]? = some rest ∧
      Suspended rest ∧ Sent .failtransfers (deeds 0 hist) rest .failed ∧
      c'.threads[1]? = some (.ask (.forward .refreshtransfers) k) ∧
      ¬ SeenThrough .failtransfers (fun _ => syncPendingHook defaults) (deeds 0 hist) .failed := by
  constructor
  · have run := run_of_isSome (invoice_admitted 2) invoice_left_plays
    have hall : ((((system defaults).play (invoiceSteps 2) invoiceStart).get
        invoice_left_plays).2.all fun e => e.label.isBoot = false) = true := rfl
    have hstart : invoiceStart.threads[0]? = some (rgbinvoice invoiceRequest) := rfl
    obtain ⟨rest, hrest, hreach⟩ := run.reaches (fun e he => by
      simpa using List.all_eq_true.mp hall e he) hstart
    obtain rfl := Option.some.inj hrest
    have hp : Intercepted defaults .rgbinvoice _ (rgbinvoice invoiceRequest) := .rgbinvoice _
    refine ⟨_, _, _, run, rfl, rfl, Or.inl ⟨_, [], by simp [Answered], rfl⟩, rfl, fun h => ?_⟩
    have hstay := (seenThrough_of_reaches hp hreach rfl
      (Or.inl ⟨_, [], by simp [Answered], rfl⟩)).mp h
    cases hstay.1 rfl
  · have run := run_of_isSome piledUp_admitted piledUp_plays
    have hall : ((((system defaults).play piledUp failStart).get piledUp_plays).2.all
        fun e => e.label.isBoot = false) = true := rfl
    have hstart : failStart.threads[0]? = some (syncPending defaults .failtransfers) := rfl
    obtain ⟨rest, hrest, hreach⟩ := run.reaches (fun e he => by
      simpa using List.all_eq_true.mp hall e he) hstart
    obtain rfl := Option.some.inj hrest
    have hunanswered : ¬ Answered .failtransfers [⟨.lock, ()⟩] := by simp [Answered]
    refine ⟨_, _, _, _, run, rfl, rfl, Or.inr ⟨hunanswered, _, rfl⟩, rfl, fun h => ?_⟩
    have hstay := (seenThrough_of_reaches .failtransfers hreach rfl
      (Or.inr ⟨hunanswered, _, rfl⟩)).mp h
    exact hunanswered (hstay.2 rfl)

end Runs
end Companion
