import Companion.Runs.Payments
import Companion.Lib.Log

/-!
# Answers applied late

The payments poll and the hooks of `/keysend` and `/sendpayment` share no lock, and
each applies to a row what the node answered some time before.  Here the node is part
of the model: it answers what is so at that moment, and every row move rests on the
last answer of the thread that makes it.

A restart is not announced and a failure is.  So when a `Pending` from before a failure
restarts the row after it, or a `Failed` from before a restart closes the row after it,
one failure of the node is announced twice.  When neither happens, the restarts and
failures of a row follow the node's own, and every `payment.failed` has an entry of
the node into `Failed` or `Cancelled` to itself.

## Main definitions

* `Watched`, `watched` — the companion's payments beside the node's, and the pool.
* `turns`, `Fresh` — restarts and failures of a row, and that none of them is stale.
* `Watched.Inv`, `freshOutline` — what the tasks keep.
* `failed_le_entered` — the events against the node's entries, for every run.
-/

set_option autoImplicit false

namespace Companion
open Lib

/-! ## The node -/

/-- The statuses that the node's payments have entered. -/
abbrev NodeLog := Log String PaymentStatus

/-- How often the payment has entered `Failed` or `Cancelled` on the node. -/
def NodeLog.failures (log : NodeLog) (hash : String) : ℕ :=
  log.entered PaymentStatus.restartable hash

/-- A payment that the node does not have yet may enter any status, any other one
moves forward or restarts. -/
def NodeLog.Admits (log : NodeLog) (hash : String) (s : PaymentStatus) : Prop :=
  ∀ q ∈ log.current hash, PaymentMove q s

instance (log : NodeLog) (hash : String) : DecidablePred (log.Admits hash) := fun s => by
  unfold NodeLog.Admits; infer_instance

/-- What an answer says about payments. -/
def reported : (o : Op) → o.Res → List (String × PaymentStatus)
  | .node (.listPayments _), .ok ps =>
      List.map (fun p : RlnPayment => (p.paymentHash, p.status)) ps
  | .forward .keysend, .success (some resp) =>
      (PaymentResponse.paymentHash resp).toList.map fun hash => (hash, resp.status)
  | .forward .sendpayment, .success (some resp) =>
      (PaymentResponse.paymentHash resp).toList.map fun hash => (hash, resp.status)
  | _, _ => []

/-- The operation is answered by the node. -/
def Op.asksNode : Op → Bool
  | .node _ | .forward _ => true
  | _ => false

/-! ## The tasks -/

/-- The payments poll while the node is unlocked. -/
def poll (cfg : Config) : Proc Effects Unit := do
  let t ← now
  let _ ← (syncPayments cfg.sync t).run
  return ()

/-- The tasks that move payments. -/
inductive PaymentTask (cfg : Config) : Proc Effects Unit → Prop
  | poll : PaymentTask cfg (poll cfg)
  | keysend (req : Option KeysendRequest) : PaymentTask cfg (keysend req)
  | sendpayment (req : Option SendPaymentRequest) : PaymentTask cfg (sendpayment req)

/-! ## The companion beside the node -/

/-- The companion's host and the node's log, with two books kept beside them. -/
structure Watched where
  host : Host
  node : NodeLog
  /-- The node's log when it last answered the thread. -/
  seen : ℕ → NodeLog
  /-- The node's log in the answer on which the last restart or failure of the row rests. -/
  basis : String → NodeLog

/-- The payment that an operation is about to restart or fail: its row has still the
status from which the transition was planned. -/
def turns (db : Db) : Op → Option String
  | .store (.applyPaymentTransition hash src dst _ _) =>
      if db.paymentStatus? hash = some src ∧ (src.restartable || dst.restartable) then some hash
      else none
  | _ => none

/-- The payment that an operation has restarted or failed. -/
def turned : (o : Op) → o.Res → Option String
  | .store (.applyPaymentTransition hash src dst _ _), .ok true =>
      if src.restartable || dst.restartable then some hash else none
  | _, _ => none

/-- What an operation of thread `i` leaves. -/
def Watched.after (s : Watched) (i : ℕ) (o : Op) (r : o.Res) (host : Host) : Watched where
  host := host
  node := s.node
  seen j := if o.asksNode ∧ j = i then s.node else s.seen j
  basis hash := if turned o r = some hash then s.seen i else s.basis hash

/-- What the environment decides in one step. -/
inductive NodeChoice
  | perform (w : World)
  /-- A payment of the node enters a status. -/
  | enter (hash : String) (s : PaymentStatus)

/-- The tasks that move payments, beside a node that answers what is so. -/
def watched (cfg : Config) : Pool Effects Watched where
  Choice := NodeChoice
  perform
    | .perform w, i, o, s =>
        (w.perform o s.host).bind fun (r, host) =>
          if ∀ m ∈ reported o r, s.node.current m.1 = some m.2 then some (r, s.after i o r host)
          else none
    | .enter _ _, _, _, _ => none
  drift
    | .enter hash st, s =>
        if s.node.Admits hash st then some { s with node := (hash, st) :: s.node } else none
    | .perform _, _ => none
  reset s := { s with host := s.host.release }
  boots ps := ps = []
  starts := PaymentTask cfg

/-- A companion that has never run, beside a node without payments. -/
def unwatched : Pool.Config Effects Watched := ⟨⟨.fresh, [], fun _ => [], fun _ => []⟩, []⟩

/-- No row is restarted or failed on an answer older than the one on which its last
restart or failure rests. -/
def Fresh (e : Pool.Event Effects Watched) : Prop :=
  match e.label with
  | .act i o _ => ∀ hash ∈ turns e.pre.host.db o, e.pre.basis hash <:+ e.pre.seen i
  | _ => True

/-! ## The events of a row against the node's entries -/

/-- The number of `payment.failed` events of a payment. -/
def Db.failedEvents (db : Db) (hash : String) : ℕ :=
  (db.paymentEvents hash).count PaymentEventType.failed.asStr

/-- The failures announced are the node's own, up to the answer `basis`; and a row that
is open rests on an answer that did not show the last of them. -/
structure Accounts (db : Db) (hash : String) (basis : NodeLog) : Prop where
  counted : db.failedEvents hash ≤ basis.failures hash
  reopened : (∀ r, db.payment? hash = some r → r.status.terminal = false) →
    db.failedEvents hash = 0 ∨ ∀ q, basis.current hash = some q → q.restartable = false

theorem Accounts.kept {h h' : Host} {hash : String} {basis : NodeLog}
    (ha : Accounts h.db hash basis)
    (hs : paymentKept.Step (paymentAccount hash h) (paymentAccount hash h')) :
    Accounts h'.db hash basis := by
  generalize hacc : paymentAccount hash h = a at hs
  generalize hacc' : paymentAccount hash h' = a' at hs
  have hrec : h.db.payment? hash = a.record := by rw [← hacc]; rfl
  have hrec' : h'.db.payment? hash = a'.record := by rw [← hacc']; rfl
  have hev : h.db.paymentEvents hash = a.events := by rw [← hacc]; rfl
  have hev' : h'.db.paymentEvents hash = a'.events := by rw [← hacc']; rfl
  rcases ha with ⟨hcounted, hreopened⟩
  rw [Db.failedEvents, hev] at hcounted hreopened
  rw [hrec] at hreopened
  suffices hsuff : a'.events = a.events ∧
      ∀ r, a.record = some r → ∃ r', a'.record = some r' ∧ r'.status = r.status by
    refine ⟨by rw [Db.failedEvents, hev', hsuff.1]; exact hcounted, fun hopen => ?_⟩
    rw [Db.failedEvents, hev', hsuff.1]
    refine hreopened fun r hr => ?_
    rcases hsuff.2 r hr with ⟨r', hr', hst⟩
    rw [← hst]
    exact hopen r' (hrec'.trans hr')
  cases hs with
  | stay => exact ⟨rfl, fun r hr => ⟨r, hr, rfl⟩⟩
  | born _ => exact ⟨rfl, fun r hr => nomatch hr⟩
  | change hc =>
      refine ⟨by rw [hc.2, List.append_nil], fun r hr => ⟨_, rfl, ?_⟩⟩
      cases hr
      exact hc.1

theorem count_failed_paymentOut (src dst : PaymentStatus) :
    (paymentOut src dst).count PaymentEventType.failed.asStr =
      if !src.terminal && dst.restartable then 1 else 0 := by
  cases src <;> cases dst <;> decide

/-- A transition that rests on the answer `seen`, no older than `basis` if it restarts
or fails the row. -/
theorem Accounts.applied {db db' : Db} {hash : String} {basis seen : NodeLog}
    {src dst : PaymentStatus} {r r' : Payment} (ha : Accounts db hash basis)
    (hr : db.payment? hash = some r) (hsrc : r.status = src)
    (hr' : db'.payment? hash = some r') (hdst : r'.status = dst)
    (hev : db'.paymentEvents hash = db.paymentEvents hash ++ paymentOut src dst)
    (hmove : PaymentMove src dst) (hseen : seen.current hash = some dst)
    (hle : (src.restartable || dst.restartable) = true → basis <:+ seen) :
    Accounts db' hash (if src.restartable || dst.restartable then seen else basis) := by
  have hcount : db'.failedEvents hash =
      db.failedEvents hash + if !src.terminal && dst.restartable then 1 else 0 := by
    rw [Db.failedEvents, hev, List.count_append, count_failed_paymentOut, Db.failedEvents]
  rcases hmove with ⟨hre, rfl⟩ | ⟨hopen, hrank⟩
  · -- a restart: nothing is announced, and the row rests on a `Pending`
    have hle' := hle (by rw [hre]; rfl)
    rw [if_pos (by rw [hre]; rfl)]
    have hsame : db'.failedEvents hash = db.failedEvents hash := by
      rw [hcount, terminal_of_restartable hre]
      rfl
    refine ⟨?_, fun _ => Or.inr fun q hq => ?_⟩
    · rw [hsame]
      exact ha.counted.trans (Log.entered_le hle')
    · rw [hseen] at hq
      cases hq
      rfl
  have hnore : src.restartable = false := by
    cases hs : src.restartable with
    | false => rfl
    | true => rw [terminal_of_restartable hs] at hopen; cases hopen
  have hrow : ∀ a, db.payment? hash = some a → a.status.terminal = false := by
    intro a ha'
    rw [hr] at ha'
    cases ha'
    rw [hsrc]
    exact hopen
  cases hre : dst.restartable with
  | false =>
      -- a step forward announces no failure and rests on what it rested on
      rw [hnore, Bool.or_false, if_neg Bool.false_ne_true]
      have hsame : db'.failedEvents hash = db.failedEvents hash := by
        rw [hcount, hre, Bool.and_false]
        rfl
      refine ⟨by rw [hsame]; exact ha.counted, fun _ => ?_⟩
      rw [hsame]
      exact ha.reopened hrow
  | true =>
      -- a failure: the node has entered one that no earlier event announced
      rw [hnore, Bool.or_true, if_pos rfl]
      have hone : db'.failedEvents hash = db.failedEvents hash + 1 := by
        rw [hcount, hopen, hre]
        rfl
      have hbasis := hle (by rw [hre, Bool.or_true])
      constructor
      · rw [hone]
        obtain hzero | hout := ha.reopened hrow
        · rw [hzero]
          exact Log.entered_pos hseen hre
        · have hlt : basis.failures hash < seen.failures hash :=
            Log.entered_lt hbasis hout hseen hre
          exact lt_of_le_of_lt ha.counted hlt
      · intro hall
        have hfalse := hall r' hr'
        rw [hdst, terminal_of_restartable hre] at hfalse
        cases hfalse

/-! ## What the tasks keep -/

/-- What holds in every state of a run without stale restarts or failures. -/
structure Watched.Inv (s : Watched) : Prop where
  seen : ∀ i, s.seen i <:+ s.node
  basis : ∀ hash, s.basis hash <:+ s.node
  accounts : ∀ hash, Accounts s.host.db hash (s.basis hash)

/-- A transition that thread `i` applies is what the node answered to it. -/
def Op.Rests (seen : NodeLog) : Op → Prop
  | .store (.applyPaymentTransition hash _ dst _ _) => seen.current hash = some dst
  | _ => True

/-- A planned operation that rests on the answer of the thread and is not stale. -/
structure Guarded (s : Watched) (i : ℕ) (o : Op) : Prop where
  background : o.Background
  rests : o.Rests (s.seen i)
  fresh : ∀ hash ∈ turns s.host.db o, s.basis hash <:+ s.seen i

section Steps
variable {cfg : Config} {c : NodeChoice} {i : ℕ} {o : Op} {s s' : Watched} {r : o.Res}

/-- An operation is one of the host, answered with what is so on the node. -/
theorem watched_perform (hp : (watched cfg).perform c i o s = some (r, s')) :
    ∃ w host, World.perform w o s.host = some (r, host) ∧
      (∀ m ∈ reported o r, s.node.current m.1 = some m.2) ∧ s' = s.after i o r host := by
  cases c with
  | enter hash st => cases hp
  | perform w =>
      rcases Option.bind_eq_some_iff.mp hp with ⟨⟨r₁, host⟩, hw, hif⟩
      simp only [Option.ite_none_right_eq_some, Option.some.injEq] at hif
      rcases hif with ⟨hrep, heq⟩
      cases heq
      exact ⟨w, host, hw, hrep, rfl⟩

theorem seen_after {host : Host} (hi : s.Inv) (j : ℕ) :
    (s.after i o r host).seen j <:+ s.node := by
  change (if o.asksNode ∧ j = i then s.node else s.seen j) <:+ s.node
  split
  · exact List.suffix_refl _
  · exact hi.seen j

theorem seen_after_of_ne {host : Host} {j : ℕ} (hj : j ≠ i) :
    (s.after i o r host).seen j = s.seen j :=
  if_neg fun h => hj h.2

theorem basis_after {host : Host} (hi : s.Inv) (hash : String) :
    (s.after i o r host).basis hash <:+ s.node := by
  change (if turned o r = some hash then s.seen i else s.basis hash) <:+ s.node
  split
  · exact hi.seen i
  · exact hi.basis hash

/-- An operation that applies no transition keeps every account. -/
theorem accounts_kept {host : Host} (hi : s.Inv) (hb : o.Background)
    (hne : ∀ k src dst event now, o ≠ .store (.applyPaymentTransition k src dst event now))
    {w : World} (hw : w.perform o s.host = some (r, host)) (hash : String) :
    Accounts host.db hash (s.basis hash) := by
  by_cases ho : ∃ q, o = .store q
  · rcases ho with ⟨q, rfl⟩
    rcases perform_store hw with ⟨-, rfl⟩ | hq
    · exact hi.accounts hash
    · exact (hi.accounts hash).kept (payment_kept (Or.inl hb)
        (fun k src dst event now hk => hne k src dst event now (congrArg Op.store hk)) hq)
  · have hdb : host.db = s.host.db := db_perform hw fun q hq => ho ⟨q, hq⟩
    rw [hdb]
    exact hi.accounts hash

/-- A transition that rests on the answer of its thread and is not stale keeps every
account. -/
theorem accounts_applied {host : Host} {k : String} {src dst : PaymentStatus}
    {event : Option NewEvent} {now : ℤ} {r : Except StoreError Bool} (hi : s.Inv)
    (hg : Guarded s i (.store (.applyPaymentTransition k src dst event now)))
    {w : World} (hw : w.perform (.store (.applyPaymentTransition k src dst event now)) s.host =
      some (r, host)) (hash : String) :
    Accounts host.db hash
      ((s.after i (.store (.applyPaymentTransition k src dst event now)) r host).basis hash) := by
  change Accounts host.db hash (if turned (.store (.applyPaymentTransition k src dst event now)) r =
    some hash then s.seen i else s.basis hash)
  rcases perform_store hw with ⟨rfl, rfl⟩ | hq
  · exact hi.accounts hash
  rcases hdb : s.host.db.applyPaymentTransition k src dst event now with e | ⟨b, db'⟩
  · simp only [StoreOp.perform, hdb, Host.commit] at hq
    cases hq
    exact hi.accounts hash
  simp only [StoreOp.perform, hdb, Host.commit] at hq
  cases hq
  rcases Db.applyPaymentTransition_ok hdb with
    ⟨rfl, rfl⟩ | ⟨rfl, -, row, T, O, hrow, hsrc, rfl, hT, hO⟩
  · exact hi.accounts hash
  have hplan : PlannedPayment k src dst event := hg.background
  let db' : Db := { s.host.db with payments := T, webhookOutbox := O }
  have hev := @Db.paymentEvents_plannedPayment s.host.db db' event now k src dst hplan hO hash
  have hget := Table.get?_replace hT (fun _ => rfl) hash
  by_cases hk : hash = k
  · subst hk
    rw [if_pos rfl] at hev hget
    have hle : (src.restartable || dst.restartable) = true →
        s.basis hash <:+ s.seen i := by
      intro hturn
      refine hg.fresh hash ?_
      have hstatus : s.host.db.paymentStatus? hash = some src := by
        rw [Db.paymentStatus?, hrow, Option.map_some, hsrc]
      rw [turns, if_pos ⟨hstatus, hturn⟩]
      rfl
    have hrow' : db'.payment? hash = some (Payment.advance dst now row) :=
      hget.trans (congrArg _ hrow)
    have hdst : (Payment.advance dst now row).status = dst := rfl
    have happ := (hi.accounts hash).applied hrow hsrc hrow' hdst hev (move_of_planned hplan)
      hg.rests hle
    cases hturn : src.restartable || dst.restartable with
    | false =>
        rw [hturn] at happ
        simpa [turned, hturn] using happ
    | true =>
        rw [hturn] at happ
        simpa [turned, hturn] using happ
  · rw [if_neg hk] at hev hget
    have hturn : turned (.store (.applyPaymentTransition k src dst event now)) (.ok true) ≠
        some hash := by
      simp [turned, Ne.symm hk]
    have hsame : paymentAccount hash { s.host with db := db' } = paymentAccount hash s.host := by
      rw [paymentAccount, paymentAccount, Db.payment?, Db.payment?, hget, hev, List.append_nil]
    rw [if_neg hturn]
    refine (hi.accounts hash).kept ?_
    rw [hsame]
    exact .stay _

/-- Every guarded operation keeps what the tasks keep. -/
theorem inv_step (hi : s.Inv) (hg : Guarded s i o)
    (hp : (watched cfg).perform c i o s = some (r, s')) : s'.Inv := by
  rcases watched_perform hp with ⟨w, host, hw, -, rfl⟩
  refine ⟨seen_after hi, basis_after hi, fun hash => ?_⟩
  by_cases hne : ∀ k src dst event now, o ≠ .store (.applyPaymentTransition k src dst event now)
  · have hnone : turned o r ≠ some hash := by
      cases o with
      | store q =>
          cases q with
          | applyPaymentTransition k src dst event now => exact absurd rfl (hne k src dst event now)
          | _ => exact nofun
      | _ => exact nofun
    change Accounts host.db hash (if turned o r = some hash then s.seen i else s.basis hash)
    rw [if_neg hnone]
    exact accounts_kept hi hg.background hne hw hash
  · simp only [ne_eq, not_forall, not_not] at hne
    rcases hne with ⟨k, src, dst, event, now, rfl⟩
    exact accounts_applied hi hg hw hash

end Steps

/-- The outline: a thread relies on nobody else changing what it has seen. -/
def freshOutline (cfg : Config) : Pool.Outline (watched cfg) where
  cond := Fresh
  inv := Watched.Inv
  rely i s s' := s'.seen i = s.seen i
  guar i s o _ _ := Guarded s i o
  rely_refl _ _ := rfl
  rely_trans _ _ _ _ h₁ h₂ := h₂.trans h₁
  act_ok := by
    intro c i s o r s' hi hp hg
    refine ⟨inv_step hi hg hp, fun j hj => ?_⟩
    rcases watched_perform hp with ⟨w, host, -, -, rfl⟩
    exact seen_after_of_ne hj
  drift_ok := by
    intro c s s' hi hd _
    cases c with
    | perform w => cases hd
    | enter hash st =>
        simp only [watched, Option.ite_none_right_eq_some, Option.some.injEq] at hd
        rcases hd with ⟨-, rfl⟩
        have hgrow : ∀ {log : NodeLog}, log <:+ s.node → log <:+ (hash, st) :: s.node :=
          fun h => h.trans (List.suffix_cons _ _)
        exact ⟨⟨fun i => hgrow (hi.seen i), fun h => hgrow (hi.basis h), hi.accounts⟩,
          fun _ => rfl⟩
  reset_ok := fun hi => ⟨hi.seen, hi.basis, hi.accounts⟩

/-! ## The tasks keep it -/

section Programs
open Pool.Outline
variable {cfg : Config} {i : ℕ} {s₀ : Watched}

/-- An operation that the node does not answer, on what the thread has seen. -/
theorem yields_unasked {o : Op} {A : o.Res → Prop} (hask : o.asksNode = false)
    (hb : o.Background) (hrests : o.Rests (s₀.seen i))
    (hA : ∀ w h r h', World.perform w o h = some (r, h') → A r) :
    (freshOutline cfg).Yields i s₀ (@Lib.Proc.perform Effects o) A := by
  refine yields_perform fun c s r s' hrely _ hp hc => ?_
  have hseen : s.seen i = s₀.seen i := hrely
  rcases watched_perform hp with ⟨w, host, hw, -, rfl⟩
  have hafter : (s.after i o r host).seen i = s.seen i := if_neg (by simp [hask])
  exact ⟨⟨hb, by rw [hseen]; exact hrests, hc⟩, hafter.trans hseen, hA w _ _ _ hw⟩

/-- After an operation that the node answers, the thread has seen what the answer says. -/
theorem wp_asked {o : Op} {R : o.Res → Watched → Prop} {s : Watched} (hask : o.asksNode = true)
    (hb : o.Background) (hrests : ∀ log, o.Rests log)
    (hR : ∀ r s₁, (∀ m ∈ reported o r, (s₁.seen i).current m.1 = some m.2) → R r s₁) :
    (freshOutline cfg).wp i (@Lib.Proc.perform Effects o) R s := by
  refine wp_perform fun s₁ _ _ c r s₂ hp hc => ?_
  rcases watched_perform hp with ⟨w, host, -, hreported, rfl⟩
  refine ⟨⟨hb, hrests _, hc⟩, fun s₃ hrely _ => hR r s₃ fun m hm => ?_⟩
  have hseen : s₃.seen i = s₁.node := by
    rw [show s₃.seen i = (s₁.after i o r host).seen i from hrely]
    exact if_pos ⟨hask, rfl⟩
  rw [hseen]
  exact hreported m hm

theorem returns_applyPaymentObserved {row : Payment} {observed : PaymentStatus}
    (hseen : (s₀.seen i).current row.paymentHash = some observed) (now : ℤ) :
    (freshOutline cfg).Returns i s₀ (applyPaymentObserved row observed now) fun _ => True := by
  rw [applyPaymentObserved]
  cases hplan : planPaymentTransition row observed with
  | none => exact returns_pure trivial
  | some tr =>
      rcases planPaymentTransition_eq_some hplan with ⟨hhash, -, hdst, -⟩
      refine returns_bind (A := fun _ => True) (returns_lift (yields_unasked rfl trivial trivial
        fun _ _ _ _ _ => trivial)) fun eventId _ => ?_
      refine returns_mapErr (yields_unasked rfl (plannedPayment_of_plan hplan eventId now) ?_
        fun _ _ _ _ _ _ _ => trivial)
      change (s₀.seen i).current tr.paymentHash = some tr.dst
      rw [hhash, hdst]
      exact hseen

/-- The row an upsert returns is the payment's. -/
theorem returns_upsertPayment (p : NewPayment) (lastSeenAt : Option ℤ) (now : ℤ) :
    (freshOutline cfg).Returns i s₀ (store (.upsertPayment p lastSeenAt now))
      fun row => Payment.paymentHash row = p.paymentHash := by
  refine yields_unasked rfl trivial trivial fun w h r h' hp row hrow => ?_
  subst hrow
  rcases perform_store hp with ⟨herr, -⟩ | hq
  · cases herr
  rcases Host.commit_ok hq with ⟨db', hok, -⟩
  rcases Db.upsertPayment_ok hok with ⟨T, -, ⟨r, hr, rfl, -⟩ | ⟨-, rfl, -⟩⟩
  · exact (Db.payment?_eq_some.mp hr).2
  · rfl

theorem returns_observePayment {p : RlnPayment}
    (hseen : (s₀.seen i).current p.paymentHash = some p.status) (baseline : Bool) (now : ℤ)
    (report : PaymentSyncReport) :
    (freshOutline cfg).Returns i s₀ (observePayment baseline now report p) fun _ => True := by
  refine returns_bind (returns_mapErr (returns_upsertPayment _ _ _)) fun row hrow => ?_
  have hrow' : Payment.paymentHash row = p.paymentHash := hrow
  rw [← hrow'] at hseen
  refine returns_bind (returns_applyPaymentObserved hseen now) fun moved _ => ?_
  cases moved <;> exact returns_pure trivial

theorem returns_observePayments {ps : List RlnPayment}
    (hseen : ∀ p ∈ ps, (s₀.seen i).current p.paymentHash = some p.status) (baseline : Bool)
    (now : ℤ) (report : PaymentSyncReport) :
    (freshOutline cfg).Returns i s₀ (observePayments baseline now ps report) fun _ => True := by
  induction ps generalizing report with
  | nil => exact returns_pure trivial
  | cons p ps ih =>
      refine returns_bind (returns_observePayment (hseen p List.mem_cons_self) baseline now report)
        fun report' _ => ?_
      exact ih (fun q hq => hseen q (List.mem_cons_of_mem _ hq)) report'

theorem returns_recordOutboundPayment {resp : PaymentResponse}
    (hseen : ∀ hash ∈ resp.paymentHash, (s₀.seen i).current hash = some resp.status)
    (assetId : Option String) (assetAmount amtMsat : Option ℕ) (payeePubkey : Option String) :
    (freshOutline cfg).Returns i s₀
      (recordOutboundPayment resp assetId assetAmount amtMsat payeePubkey) fun _ => True := by
  rw [recordOutboundPayment]
  split
  · exact returns_pure trivial
  · next hash hhash =>
    refine returns_bind (A := fun _ => True) (returns_lift (yields_unasked rfl trivial trivial
      fun _ _ _ _ _ => trivial)) fun t _ => ?_
    refine returns_bind (returns_mapErr (returns_upsertPayment _ _ _)) fun row hrow => ?_
    have hcur : (s₀.seen i).current (Payment.paymentHash row) = some resp.status := by
      rw [hrow]
      exact hseen hash hhash
    exact returns_bind (returns_mapErr (returns_applyPaymentObserved hcur t))
      fun _ _ => returns_pure trivial

theorem yields_setNodeState (state : NodeState) :
    (freshOutline cfg).Returns i s₀ (setNodeState state) fun _ => True := by
  refine returns_bind (A := fun _ => True) (returns_mapErr (yields_unasked rfl trivial trivial
    fun _ _ _ _ _ _ _ => trivial)) fun _ _ => ?_
  refine returns_bind (A := fun _ => True) (returns_lift (yields_unasked rfl trivial trivial
    fun _ _ _ _ _ => trivial)) fun _ _ => ?_
  exact returns_mapErr (yields_unasked rfl trivial trivial fun _ _ _ _ _ _ _ => trivial)

theorem yields_refused (status : ℕ) (body : Option RlnErrorBody) :
    (freshOutline cfg).Yields i s₀ (noteLocked status body) fun _ => True := by
  rw [noteLocked]
  split
  · exact yields_done trivial
  · exact yields_bind (yields_setNodeState _) fun _ _ => yields_done trivial

/-- What is left of a pass over the payments once the node has listed them. -/
theorem returns_listed {ps : List RlnPayment}
    (hseen : ∀ p ∈ ps, (s₀.seen i).current p.paymentHash = some p.status) (now : ℤ) :
    (freshOutline cfg).Returns i s₀ (do
      let baseline ← Fallible.mapErr SyncError.store (store .paymentsBaselineAt)
      let report ← observePayments (Option.isSome baseline) now ps {}
      if Option.isNone baseline then
        Fallible.mapErr .store (store (.setPaymentsBaselineAt now))
      return report) fun _ => True := by
  refine returns_bind (A := fun _ => True) (returns_mapErr (yields_unasked rfl trivial trivial
    fun _ _ _ _ _ _ _ => trivial)) fun baseline _ => ?_
  refine returns_bind (returns_observePayments hseen _ now {}) fun report _ => ?_
  cases baseline with
  | some t => exact returns_pure trivial
  | none =>
      exact returns_bind (A := fun _ => True) (returns_mapErr (yields_unasked rfl trivial trivial
        fun _ _ _ _ _ _ _ => trivial)) fun _ _ => returns_pure trivial

theorem wp_poll (s : Watched) : (freshOutline cfg).wp i (poll cfg) (fun _ _ => True) s := by
  refine wp_bind (wp_mono (wp_of_yields (yields_unasked (A := fun _ => True) rfl trivial trivial
    fun _ _ _ _ _ => trivial)) fun t s' _ _ => ?_)
  refine wp_bind (wp_bindE (wp_bind (wp_asked rfl trivial (fun _ => trivial)
    fun answer s₁ hanswer => ?_)))
  intro s₂ hrely _
  cases answer with
  | error e => exact fun _ _ _ _ _ _ => trivial
  | ok ps =>
      have hseen : s₂.seen i = s₁.seen i := hrely
      refine wp_mono (wp_of_yields (returns_listed (fun p hp => ?_) t))
        fun _ _ _ _ _ _ _ => trivial
      rw [hseen]
      exact hanswer _ (List.mem_map_of_mem hp)

/-- A request for a payment, whose hook mirrors what the node answered. -/
theorem wp_forwardThen {r : Route} {f : Option r.Resp → Prog HookError Unit} (s : Watched)
    (hf : ∀ body s₁, (∀ m ∈ reported (.forward r) (.success body),
        (s₁.seen i).current m.1 = some m.2) →
      (freshOutline cfg).Returns i s₁ (f body) fun _ => True) :
    (freshOutline cfg).wp i (forwardThen r f) (fun _ _ => True) s := by
  refine wp_bind (wp_asked rfl trivial (fun _ => trivial) fun answer s₁ hanswer => ?_)
  cases answer with
  | failed => exact wp_of_yields (yields_done trivial)
  | refused status body => exact wp_of_yields (yields_refused status body)
  | success body =>
      exact wp_of_yields (yields_bind (hf body s₁ hanswer) fun _ _ => yields_done trivial)

theorem returns_parseReq {α : Type} (o : Option α) :
    (freshOutline cfg).Returns i s₀ (parseReq o) fun _ => True := by
  cases o with
  | none => exact returns_throw
  | some a => exact returns_pure trivial

theorem returns_parseResp {α : Type} (o : Option α) :
    (freshOutline cfg).Returns i s₀ (parseResp o) fun a => o = some a := by
  cases o with
  | none => exact returns_throw
  | some a => exact returns_pure rfl

theorem wp_keysend (req : Option KeysendRequest) (s : Watched) :
    (freshOutline cfg).wp i (keysend req) (fun _ _ => True) s := by
  refine wp_forwardThen s fun body s₁ hseen => ?_
  refine returns_bind (returns_parseReq req) fun req _ => ?_
  refine returns_bind (returns_parseResp body) fun resp hresp => ?_
  subst hresp
  refine returns_recordOutboundPayment (fun hash hhash => ?_) _ _ _ _
  exact hseen (hash, resp.status) (by simpa [reported] using hhash)

theorem wp_sendpayment (req : Option SendPaymentRequest) (s : Watched) :
    (freshOutline cfg).wp i (sendpayment req) (fun _ _ => True) s := by
  refine wp_forwardThen s fun body s₁ hseen => ?_
  refine returns_bind (returns_parseReq req) fun req _ => ?_
  refine returns_bind (returns_parseResp body) fun resp hresp => ?_
  subst hresp
  refine returns_recordOutboundPayment (fun hash hhash => ?_) _ _ _ _
  exact hseen (hash, resp.status) (by simpa [reported] using hhash)

end Programs

/-! ## Runs -/

/-- **No failure is announced twice.**  In a run in which no row is restarted or failed on
an answer older than the one its last restart or failure rests on, a payment has at most
as many `payment.failed` events as it has failed on the node. -/
theorem failed_le_entered {cfg : Config} {hist : List (Pool.Event Effects Watched)}
    {c : Pool.Config Effects Watched} (run : (watched cfg).Run unwatched hist c)
    (hfresh : ∀ e ∈ hist, Fresh e) (hash : String) :
    c.shared.host.db.failedEvents hash ≤ c.shared.node.failures hash := by
  have hinv : unwatched.shared.Inv :=
    ⟨fun _ => List.suffix_refl _, fun _ => List.suffix_refl _,
      fun _ => ⟨Nat.zero_le _, fun _ => Or.inl rfl⟩⟩
  have hsound := Pool.Outline.sound_of_programs (O := freshOutline cfg) run ?_ ?_ hinv rfl hfresh
  · have hend : c.shared.Inv := hsound.1
    exact (hend.accounts hash).counted.trans (Log.entered_le (hend.basis hash))
  · rintro ps rfl p hp
    cases hp
  · rintro p hp i s
    cases hp with
    | poll => exact wp_poll s
    | keysend req => exact wp_keysend req s
    | sendpayment req => exact wp_sendpayment req s

instance : DecidablePred Fresh := fun e => by
  unfold Fresh
  cases e.label <;> infer_instance

def keysendRequest : KeysendRequest := ⟨"peer", 1000, none, none⟩

/-- A hook from its request to its end: the node answers `status`. -/
def keysendTo (cfg : Config) (i moves : ℕ) (status : PaymentStatus) :
    List (Pool.Move (watched cfg)) :=
  .start (keysend (some keysendRequest)) ::
    List.replicate moves (.act i (.perform (.of (.answering .keysend ⟨some "h", status⟩))))

/-- A pass of the poll that finds these payments. -/
def polled (cfg : Config) (i moves : ℕ) (ps : List RlnPayment) : List (Pool.Move (watched cfg)) :=
  .start (poll cfg) ::
    List.replicate moves (.act i (.perform (.of (.listing (.listPayments 100) ps))))

/-- A payment that fails, is retried, and fails again, each answer applied at once. -/
def failedTwice (cfg : Config) : List (Pool.Move (watched cfg)) :=
  .drift (.enter "h" .pending) :: keysendTo cfg 0 3 .pending ++
    .drift (.enter "h" .failed) :: keysendTo cfg 1 5 .failed ++
      .drift (.enter "h" .pending) :: keysendTo cfg 2 5 .pending ++
        .drift (.enter "h" .failed) :: keysendTo cfg 3 5 .failed

/-- A payment that fails once.  A hook was answered `Pending` before that and applies it
after a poll has mirrored the failure. -/
def failedOnce (cfg : Config) : List (Pool.Move (watched cfg)) :=
  let failed : RlnPayment := ⟨some 1000, none, none, "h", .outbound, .failed, "peer"⟩
  polled cfg 0 4 [] ++ .drift (.enter "h" .pending) :: keysendTo cfg 1 1 .pending ++
    .drift (.enter "h" .failed) :: polled cfg 2 6 [failed] ++
      List.replicate 4 (.act 1 (.perform (.of .silent))) ++ polled cfg 3 6 [failed]

theorem keysendTo_admitted (cfg : Config) (i moves : ℕ) (status : PaymentStatus) :
    Pool.Admitted (keysendTo cfg i moves status) :=
  ⟨.keysend _, Pool.admitted_replicate trivial⟩

theorem polled_admitted (cfg : Config) (i moves : ℕ) (ps : List RlnPayment) :
    Pool.Admitted (polled cfg i moves ps) :=
  ⟨.poll, Pool.admitted_replicate trivial⟩

theorem failedTwice_admitted (cfg : Config) : Pool.Admitted (failedTwice cfg) := by
  simp [failedTwice, Pool.admitted_append, Pool.Admitted, Pool.Move.Admitted, keysendTo_admitted]

theorem failedTwice_plays :
    ((watched ⟨⟨none⟩, {}, {}, {}⟩).play (failedTwice _) unwatched).isSome := rfl

/-- Both failures of the node are announced. -/
theorem failed_le_entered_twice :
    ∃ hist c, (watched ⟨⟨none⟩, {}, {}, {}⟩).Run unwatched hist c ∧
      c.shared.host.db.failedEvents "h" = 2 ∧
      c.shared.host.db.failedEvents "h" ≤ c.shared.node.failures "h" :=
  have run := Pool.run_of_isSome (failedTwice_admitted _) failedTwice_plays
  ⟨_, _, run, by decide +kernel, failed_le_entered run (by decide +kernel) "h"⟩

theorem failedOnce_admitted (cfg : Config) : Pool.Admitted (failedOnce cfg) := by
  simp [failedOnce, Pool.admitted_append, Pool.Admitted, Pool.Move.Admitted, keysendTo_admitted,
    polled_admitted]

theorem failedOnce_plays :
    ((watched ⟨⟨none⟩, {}, {}, {}⟩).play (failedOnce _) unwatched).isSome := rfl

/-- The stale `Pending` restarts the row, and the next poll announces the failure again. -/
theorem failed_announced_twice :
    ∃ hist c, (watched ⟨⟨none⟩, {}, {}, {}⟩).Run unwatched hist c ∧
      c.shared.host.db.failedEvents "h" = 2 ∧ c.shared.node.failures "h" = 1 :=
  have run := Pool.run_of_isSome (failedOnce_admitted _) failedOnce_plays
  ⟨_, _, run, by decide +kernel, by decide +kernel⟩

end Companion
