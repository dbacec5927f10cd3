import Companion.Mirror.PaymentPass

/-!
# The amounts of a pass

A listed amount is a `u64` and a column holds an `i64`.  An amount that does not fit
is an error of the upsert, and the loop of `syncPayments` gives up on its first
error, so one such entry keeps every later one, and the baseline, from being
written.  `syncPayments_complete_iff` says that nothing else does.

## Main definitions

* `AmountColumn` — one of the two amounts of a payment.
* `lastGiven` — what a listing says about the amount of one hash.
* `Db.Mirrors` — the row of a listed hash is what the listing makes of it.
-/

set_option autoImplicit false

namespace Companion
open Lib

/-- An amount of a payment, as it is listed and as it is stored: a listed amount
replaces the stored one, and a missing one leaves it. -/
structure AmountColumn where
  listed : RlnPayment → Option ℕ
  stored : Payment → Option ℕ
  merge : ∀ p baseline lastSeenAt r,
    stored ((p.observed baseline).merge lastSeenAt r) = (listed p).or (stored r)
  row : ∀ p baseline lastSeenAt now,
    stored ((p.observed baseline).row lastSeenAt now) = listed p
  advance : ∀ dst now r, stored (Payment.advance dst now r) = stored r

namespace AmountColumn

def assetAmount : AmountColumn where
  listed := RlnPayment.assetAmount
  stored := Payment.assetAmount
  merge _ _ _ _ := rfl
  row _ _ _ _ := rfl
  advance _ _ _ := rfl

def amtMsat : AmountColumn where
  listed := RlnPayment.amtMsat
  stored := Payment.amtMsat
  merge _ _ _ _ := rfl
  row _ _ _ _ := rfl
  advance _ _ _ := rfl

end AmountColumn

/-- The stored amount of the payment with this hash, when one is known. -/
def Db.amount (db : Db) (c : AmountColumn) (hash : String) : Option ℕ :=
  (db.payment? hash).bind c.stored

/-- The last amount a listing gives for one hash. -/
def lastGiven (listed : RlnPayment → Option ℕ) (hash : String) (ps : List RlnPayment) : Option ℕ :=
  ((ps.filter fun p => p.paymentHash = hash).filterMap listed).getLast?

@[simp] theorem lastGiven_nil (listed : RlnPayment → Option ℕ) (hash : String) :
    lastGiven listed hash [] = none := rfl

/-- What a listing makes of a known amount: its first entry first, and then the rest. -/
theorem lastGiven_cons (listed : RlnPayment → Option ℕ) (hash : String) (p : RlnPayment)
    (ps : List RlnPayment) (known : Option ℕ) :
    (lastGiven listed hash (p :: ps)).or known =
      (lastGiven listed hash ps).or
        (if p.paymentHash = hash then (listed p).or known else known) := by
  by_cases hhash : p.paymentHash = hash
  · have hfilter : (p :: ps).filter (fun q => q.paymentHash = hash) =
        p :: ps.filter fun q => q.paymentHash = hash := by simp [hhash]
    rw [lastGiven, hfilter, if_pos hhash]
    cases hgiven : listed p with
    | none => rw [List.filterMap_cons_none hgiven, Option.none_or, lastGiven]
    | some a =>
      rw [List.filterMap_cons_some hgiven, List.getLast?_cons, ← lastGiven]
      cases lastGiven listed hash ps <;> rfl
  · simp [lastGiven, hhash]

/-! ## One listed payment -/

/-- The upsert of a listed payment changes the amounts of its own hash. -/
theorem amount_upsertPayment {db db' : Db} {p : RlnPayment} {baseline : Bool}
    {lastSeenAt : Option ℤ} {now : ℤ} {row : Payment}
    (h : db.upsertPayment (p.observed baseline) lastSeenAt now = .ok (row, db'))
    (c : AmountColumn) (hash : String) :
    db'.amount c hash =
      if p.paymentHash = hash then (c.listed p).or (db.amount c hash) else db.amount c hash := by
  obtain ⟨-, hrow, hother, -, -⟩ := upsertPayment_view h
  by_cases hhash : p.paymentHash = hash
  · subst hhash
    have hrow' : db'.payment? p.paymentHash = some row := hrow
    rw [if_pos rfl, Db.amount, Db.amount, hrow', Option.bind_some]
    rcases Db.upsertPayment_ok h with ⟨T, -, ⟨r, hr, rfl, -⟩ | ⟨hnew, rfl, -⟩⟩
    · have hr' : db.payment? p.paymentHash = some r := hr
      rw [c.merge, hr', Option.bind_some]
    · have hnew' : db.payment? p.paymentHash = none := hnew
      rw [c.row, hnew', Option.bind_none, Option.or_none]
  · rw [if_neg hhash, Db.amount, Db.amount, hother hash (Ne.symm hhash)]

/-- A transition leaves every amount alone. -/
theorem amount_applyPaymentTransition {db db' : Db} {hash₀ : String} {src dst : PaymentStatus}
    {event : Option NewEvent} {now : ℤ} {b : Bool}
    (h : db.applyPaymentTransition hash₀ src dst event now = .ok (b, db'))
    (c : AmountColumn) (hash : String) : db'.amount c hash = db.amount c hash := by
  rcases Db.applyPaymentTransition_ok h with ⟨-, rfl⟩ | ⟨-, -, r, T, O, -, -, rfl, hT, -⟩
  · rfl
  · have hget : T.get? Payment.paymentHash hash = _ := Table.get?_replace hT (fun _ => rfl) hash
    rw [Db.amount, Db.amount, Db.payment?, hget]
    split
    · cases hr : db.payments.get? Payment.paymentHash hash with
      | none => simp [Db.payment?, hr]
      | some r => simp [Db.payment?, hr, c.advance]
    · rfl

theorem amount_applyPaymentObserved (env : Env) (h : Host) (row : Payment)
    (observed : PaymentStatus) (now : ℤ) (c : AmountColumn) (hash : String) :
    (exec env (applyPaymentObserved row observed now) h).2.db.amount c hash =
      h.db.amount c hash := by
  rw [applyPaymentObserved]
  cases planPaymentTransition row observed with
  | none => rfl
  | some tr =>
    have hexec : (exec env (do
        let eventId ← newUuid
        Fallible.mapErr SyncError.store (store (.applyPaymentTransition tr.paymentHash tr.src
          tr.dst (paymentTransitionEvent eventId row tr now) now))) h).2 =
        (h.draw.commit (h.db.applyPaymentTransition tr.paymentHash tr.src tr.dst
          (paymentTransitionEvent h.nextUuid row tr now) now)).2 := rfl
    rw [hexec]
    rcases hc : h.draw.commit (h.db.applyPaymentTransition tr.paymentHash tr.src tr.dst
      (paymentTransitionEvent h.nextUuid row tr now) now) with ⟨a, h'⟩
    rcases Host.commit_cases hc with rfl | ⟨b, db', hok, rfl⟩
    · rfl
    · exact amount_applyPaymentTransition hok c hash

/-- A listed payment changes the amounts of its own hash. -/
theorem amount_observePayment {env : Env} {h h' : Host} {p : RlnPayment} {baseline : Bool}
    {now : ℤ} {report out : PaymentSyncReport}
    (hok : exec env (observePayment baseline now report p) h = (.ok out, h'))
    (c : AmountColumn) (hash : String) :
    h'.db.amount c hash =
      if p.paymentHash = hash then (c.listed p).or (h.db.amount c hash)
      else h.db.amount c hash := by
  cases hup : h.db.upsertPayment (p.observed baseline) (some now) now with
  | error e =>
    have hcommit : exec env (Fallible.mapErr SyncError.store
        (upsertPaymentObserved (p.observed baseline) now)) h = (.error (.store e), h) :=
      exec_store_error SyncError.store (Host.commit_eq_error hup)
    have hfail := (Fallible.exec_bind_error _ hcommit).symm.trans hok
    cases congrArg Prod.fst hfail
  | ok out₁ =>
    obtain ⟨row, db₁⟩ := out₁
    have hcommit : exec env (Fallible.mapErr SyncError.store
        (upsertPaymentObserved (p.observed baseline) now)) h = (.ok row, { h with db := db₁ }) :=
      exec_store_ok SyncError.store (Host.commit_eq_ok hup)
    have hrest := (Fallible.exec_bind_ok _ hcommit).symm.trans hok
    rcases happly : exec env (applyPaymentObserved row p.status now) { h with db := db₁ } with
      ⟨e | moved, h₂⟩
    · have hfail := (Fallible.exec_bind_error _ happly).symm.trans hrest
      cases congrArg Prod.fst hfail
    · have hdone := (Fallible.exec_bind_ok _ happly).symm.trans hrest
      have hh₂ : h' = h₂ := by
        cases moved <;> exact (congrArg Prod.snd hdone).symm
      have hframe := amount_applyPaymentObserved env { h with db := db₁ } row p.status now c hash
      rw [happly] at hframe
      rw [hh₂, hframe]
      exact amount_upsertPayment hup c hash

/-! ## A whole listing -/

/-- A pass that returns has made every listed amount its own. -/
theorem amount_observePayments {env : Env} {baseline : Bool} {now : ℤ} (c : AmountColumn)
    (hash : String) (ps : List RlnPayment) {h h' : Host} {report out : PaymentSyncReport}
    (hok : exec env (observePayments baseline now ps report) h = (.ok out, h')) :
    h'.db.amount c hash = (lastGiven c.listed hash ps).or (h.db.amount c hash) := by
  induction ps generalizing h report with
  | nil =>
    have hh : h' = h := (congrArg Prod.snd hok).symm
    rw [hh, lastGiven_nil, Option.none_or]
  | cons p ps ih =>
    rcases hfirst : exec env (observePayment baseline now report p) h with ⟨e | report₁, h₁⟩
    · have hfail := (Fallible.exec_bind_error _ hfirst).symm.trans hok
      cases congrArg Prod.fst hfail
    · have hrest := (Fallible.exec_bind_ok _ hfirst).symm.trans hok
      rw [ih hrest, lastGiven_cons, amount_observePayment hfirst]

theorem amount_syncPayments {env : Env} {cfg : Config.Sync} {ps : List RlnPayment}
    (hlist : env.node (.listPayments cfg.pageSize) = .ok ps) {now : ℤ} {h h' : Host}
    {report : PaymentSyncReport}
    (hok : exec env (syncPayments cfg now) h = (.ok report, h')) (c : AmountColumn)
    (hash : String) :
    h'.db.amount c hash = (lastGiven c.listed hash ps).or (h.db.amount c hash) := by
  obtain ⟨h₁, hobs, hdone⟩ := observes_of_syncPayments hlist hok
  have hamount := amount_observePayments c hash ps hobs
  -- storing the baseline changes no payment
  rw [hdone]
  split <;> exact hamount

/-- What the pass over `ps` makes of `db` for a listed hash: a row with the amounts
last listed for it, or known before where none is listed, and with the status the
listed ones lead to. -/
def Db.Mirrors (db db' : Db) (ps : List RlnPayment) (hash : String) : Prop :=
  ∃ row, db'.payment? hash = some row ∧
    row.assetAmount = (lastGiven RlnPayment.assetAmount hash ps).or
      ((db.payment? hash).bind Payment.assetAmount) ∧
    row.amtMsat = (lastGiven RlnPayment.amtMsat hash ps).or
      ((db.payment? hash).bind Payment.amtMsat) ∧
    some row.status = ((statusesOf hash ps).foldl
      (PaymentView.observe db.nodeState.paymentsBaselineAt.isSome) (db.paymentView hash)).status

/-- A listed hash has a status after the pass. -/
theorem status_foldl_isSome {ps : List RlnPayment} {p : RlnPayment} (hp : p ∈ ps)
    (baseline : Bool) (v : PaymentView) :
    ((statusesOf p.paymentHash ps).foldl (PaymentView.observe baseline) v).status.isSome := by
  induction ps generalizing v with
  | nil => simp at hp
  | cons q ps ih =>
    have hkeep : ∀ (ss : List PaymentStatus) (v : PaymentView), v.status.isSome →
        (ss.foldl (PaymentView.observe baseline) v).status.isSome := by
      intro ss
      induction ss with
      | nil => exact fun _ hv => hv
      | cons s ss ihs => exact fun _ _ => ihs _ rfl
    rw [statusesOf_cons]
    rcases List.mem_cons.mp hp with rfl | hp
    · rw [if_pos rfl, List.foldl_cons]
      exact hkeep _ _ rfl
    · split
      · exact ih hp _
      · exact ih hp v

/-- **No payment is left out, unless an amount does not fit.**  When the node lists
`ps`, the pass goes through all of it, and leaves every listed hash its amounts and
its status, exactly when every listed amount fits its column. -/
theorem syncPayments_complete_iff {env : Env} {cfg : Config.Sync} {ps : List RlnPayment}
    (hlist : env.node (.listPayments cfg.pageSize) = .ok ps) (now : ℤ) (h : Host) :
    (∃ report h', exec env (syncPayments cfg now) h = (.ok report, h') ∧
        report.payments = ps.length ∧ ∀ p ∈ ps, h.db.Mirrors h'.db ps p.paymentHash) ↔
      ∀ p ∈ ps, FitsColumn p.assetAmount ∧ FitsColumn p.amtMsat := by
  constructor
  · rintro ⟨report, h', hok, -, -⟩
    exact fits_of_syncPayments hlist hok
  · intro hfit
    obtain ⟨n, h', hok, hview, -⟩ := exec_syncPayments hlist hfit now h
    refine ⟨_, h', hok, rfl, fun p hp => ?_⟩
    have hstatus := congrArg PaymentView.status (hview p.paymentHash)
    obtain ⟨s, hs⟩ := Option.isSome_iff_exists.mp
      (status_foldl_isSome hp h.db.nodeState.paymentsBaselineAt.isSome (h.db.paymentView _))
    rw [hs] at hstatus
    obtain ⟨row, hrow, hrs⟩ := Option.map_eq_some_iff.mp hstatus
    have hamount := fun c => amount_syncPayments hlist hok c p.paymentHash
    simp only [Db.amount, hrow, Option.bind_some] at hamount
    refine ⟨row, hrow, hamount .assetAmount, hamount .amtMsat, ?_⟩
    rw [hs, hrs]

/-- A payment to `hash`, still pending. -/
def pendingPayment (hash : String) (amtMsat : ℕ) : RlnPayment :=
  ⟨some amtMsat, none, none, hash, .outbound, .pending, "peer"⟩

/-- Two payments, the first of which has the given amount. -/
def twoPayments (amtMsat : ℕ) : List RlnPayment :=
  [pendingPayment "a" amtMsat, pendingPayment "b" 1]

/-- A node that lists them. -/
def twoPaymentsEnv (amtMsat : ℕ) : Env := .listing (.listPayments 100) (twoPayments amtMsat)

/-- The largest amount that fits is no obstacle. -/
theorem syncPayments_complete_largest :
    ∃ report h', exec (twoPaymentsEnv i64Max) (syncPayments {} 0) .fresh = (.ok report, h') ∧
      report.payments = 2 ∧ ∀ p ∈ twoPayments i64Max,
        Host.fresh.db.Mirrors h'.db (twoPayments i64Max) p.paymentHash :=
  (@syncPayments_complete_iff (twoPaymentsEnv i64Max) {} (twoPayments i64Max) rfl 0 .fresh).mpr
    (by decide)

/-- One more and the second payment has no row, however often the pass is repeated: each
pass ends at the first payment. -/
theorem oversized_blocks_rest :
    (twoPaymentsEnv (i64Max + 1)).node (.listPayments 100) = .ok (twoPayments (i64Max + 1)) ∧
      (exec (twoPaymentsEnv (i64Max + 1)) (syncPayments {} 0) .fresh).1 =
        .error (.store (.corrupt "amount out of range")) ∧
      (exec (twoPaymentsEnv (i64Max + 1)) (syncPayments {} 0) .fresh).2 = .fresh ∧
      pendingPayment "b" 1 ∈ twoPayments (i64Max + 1) ∧
      (exec (twoPaymentsEnv (i64Max + 1)) (syncPayments {} 0) .fresh).2.db.payment? "b" = none :=
  ⟨rfl, rfl, rfl, by decide, rfl⟩

end Companion
