import Companion.Announce

/-!
# One pass over the payments

A pass applies the entries of one listing in order, and all entries under one hash
go to the same row.  Seen from one hash the pass is therefore a fold of the listed
statuses over what is stored, whatever the other entries are; `view_observePayments`
says so, and the results about passes are about that fold.  A pass that meets an
amount the database cannot hold stops there and keeps what it has done.

## Main definitions

* `PaymentView` — the status and the events of one payment.
* `PaymentStatus.next`, `PaymentView.observe` — what one listed status does to it.
* `statusesOf` — what a listing says about one hash.
-/

set_option autoImplicit false

namespace Companion
open Lib

/-! ## The fold -/

/-- The status of a stored payment after `observed` has been seen. -/
def PaymentStatus.next (stored observed : PaymentStatus) : PaymentStatus :=
  if PaymentMove stored observed then observed else stored

/-- What is announced when `observed` is seen. -/
def PaymentStatus.out (stored observed : PaymentStatus) : List String :=
  if PaymentMove stored observed then paymentOut stored observed else []

/-- The status, once there is a row, and the events of one payment. -/
@[ext] structure PaymentView where
  status : Option PaymentStatus
  events : List String
  deriving DecidableEq, Repr

/-- The stored status a listed one is applied to: the row's, or that of the new row. -/
def PaymentView.stored (baseline : Bool) (v : PaymentView) (observed : PaymentStatus) :
    PaymentStatus :=
  v.status.getD (insertStatus baseline observed)

/-- What observing one listed status makes of a payment. -/
def PaymentView.observe (baseline : Bool) (v : PaymentView) (observed : PaymentStatus) :
    PaymentView where
  status := some ((v.stored baseline observed).next observed)
  events := v.events ++ (v.stored baseline observed).out observed

def Db.paymentView (db : Db) (hash : String) : PaymentView :=
  ⟨db.paymentStatus? hash, db.paymentEvents hash⟩

/-- The statuses a listing gives for one hash, in order. -/
def statusesOf (hash : String) (ps : List RlnPayment) : List PaymentStatus :=
  (ps.filter fun p => p.paymentHash = hash).map RlnPayment.status

@[simp] theorem statusesOf_nil (hash : String) : statusesOf hash [] = [] := rfl

theorem statusesOf_cons (hash : String) (p : RlnPayment) (ps : List RlnPayment) :
    statusesOf hash (p :: ps) =
      if p.paymentHash = hash then p.status :: statusesOf hash ps else statusesOf hash ps := by
  by_cases h : p.paymentHash = hash <;> simp [statusesOf, h]

/-- The amounts of a listed payment fit their columns. -/
def RlnPayment.Fits (p : RlnPayment) : Prop := FitsColumn p.assetAmount ∧ FitsColumn p.amtMsat

instance : DecidablePred RlnPayment.Fits := fun p =>
  inferInstanceAs (Decidable (FitsColumn p.assetAmount ∧ FitsColumn p.amtMsat))

/-! ## One listed payment -/

/-- What the upsert of a listed payment leaves. -/
theorem upsertPayment_view {db db' : Db} {p : NewPayment} {lastSeenAt : Option ℤ} {now : ℤ}
    {row : Payment} (h : db.upsertPayment p lastSeenAt now = .ok (row, db')) :
    row.status = (db.paymentStatus? p.paymentHash).getD p.status ∧
      db'.payment? p.paymentHash = some row ∧
      (∀ hash, hash ≠ p.paymentHash → db'.payment? hash = db.payment? hash) ∧
      db'.webhookOutbox = db.webhookOutbox ∧ db'.nodeState = db.nodeState := by
  rcases Db.upsertPayment_ok h with ⟨T, rfl, ⟨r, hr, rfl, hT⟩ | ⟨hnew, rfl, hT⟩⟩
  · have hget : ∀ hash, T.get? Payment.paymentHash hash = _ :=
      Table.get?_replace hT fun _ => rfl
    refine ⟨by simp [Db.paymentStatus?, hr, NewPayment.merge], ?_, fun hash hne => ?_, rfl, rfl⟩
    · exact Table.get?_replace_self hT (fun _ => rfl) hr
    · rw [Db.payment?, hget, if_neg hne]
      rfl
  · have hget : ∀ hash, T.get? Payment.paymentHash hash = _ := Table.get?_append hT
    refine ⟨by simp [Db.paymentStatus?, hnew, NewPayment.row], ?_, fun hash hne => ?_, rfl, rfl⟩
    · have hhash : (p.row lastSeenAt now).paymentHash = p.paymentHash := rfl
      rw [Db.payment?, hget, if_pos hhash]
      exact congrArg (fun o => Option.or o _) hnew
    · have hhash : (p.row lastSeenAt now).paymentHash ≠ hash := Ne.symm hne
      rw [Db.payment?, hget, if_neg hhash, Option.or_none]
      rfl

theorem not_move_self (s : PaymentStatus) : ¬ PaymentMove s s := by
  cases s <;> decide

/-- What a planned move of the row as it stands leaves in the database. -/
theorem applyPaymentTransition_view {db db' : Db} {row : Payment} {dst : PaymentStatus}
    {eventId : ℕ} {now : ℤ} (hm : PaymentMove row.status dst)
    (hrow : db.payment? row.paymentHash = some row)
    (hok : db.applyPaymentTransition row.paymentHash row.status dst
      (paymentTransitionEvent eventId row (row.transition dst) now) now = .ok (true, db')) :
    db'.paymentStatus? row.paymentHash = some dst ∧
      (∀ hash, hash ≠ row.paymentHash → db'.paymentStatus? hash = db.paymentStatus? hash) ∧
      (∀ hash, db'.paymentEvents hash = db.paymentEvents hash ++
        if hash = row.paymentHash then paymentOut row.status dst else []) ∧
      db'.nodeState = db.nodeState := by
  rcases Db.applyPaymentTransition_ok hok with ⟨hf, -⟩ | ⟨-, -, r, T, O, hr, -, rfl, hT, hO⟩
  · cases hf
  have hget : ∀ hash, T.get? Payment.paymentHash hash = _ := Table.get?_replace hT fun _ => rfl
  have hplanned : PlannedPayment row.paymentHash row.status dst
      (paymentTransitionEvent eventId row (row.transition dst) now) := by
    rcases hm with ⟨hre, rfl⟩ | ⟨hterm, hrank⟩
    · refine Or.inl ⟨hre, rfl, ?_⟩
      simp [paymentTransitionEvent, Payment.transition, terminal_of_restartable hre]
    · exact Or.inr ⟨hterm, hrank, eventId, row, now, rfl, by simp [Payment.transition, hterm]⟩
  refine ⟨?_, fun hash hne => ?_, Db.paymentEvents_plannedPayment hplanned hO, rfl⟩
  · rw [Db.paymentStatus?, Db.payment?]
    exact congrArg (Option.map Payment.status) (Table.get?_replace_self hT (fun _ => rfl) hrow)
  · rw [Db.paymentStatus?, Db.payment?, hget, if_neg hne]
    rfl

/-- What applying an observed status to the row just read leaves, when no one has
been in between. -/
theorem exec_applyPaymentObserved (env : Env) {h : Host} {row : Payment}
    (hrow : h.db.payment? row.paymentHash = some row) (observed : PaymentStatus) (now : ℤ) :
    ∃ h', exec env (applyPaymentObserved row observed now) h =
        (.ok (decide (PaymentMove row.status observed)), h') ∧
      h'.db.paymentStatus? row.paymentHash = some (row.status.next observed) ∧
      (∀ hash, hash ≠ row.paymentHash → h'.db.paymentStatus? hash = h.db.paymentStatus? hash) ∧
      (∀ hash, h'.db.paymentEvents hash = h.db.paymentEvents hash ++
        if hash = row.paymentHash then row.status.out observed else []) ∧
      (¬ PaymentMove row.status observed → h' = h) ∧ h'.db.nodeState = h.db.nodeState := by
  rw [applyPaymentObserved, planPaymentTransition_eq]
  by_cases hm : PaymentMove row.status observed
  · rw [if_pos hm]
    have hne : row.status ≠ observed := fun heq => not_move_self observed (heq ▸ hm)
    -- the identifier drawn for the event is new, so the insert goes through
    have hnew : ∀ e, paymentTransitionEvent h.nextUuid row (row.transition observed) now =
        some e → ∀ r ∈ h.db.webhookOutbox.rows, r.id ≠ e.id := by
      intro e he r hr
      rcases Option.map_eq_some_iff.mp he with ⟨t, -, rfl⟩
      exact Nat.ne_of_lt (Host.outbox_lt_nextUuid hr)
    rcases Db.applyPaymentTransition_isOk hrow hne hnew now with ⟨db', hok⟩
    rcases applyPaymentTransition_view hm hrow hok with ⟨hstatus, hother, hevents, hnode⟩
    refine ⟨{ h.draw with db := db' }, ?_, ?_, hother, ?_, fun h => absurd hm h, hnode⟩
    · have hq : (StoreOp.applyPaymentTransition row.paymentHash row.status observed
          (paymentTransitionEvent h.nextUuid row (row.transition observed) now) now).perform
            h.draw = (.ok true, { h.draw with db := db' }) := Host.commit_eq_ok hok
      rw [decide_eq_true hm]
      exact exec_store_ok SyncError.store hq
    · rw [PaymentStatus.next, if_pos hm]
      exact hstatus
    · intro hash
      rw [PaymentStatus.out, if_pos hm]
      exact hevents hash
  · rw [if_neg hm]
    refine ⟨h, by simp [hm], ?_, fun _ _ => rfl, fun hash => ?_, fun _ => rfl, rfl⟩
    · simp [Db.paymentStatus?, hrow, PaymentStatus.next, hm]
    · simp [PaymentStatus.out, hm]

/-- A listed payment whose amounts fit is applied. -/
theorem exec_observePayment (env : Env) (h : Host) {p : RlnPayment} (hfit : p.Fits)
    (baseline : Bool) (now : ℤ) (report : PaymentSyncReport) :
    ∃ h', exec env (observePayment baseline now report p) h =
        (.ok ⟨report.payments + 1, report.transitions +
          if PaymentMove ((h.db.paymentView p.paymentHash).stored baseline p.status) p.status
          then 1 else 0⟩, h') ∧
      (∀ hash, h'.db.paymentView hash =
        if hash = p.paymentHash then (h.db.paymentView hash).observe baseline p.status
        else h.db.paymentView hash) ∧
      (¬ PaymentMove ((h.db.paymentView p.paymentHash).stored baseline p.status) p.status →
        h'.db.webhookOutbox = h.db.webhookOutbox) ∧
      h'.db.nodeState = h.db.nodeState := by
  have hcommits : ∃ row db', h.db.upsertPayment (p.observed baseline) (some now) now =
      .ok (row, db') := Db.upsertPayment_isOk hfit.1 hfit.2 (some now) now
  rcases hcommits with ⟨row, db₁, hup⟩
  rcases upsertPayment_view hup with ⟨hstatus, hrow, hother, houtbox, hnode⟩
  have hhash : row.paymentHash = p.paymentHash := (Db.payment?_eq_some.mp hrow).2
  rw [show (p.observed baseline).paymentHash = row.paymentHash from hhash.symm] at hrow hother
  have hstored : row.status = (h.db.paymentView p.paymentHash).stored baseline p.status := hstatus
  rcases exec_applyPaymentObserved env (h := { h with db := db₁ }) hrow p.status now with
    ⟨h₂, hexec, hst₂, hother₂, hev₂, hkept₂, hnode₂⟩
  have hup' : exec env (Fallible.mapErr SyncError.store
      (upsertPaymentObserved (p.observed baseline) now)) h = (.ok row, { h with db := db₁ }) :=
    exec_store_ok SyncError.store (Host.commit_eq_ok hup)
  refine ⟨h₂, ?_, fun hash => ?_, fun hm => ?_, hnode₂.trans hnode⟩
  · refine (Fallible.exec_bind_ok _ hup').trans ((Fallible.exec_bind_ok _ hexec).trans ?_)
    rw [← hstored]
    by_cases hm : PaymentMove row.status p.status <;> simp [hm]
  · have hev₁ : db₁.paymentEvents hash = h.db.paymentEvents hash :=
      Db.paymentEvents_of_outbox houtbox hash
    by_cases heq : hash = p.paymentHash
    · rw [if_pos heq]
      subst heq
      ext1
      · have hst := hst₂
        rw [hhash, hstored] at hst
        exact hst
      · have hev := hev₂ p.paymentHash
        rw [if_pos hhash.symm, hstored] at hev
        exact hev.trans (by rw [hev₁]; rfl)
    · rw [if_neg heq]
      have hne : hash ≠ row.paymentHash := hhash ▸ heq
      ext1
      · refine (hother₂ hash hne).trans ?_
        rw [Db.paymentStatus?, hother hash hne]
        rfl
      · have hev := hev₂ hash
        rw [if_neg hne, List.append_nil] at hev
        exact hev.trans hev₁
  · rw [← hstored] at hm
    rw [hkept₂ hm]
    exact houtbox

/-- A listed payment whose amounts do not fit fails the pass. -/
theorem exec_observePayment_error (env : Env) (h : Host) {p : RlnPayment} (hfit : ¬ p.Fits)
    (baseline : Bool) (now : ℤ) (report : PaymentSyncReport) :
    ∃ e, exec env (observePayment baseline now report p) h = (.error e, h) := by
  cases hup : h.db.upsertPayment (p.observed baseline) (some now) now with
  | ok out => exact absurd (Db.fits_of_upsertPayment hup) hfit
  | error e =>
      have hup' : exec env (Fallible.mapErr SyncError.store
          (upsertPaymentObserved (p.observed baseline) now)) h = (.error (.store e), h) :=
        exec_store_error SyncError.store (Host.commit_eq_error hup)
      exact ⟨.store e, Fallible.exec_bind_error _ hup'⟩

/-! ## A whole listing -/

/-- No status of the list moves the payment. -/
def PaymentView.Still (baseline : Bool) : PaymentView → List PaymentStatus → Prop
  | _, [] => True
  | v, s :: ss => ¬ PaymentMove (v.stored baseline s) s ∧ Still baseline (v.observe baseline s) ss

theorem foldl_statusesOf_cons (baseline : Bool) (hash : String) (p : RlnPayment)
    (ps : List RlnPayment) (v : PaymentView) :
    (statusesOf hash (p :: ps)).foldl (PaymentView.observe baseline) v =
      (statusesOf hash ps).foldl (PaymentView.observe baseline)
        (if hash = p.paymentHash then v.observe baseline p.status else v) := by
  rw [statusesOf_cons]
  by_cases heq : hash = p.paymentHash
  · rw [if_pos heq, if_pos heq.symm, List.foldl_cons]
  · rw [if_neg heq, if_neg (Ne.symm heq)]

/-- A listing moves nothing if its first entry does not and the rest, seen after it, does
not. -/
theorem still_statusesOf_cons (baseline : Bool) (p : RlnPayment) (ps : List RlnPayment)
    (v : String → PaymentView) :
    (∀ hash, (v hash).Still baseline (statusesOf hash (p :: ps))) ↔
      ¬ PaymentMove ((v p.paymentHash).stored baseline p.status) p.status ∧
        ∀ hash, (if hash = p.paymentHash then (v hash).observe baseline p.status
          else v hash).Still baseline (statusesOf hash ps) := by
  constructor
  · intro hall
    have hp := hall p.paymentHash
    rw [statusesOf_cons, if_pos rfl] at hp
    refine ⟨hp.1, fun hash => ?_⟩
    by_cases heq : hash = p.paymentHash
    · subst heq
      rw [if_pos rfl]
      exact hp.2
    · have hother := hall hash
      rw [statusesOf_cons, if_neg (Ne.symm heq)] at hother
      rw [if_neg heq]
      exact hother
  · rintro ⟨hmove, hrest⟩ hash
    have hrest' := hrest hash
    rw [statusesOf_cons]
    by_cases heq : hash = p.paymentHash
    · subst heq
      rw [if_pos rfl] at hrest' ⊢
      exact ⟨hmove, hrest'⟩
    · rw [if_neg heq] at hrest'
      rw [if_neg (Ne.symm heq)]
      exact hrest'

/-- A pass whose amounts fit is, for each hash, the fold of its statuses; it counts
no transition exactly when nothing moves. -/
theorem exec_observePayments (env : Env) (baseline : Bool) (now : ℤ) (ps : List RlnPayment)
    (hfit : ∀ p ∈ ps, p.Fits) (h : Host) (report : PaymentSyncReport) :
    ∃ n h', exec env (observePayments baseline now ps report) h =
        (.ok ⟨report.payments + ps.length, report.transitions + n⟩, h') ∧
      (∀ hash, h'.db.paymentView hash =
        (statusesOf hash ps).foldl (PaymentView.observe baseline) (h.db.paymentView hash)) ∧
      (n = 0 ↔ ∀ hash, (h.db.paymentView hash).Still baseline (statusesOf hash ps)) ∧
      (n = 0 → h'.db.webhookOutbox = h.db.webhookOutbox) ∧
      h'.db.nodeState = h.db.nodeState := by
  induction ps generalizing h report with
  | nil =>
      refine ⟨0, h, rfl, fun hash => rfl, ?_, fun _ => rfl, rfl⟩
      simp [PaymentView.Still]
  | cons p ps ih =>
      rcases exec_observePayment env h (hfit p (by simp)) baseline now report with
        ⟨h₁, hexec₁, hview₁, hout₁, hnode₁⟩
      rcases ih (fun q hq => hfit q (List.mem_cons_of_mem _ hq)) h₁
        ⟨report.payments + 1, report.transitions +
          if PaymentMove ((h.db.paymentView p.paymentHash).stored baseline p.status) p.status
          then 1 else 0⟩ with ⟨n, h₂, hexec₂, hview₂, hstill₂, hout₂, hnode₂⟩
      refine ⟨(if PaymentMove ((h.db.paymentView p.paymentHash).stored baseline p.status) p.status
        then 1 else 0) + n, h₂, ?_, fun hash => ?_, ?_, fun hzero => ?_, hnode₂.trans hnode₁⟩
      · refine (Fallible.exec_bind_ok _ hexec₁).trans (hexec₂.trans ?_)
        rw [List.length_cons, Nat.add_assoc, Nat.add_assoc, Nat.add_comm 1]
      · rw [hview₂, hview₁, foldl_statusesOf_cons]
      · have hone : (if PaymentMove ((h.db.paymentView p.paymentHash).stored baseline p.status)
            p.status then 1 else 0) = 0 ↔
              ¬ PaymentMove ((h.db.paymentView p.paymentHash).stored baseline p.status)
                p.status := by simp
        rw [Nat.add_eq_zero_iff, hone, hstill₂, still_statusesOf_cons]
        simp only [hview₁]
      · rcases Nat.add_eq_zero_iff.mp hzero with ⟨hmove, hn⟩
        exact (hout₂ hn).trans (hout₁ (by simpa using hmove))

/-- Whether it returns or stops, a pass is for each hash the fold of what it got to. -/
theorem view_observePayments (env : Env) (baseline : Bool) (now : ℤ) (ps : List RlnPayment)
    (h : Host) (report : PaymentSyncReport) :
    ∃ r h', exec env (observePayments baseline now ps report) h = (r, h') ∧
      (∀ hash, h'.db.paymentView hash = (statusesOf hash (ps.takeWhile fun p => p.Fits)).foldl
        (PaymentView.observe baseline) (h.db.paymentView hash)) ∧
      h'.db.nodeState = h.db.nodeState := by
  induction ps generalizing h report with
  | nil => exact ⟨_, h, rfl, fun _ => rfl, rfl⟩
  | cons p ps ih =>
      by_cases hfit : p.Fits
      · rcases exec_observePayment env h hfit baseline now report with
          ⟨h₁, hexec₁, hview₁, -, hnode₁⟩
        rcases ih h₁ _ with ⟨r, h₂, hexec₂, hview₂, hnode₂⟩
        refine ⟨r, h₂, (Fallible.exec_bind_ok _ hexec₁).trans hexec₂, fun hash => ?_,
          hnode₂.trans hnode₁⟩
        rw [List.takeWhile_cons_of_pos (by simpa using hfit), hview₂, hview₁,
          foldl_statusesOf_cons]
      · rcases exec_observePayment_error env h hfit baseline now report with ⟨e, hexec⟩
        refine ⟨_, h, Fallible.exec_bind_error _ hexec, fun hash => ?_, rfl⟩
        rw [List.takeWhile_cons_of_neg (by simpa using hfit)]
        rfl

/-- A pass that returns has only seen amounts that fit. -/
theorem fits_of_observePayments (env : Env) (baseline : Bool) (now : ℤ) (ps : List RlnPayment)
    (h : Host) (report : PaymentSyncReport) {out : PaymentSyncReport} {h' : Host}
    (hok : exec env (observePayments baseline now ps report) h = (.ok out, h')) :
    ∀ p ∈ ps, p.Fits := by
  induction ps generalizing h report with
  | nil => simp
  | cons p ps ih =>
      by_cases hfit : p.Fits
      · rcases exec_observePayment env h hfit baseline now report with ⟨h₁, hexec₁, -⟩
        have hrest := (Fallible.exec_bind_ok _ hexec₁).symm.trans hok
        intro q hq
        rcases List.mem_cons.mp hq with rfl | hq
        · exact hfit
        · exact ih _ _ hrest q hq
      · rcases exec_observePayment_error env h hfit baseline now report with ⟨e, hexec⟩
        have hfail := (Fallible.exec_bind_error _ hexec).symm.trans hok
        cases congrArg Prod.fst hfail

/-! ## The pass -/

/-- A pass that gets its listing observes it, and stores the baseline if there is none. -/
theorem exec_syncPayments_listed {env : Env} {cfg : Config.Sync} {ps : List RlnPayment}
    (hlist : env.node (.listPayments cfg.pageSize) = .ok ps) (now : ℤ) (h : Host) :
    exec env (syncPayments cfg now) h = exec env (do
      let report ← observePayments h.db.nodeState.paymentsBaselineAt.isSome now ps {}
      if h.db.nodeState.paymentsBaselineAt.isNone then
        Fallible.mapErr .store (store (.setPaymentsBaselineAt now))
      return report : Prog SyncError PaymentSyncReport) h := by
  have hnode := exec_node_ok SyncError.rln hlist h
  have hbase : exec env (Fallible.mapErr SyncError.store (store .paymentsBaselineAt)) h =
      (.ok h.db.nodeState.paymentsBaselineAt, h) := rfl
  exact (Fallible.exec_bind_ok _ hnode).trans (Fallible.exec_bind_ok _ hbase)

/-- A pass that returns has gone through its listing, and changes no more than the
baseline after it. -/
theorem observes_of_syncPayments {env : Env} {cfg : Config.Sync} {ps : List RlnPayment}
    (hlist : env.node (.listPayments cfg.pageSize) = .ok ps) {now : ℤ} {h h' : Host}
    {report : PaymentSyncReport}
    (hok : exec env (syncPayments cfg now) h = (.ok report, h')) :
    ∃ h₁, exec env (observePayments h.db.nodeState.paymentsBaselineAt.isSome now ps {}) h =
        (.ok report, h₁) ∧
      h' = match h.db.nodeState.paymentsBaselineAt with
        | some _ => h₁
        | none => { h₁ with db := h₁.db.setPaymentsBaselineAt now } := by
  rw [exec_syncPayments_listed hlist] at hok
  obtain ⟨out, h₁, hobs, hrest⟩ := (Fallible.exec_bind_eq_ok _).mp hok
  cases hb : h.db.nodeState.paymentsBaselineAt with
  | some t =>
    rw [hb] at hrest hobs
    cases hrest
    exact ⟨_, hobs, rfl⟩
  | none =>
    rw [hb] at hrest hobs
    cases hrest
    exact ⟨_, hobs, rfl⟩

/-- `syncPayments` over a listing whose amounts fit. -/
theorem exec_syncPayments {env : Env} {cfg : Config.Sync} {ps : List RlnPayment}
    (hlist : env.node (.listPayments cfg.pageSize) = .ok ps) (hfit : ∀ p ∈ ps, p.Fits)
    (now : ℤ) (h : Host) :
    ∃ n h', exec env (syncPayments cfg now) h = (.ok ⟨ps.length, n⟩, h') ∧
      (∀ hash, h'.db.paymentView hash = (statusesOf hash ps).foldl
        (PaymentView.observe h.db.nodeState.paymentsBaselineAt.isSome) (h.db.paymentView hash)) ∧
      (n = 0 ↔ ∀ hash, (h.db.paymentView hash).Still h.db.nodeState.paymentsBaselineAt.isSome
        (statusesOf hash ps)) ∧
      (n = 0 → h'.db.webhookOutbox = h.db.webhookOutbox) ∧
      h'.db.nodeState.paymentsBaselineAt.isSome = true := by
  rcases exec_observePayments env h.db.nodeState.paymentsBaselineAt.isSome now ps hfit h {} with
    ⟨n, h₁, hexec, hview, hstill, hout, hnode⟩
  have hstart : exec env (syncPayments cfg now) h = _ :=
    (exec_syncPayments_listed hlist now h).trans (Fallible.exec_bind_ok _ hexec)
  simp only [Nat.zero_add] at hstart
  cases hb : h.db.nodeState.paymentsBaselineAt with
  | some t =>
      rw [hb] at hstart hview hstill
      exact ⟨n, h₁, hstart, hview, hstill, hout, by rw [hnode, hb]; rfl⟩
  | none =>
      rw [hb] at hstart hview hstill
      -- the first pass stores the baseline, which no payment depends on
      exact ⟨n, { h₁ with db := h₁.db.setPaymentsBaselineAt now }, hstart, hview, hstill, hout, rfl⟩

/-- What a pass gets to see of one hash. -/
def Env.seen (env : Env) (cfg : Config.Sync) (hash : String) : List PaymentStatus :=
  match env.node (.listPayments cfg.pageSize) with
  | .ok ps => statusesOf hash (ps.takeWhile fun p => p.Fits)
  | .error _ => []

/-- After the baseline every pass, returning or not, folds what it sees. -/
theorem view_syncPayments (env : Env) (cfg : Config.Sync) (now : ℤ) {h : Host}
    (hbaseline : h.db.nodeState.paymentsBaselineAt.isSome = true) :
    (∀ hash, (exec env (syncPayments cfg now) h).2.db.paymentView hash =
        (env.seen cfg hash).foldl (PaymentView.observe true) (h.db.paymentView hash)) ∧
      (exec env (syncPayments cfg now) h).2.db.nodeState = h.db.nodeState := by
  rcases Option.isSome_iff_exists.mp hbaseline with ⟨t, hb⟩
  cases hlist : env.node (.listPayments cfg.pageSize) with
  | error e =>
      have hexec : exec env (syncPayments cfg now) h = (.error (.rln e), h) :=
        Fallible.exec_bind_error _ (exec_node_error SyncError.rln hlist h)
      rw [hexec]
      exact ⟨fun hash => by rw [Env.seen, hlist]; rfl, rfl⟩
  | ok ps =>
      rcases view_observePayments env true now ps h {} with ⟨r, h', hexec, hview, hkept⟩
      have hpass : exec env (syncPayments cfg now) h = (r, h') := by
        rw [exec_syncPayments_listed hlist, hb]
        cases r with
        | ok report => exact Fallible.exec_bind_ok _ hexec
        | error e => exact Fallible.exec_bind_error _ hexec
      rw [hpass]
      exact ⟨fun hash => by rw [Env.seen, hlist]; exact hview hash, hkept⟩

/-- A pass that returns has only seen amounts that fit. -/
theorem fits_of_syncPayments {env : Env} {cfg : Config.Sync} {ps : List RlnPayment}
    (hlist : env.node (.listPayments cfg.pageSize) = .ok ps) {now : ℤ} {h h' : Host}
    {report : PaymentSyncReport}
    (hok : exec env (syncPayments cfg now) h = (.ok report, h')) : ∀ p ∈ ps, p.Fits := by
  obtain ⟨h₁, hobs, -⟩ := observes_of_syncPayments hlist hok
  exact fits_of_observePayments env _ now ps h {} hobs

end Companion
