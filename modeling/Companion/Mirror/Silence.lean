import Companion.Mirror.Idempotence

/-!
# The first pass over the payments

Before the baseline is stored a payment is inserted with the status it is listed with, so
that observing this status moves nothing.  That is so for the first entry of a hash.  The
next one finds a row, and moves it as it does after the baseline.

## Main definitions

* `Backfills` — what is listed of one hash moves nothing into a terminal status.
* `Op.OfPayments` — the operations of a pass, and what they append to the outbox.
* `backfill_silent_iff` — which listings are mirrored silently.
-/

set_option autoImplicit false

namespace Companion
open Lib

/-! ## The condition -/

/-- `Succeeded` comes first; or an open status does, and no terminal one later; or `Failed`
or `Cancelled` does, and no terminal one after a `Pending`. -/
def Backfills : List PaymentStatus → Prop
  | [] => True
  | first :: rest =>
      first = .succeeded ∨
      (first.terminal = false ∧ ∀ s ∈ rest, s.terminal = false) ∨
      (first.restartable = true ∧ rest.Pairwise fun a b => a = .pending → b.terminal = false)

/-! ## One payment -/

theorem out_self (s : PaymentStatus) : s.out s = [] := by
  simp [PaymentStatus.out, not_move_self]

theorem next_self (s : PaymentStatus) : s.next s = s := by
  simp [PaymentStatus.next]

/-- An open payment is announced when it closes, and only then. -/
theorem out_open {q : PaymentStatus} (hq : q.terminal = false) (s : PaymentStatus) :
    q.out s = [] ↔ s.terminal = false := by
  cases q <;> first | cases hq; done | (cases s <;> decide)

theorem next_open {q s : PaymentStatus} (hq : q.terminal = false) (hs : s.terminal = false) :
    (q.next s).terminal = false := by
  obtain h | h := next_eq_or q s <;> rw [h] <;> assumption

/-- A closed payment announces nothing, not even when it restarts. -/
theorem out_closed {q : PaymentStatus} (hq : q.terminal = true) (s : PaymentStatus) :
    q.out s = [] := by
  cases q <;> first | cases hq; done | (cases s <;> decide)

theorem events_prefix (b : Bool) (v : PaymentView) (ss : List PaymentStatus) :
    v.events <+: (ss.foldl (PaymentView.observe b) v).events := by
  induction ss generalizing v with
  | nil => exact List.prefix_rfl
  | cons s ss ih =>
    have hstep : v.events <+: (v.observe b s).events := List.prefix_append _ _
    exact hstep.trans (ih (v.observe b s))

/-- A fold is silent when its first step is and the rest of it is. -/
theorem silent_cons {b : Bool} {v : PaymentView} {q : PaymentStatus} (hv : v.status = some q)
    (s : PaymentStatus) (ss : List PaymentStatus) :
    ((s :: ss).foldl (PaymentView.observe b) v).events = v.events ↔
      q.out s = [] ∧
        (ss.foldl (PaymentView.observe b) (v.observe b s)).events = (v.observe b s).events := by
  have hstored : v.stored b s = q := by simp [PaymentView.stored, hv]
  have hstep : (v.observe b s).events = v.events ++ q.out s := by rw [← hstored]; rfl
  have hrest := events_prefix b (v.observe b s) ss
  rw [List.foldl_cons]
  constructor
  · intro hall
    rw [hall, hstep] at hrest
    have hout : q.out s = [] := by
      have := hrest.length_le
      rw [List.length_append] at this
      exact List.length_eq_zero_iff.mp (by omega)
    exact ⟨hout, by rw [hall, hstep, hout, List.append_nil]⟩
  · rintro ⟨hout, hsame⟩
    rw [hsame, hstep, hout, List.append_nil]

/-- From an open status on, a listing is silent if nothing in it is terminal. -/
theorem silent_open {b : Bool} {v : PaymentView} {q : PaymentStatus} (hv : v.status = some q)
    (hq : q.terminal = false) (ss : List PaymentStatus) :
    (ss.foldl (PaymentView.observe b) v).events = v.events ↔ ∀ s ∈ ss, s.terminal = false := by
  induction ss generalizing v q with
  | nil => simp
  | cons s ss ih =>
    have hstatus : (v.observe b s).status = some (q.next s) := by
      simp [PaymentView.observe, PaymentView.stored, hv]
    rw [silent_cons hv, out_open hq, List.forall_mem_cons]
    apply and_congr_right
    intro hs
    exact ih hstatus (next_open hq hs)

/-- From `Failed` or `Cancelled` on, it is if nothing is terminal after a `Pending`. -/
theorem silent_restartable {b : Bool} {v : PaymentView} {q : PaymentStatus}
    (hv : v.status = some q) (hq : q.restartable = true) (ss : List PaymentStatus) :
    (ss.foldl (PaymentView.observe b) v).events = v.events ↔
      ss.Pairwise fun a b => a = .pending → b.terminal = false := by
  induction ss generalizing v with
  | nil => simp
  | cons s ss ih =>
    have hstatus : (v.observe b s).status = some (if s = .pending then .pending else q) := by
      simp [PaymentView.observe, PaymentView.stored, hv, next_restartable hq]
    rw [silent_cons hv, out_closed (terminal_of_restartable hq), List.pairwise_cons]
    by_cases hs : s = .pending
    · rw [if_pos hs] at hstatus
      rw [silent_open hstatus rfl]
      simp only [true_and, hs, forall_const]
      constructor
      · intro hall
        refine ⟨hall, List.pairwise_of_forall_mem_list ?_⟩
        intro _ _ t ht _
        exact hall t ht
      · exact And.left
    · rw [if_neg hs] at hstatus
      simp [ih hstatus, hs]

/-- What a pass without a baseline announces of a payment it has not seen. -/
theorem silent_unmirrored {v : PaymentView} (hv : v.status = none) (ss : List PaymentStatus) :
    (ss.foldl (PaymentView.observe false) v).events = v.events ↔ Backfills ss := by
  cases ss with
  | nil => simp [Backfills]
  | cons first rest =>
    have hfirst : v.observe false first = ⟨some first, v.events⟩ := by
      simp [PaymentView.observe, PaymentView.stored, hv, insertStatus, next_self, out_self]
    rw [List.foldl_cons, hfirst, Backfills]
    obtain rfl | hre | hopen := status_cases first
    · rw [foldl_observe_of_settled rfl fun _ _ => not_move_succeeded]
      simp
    · have hclosed := terminal_of_restartable hre
      have hne : first ≠ .succeeded := by rintro rfl; cases hre
      simpa [hre, hclosed, hne] using silent_restartable rfl hre rest
    · have hne : first ≠ .succeeded := by rintro rfl; cases hopen
      have hre : first.restartable = false := by
        cases first <;> first | rfl | cases hopen
      simpa [hre, hopen, hne] using silent_open rfl hopen rest

/-! ## The outbox -/

/-- What a pass over the payments asks for. -/
def Op.OfPayments : Op → Prop
  | .store (.applyPaymentTransition hash src dst event _) => PlannedPayment hash src dst event
  | .store (.upsertPayment _ _ _) | .store .paymentsBaselineAt
  | .store (.setPaymentsBaselineAt _) | .node _ | .uuid => True
  | _ => False

theorem ofPayments_observePayments (baseline : Bool) (now : ℤ) (ps : List RlnPayment)
    (report : PaymentSyncReport) :
    (observePayments baseline now ps report).run.Uses Op.OfPayments := by
  induction ps generalizing report with
  | nil => trivial
  | cons p ps ih =>
    have hone : (observePayment baseline now report p).run.Uses Op.OfPayments := by
      refine Fallible.uses_bind (Fallible.uses_mapErr (uses_store trivial)) fun row => ?_
      refine Fallible.uses_bind (applyPaymentObserved_asks trivial (fun _ _ _ _ _ h => h) row
        p.status now) fun moved => ?_
      cases moved <;> trivial
    exact Fallible.uses_bind hone fun report => ih report

theorem ofPayments_syncPayments (cfg : Config.Sync) (now : ℤ) :
    (syncPayments cfg now).run.Uses Op.OfPayments := by
  refine Fallible.uses_bind (Fallible.uses_mapErr (uses_node trivial)) fun ps => ?_
  refine Fallible.uses_bind (Fallible.uses_mapErr (uses_store trivial)) fun baseline => ?_
  refine Fallible.uses_bind (ofPayments_observePayments _ now ps {}) fun report => ?_
  cases baseline with
  | some t => trivial
  | none => exact Fallible.uses_bind (Fallible.uses_mapErr (uses_store trivial)) fun _ => trivial

/-- The outbox has grown by events about payments. -/
def PaymentsAppended (before after : List OutboxRow) : Prop :=
  ∃ new, after = before ++ new ∧ ∀ r ∈ new, ∃ hash, r.paymentEvent? hash ≠ none

theorem PaymentsAppended.refl (rows : List OutboxRow) : PaymentsAppended rows rows :=
  ⟨[], by simp, by simp⟩

theorem PaymentsAppended.trans {rows₁ rows₂ rows₃ : List OutboxRow}
    (h : PaymentsAppended rows₁ rows₂) (h' : PaymentsAppended rows₂ rows₃) :
    PaymentsAppended rows₁ rows₃ := by
  obtain ⟨new, rfl, hnew⟩ := h
  obtain ⟨new', rfl, hnew'⟩ := h'
  refine ⟨new ++ new', by simp, ?_⟩
  intro r hr
  rcases List.mem_append.mp hr with hr | hr
  · exact hnew r hr
  · exact hnew' r hr

theorem appended_ofPayments (env : Env) {o : Op} (h : Host) (ho : o.OfPayments) :
    PaymentsAppended h.db.webhookOutbox.rows (perform env o h).2.db.webhookOutbox.rows := by
  cases o with
  | store q =>
    obtain ⟨r, h', hp⟩ : ∃ r h', q.perform h = (r, h') := ⟨_, _, rfl⟩
    have hpost : (perform env (.store q) h).2 = h' := congrArg Prod.snd hp
    rw [hpost]
    cases q with
    | applyPaymentTransition hash src dst event now =>
      obtain rfl | ⟨b, db', hok, rfl⟩ := Host.commit_cases hp
      · exact .refl _
      obtain ⟨-, rfl⟩ | ⟨-, -, r, T, O, -, -, rfl, -, hO⟩ := Db.applyPaymentTransition_ok hok
      · exact .refl _
      refine ⟨_, hO, ?_⟩
      obtain ⟨-, -, rfl⟩ | ⟨-, -, eventId, row, t, rfl, rfl⟩ := ho
      · simp [Db.eventRows]
      · intro r hr
        refine ⟨row.paymentHash, ?_⟩
        cases hof : PaymentEventType.of dst with
        | none => simp [paymentTransitionEvent, Db.eventRows, hof] at hr
        | some e =>
          simp only [paymentTransitionEvent, hof, Option.map_some, Db.eventRows,
            List.mem_singleton] at hr
          simp [hr, Db.outboxRow, OutboxRow.paymentEvent?, paymentEventPayload]
    | upsertPayment _ _ _ | paymentsBaselineAt | setPaymentsBaselineAt _ =>
      rw [(StoreOp.frame hp).webhookOutbox (by simp [StoreOp.writes])]
      exact .refl _
    | _ => exact ho.elim
  | node _ | uuid => exact .refl _
  | _ => exact ho.elim

/-- Events about payments are only appended if some payment has got one. -/
theorem PaymentsAppended.eq_of_events {db db' : Db}
    (h : PaymentsAppended db.webhookOutbox.rows db'.webhookOutbox.rows)
    (hevents : ∀ hash, db'.paymentEvents hash = db.paymentEvents hash) :
    db'.webhookOutbox.rows = db.webhookOutbox.rows := by
  obtain ⟨new, hrows, hnew⟩ := h
  have hnone : new = [] := by
    apply List.eq_nil_iff_forall_not_mem.mpr
    intro r hr
    obtain ⟨hash, hevent⟩ := hnew r hr
    have hsame := hevents hash
    rw [Db.paymentEvents, hrows, List.filterMap_append, Db.paymentEvents,
      List.append_right_eq_self, List.filterMap_eq_nil_iff] at hsame
    exact hevent (hsame r hr)
  rw [hrows, hnone, List.append_nil]

/-! ## The pass -/

theorem appended_syncPayments (env : Env) (cfg : Config.Sync) (now : ℤ) (h : Host) :
    PaymentsAppended h.db.webhookOutbox.rows
      (exec env (syncPayments cfg now) h).2.db.webhookOutbox.rows :=
  Proc.exec_inv (I := fun h' => PaymentsAppended h.db.webhookOutbox.rows h'.db.webhookOutbox.rows)
    (ofPayments_syncPayments cfg now)
    (fun _ h' ho hpast => hpast.trans (appended_ofPayments env h' ho)) (.refl _)

/-- A pass without a baseline that returns has stored it. -/
theorem baseline_syncPayments {env : Env} {cfg : Config.Sync} {ps : List RlnPayment} {now : ℤ}
    {h h' : Host} {report : PaymentSyncReport}
    (hbaseline : h.db.nodeState.paymentsBaselineAt = none)
    (hlist : env.node (.listPayments cfg.pageSize) = .ok ps)
    (hok : exec env (syncPayments cfg now) h = (.ok report, h')) :
    h'.db.nodeState.paymentsBaselineAt = some now := by
  obtain ⟨h₁, -, hdone⟩ := observes_of_syncPayments hlist hok
  rw [hdone, hbaseline]
  rfl

/-- **The first pass over the payments.**  With no payment mirrored and no baseline stored,
a pass that returns stores the baseline and leaves the outbox as it is exactly when what is
listed of each hash moves nothing into a terminal status. -/
theorem backfill_silent_iff {env : Env} {cfg : Config.Sync} {ps : List RlnPayment} {now : ℤ}
    {h h' : Host} {report : PaymentSyncReport} (hempty : h.db.payments.rows = [])
    (hbaseline : h.db.nodeState.paymentsBaselineAt = none)
    (hlist : env.node (.listPayments cfg.pageSize) = .ok ps)
    (hok : exec env (syncPayments cfg now) h = (.ok report, h')) :
    (h'.db.webhookOutbox.rows = h.db.webhookOutbox.rows ∧
        h'.db.nodeState.paymentsBaselineAt = some now) ↔
      ∀ hash, Backfills (statusesOf hash ps) := by
  obtain ⟨n, h₁, hexec, hview, -, -, -⟩ := exec_syncPayments hlist (fits_of_syncPayments hlist hok)
    now h
  have hh : h₁ = h' := congrArg Prod.snd (hexec.symm.trans hok)
  subst hh
  have hnone : ∀ hash, (h.db.paymentView hash).status = none := by
    intro hash
    simp [Db.paymentView, Db.paymentStatus?, Db.payment?, Table.get?, hempty]
  have hsilent : ∀ hash, h₁.db.paymentEvents hash = h.db.paymentEvents hash ↔
      Backfills (statusesOf hash ps) := by
    intro hash
    have hevents := congrArg PaymentView.events (hview hash)
    rw [hbaseline] at hevents
    rw [← silent_unmirrored (hnone hash)]
    exact Eq.congr_left hevents
  constructor
  · rintro ⟨hsame, -⟩ hash
    rw [← hsilent, Db.paymentEvents, hsame, Db.paymentEvents]
  · intro hall
    have happended := appended_syncPayments env cfg now h
    rw [hok] at happended
    exact ⟨happended.eq_of_events fun hash => (hsilent hash).mpr (hall hash),
      baseline_syncPayments hbaseline hlist hok⟩

/-- A payment to oneself that failed on one side is mirrored silently. -/
theorem backfill_silent_circular :
    ∃ h', exec (.listing (.listPayments 100) (circular .failed .succeeded)) (syncPayments {} 2)
        .fresh = (.ok ⟨2, 0⟩, h') ∧
      h'.db.webhookOutbox.rows = Host.fresh.db.webhookOutbox.rows ∧
      h'.db.nodeState.paymentsBaselineAt = some 2 := by
  obtain ⟨h', hok⟩ : ∃ h', exec (.listing (.listPayments 100) (circular .failed .succeeded))
      (syncPayments {} 2) .fresh = (.ok ⟨2, 0⟩, h') := ⟨_, rfl⟩
  have hlist : (Env.listing (.listPayments 100) (circular .failed .succeeded)).node
      (.listPayments 100) = .ok (circular .failed .succeeded) := rfl
  refine ⟨h', hok, (backfill_silent_iff rfl rfl hlist hok).mpr ?_⟩
  intro hash
  by_cases hhash : "hash" = hash
  · subst hhash
    have hlisted : statusesOf "hash" (circular .failed .succeeded) = [.failed, .succeeded] := rfl
    rw [hlisted]
    exact Or.inr (Or.inr ⟨rfl, by decide⟩)
  · simp [statusesOf, circular, hhash, Backfills]

/-- One that is pending on one side and has succeeded on the other is announced by the
very first pass. -/
theorem backfill_announced :
    Host.fresh.db.payments.rows = [] ∧ Host.fresh.db.nodeState.paymentsBaselineAt = none ∧
    ∃ h', exec (.listing (.listPayments 100) (circular .pending .succeeded)) (syncPayments {} 2)
        .fresh = (.ok ⟨2, 1⟩, h') ∧
      h'.db.webhookOutbox.rows ≠ Host.fresh.db.webhookOutbox.rows ∧
      h'.db.paymentEvents "hash" = ["payment.settled"] := by
  refine ⟨rfl, rfl, _, rfl, ?_, rfl⟩
  exact List.cons_ne_nil _ _

end Companion
