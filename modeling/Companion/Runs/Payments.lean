import Companion.Announce
import Companion.Lib.Ledger

/-!
# The ledger of a payment

What one payment row and its events go through in any run.  A payment differs
from a transfer in one rule: a `Failed` or `Cancelled` row may restart, silently,
so the same row can be closed several times.  The compare-and-set on the status
cannot tell one failure from the next, but it does not have to: every closing is
announced once, every restart is announced never, and the balance of the two is
whether the row is closed now.

## Main definitions

* `paymentRules`, `paymentAccount` — the row and its events as an account.
* `PaymentAccounted` — how the events of a row account for its history.
* `payment_ledger` — the account, for every run.
-/

set_option autoImplicit false

namespace Companion
open Lib

/-! ## The rules of a payment -/

/-- How payment rows come about and change. -/
def paymentRules : Rules Payment String where
  born _ := True
  change r r' out :=
    (r'.status = r.status ∧ out = []) ∨
      (PaymentMove r.status r'.status ∧ out = paymentOut r.status r'.status)

/-- How they change when no transition is applied. -/
def paymentKept : Rules Payment String where
  born _ := True
  change r r' out := r'.status = r.status ∧ out = []

/-- The payment `hash` and its events, as an account. -/
def paymentAccount (hash : String) (h : Host) : Account Payment String :=
  ⟨h.db.payment? hash, h.db.paymentEvents hash⟩

theorem move_of_planned {hash : String} {src dst : PaymentStatus} {event : Option NewEvent}
    (h : PlannedPayment hash src dst event) : PaymentMove src dst :=
  h.imp (fun h => ⟨h.1, h.2.1⟩) fun h => ⟨h.1, h.2.1⟩

/-! ## What one step does to an account -/

/-- What a store operation other than a payment transition does to any payment. -/
theorem payment_kept {h h' : Host} {hash : String} {q : StoreOp} {r : Except StoreError q.Res}
    (hq : Op.Background (.store q) ∨ Op.Delivery (.store q))
    (hne : ∀ k src dst event now, q ≠ .applyPaymentTransition k src dst event now)
    (hp : q.perform h = (r, h')) :
    paymentKept.Step (paymentAccount hash h) (paymentAccount hash h') := by
  cases q with
  | applyTransition k src dst event now =>
      rcases hq with hq | hq
      · rcases Host.commit_cases hp with rfl | ⟨b, db', hok, rfl⟩
        · exact Ledger.step_same rfl rfl
        rcases Db.applyTransition_ok hok with ⟨-, rfl⟩ | ⟨-, -, r, T, O, -, -, rfl, -, hO⟩
        · exact Ledger.step_same rfl rfl
        · exact Ledger.step_same rfl (Db.paymentEvents_planned hq hO hash)
      · exact hq.elim
  | applyPaymentTransition k src dst event now => exact absurd rfl (hne k src dst event now)
  | upsertPayment p lastSeenAt now =>
      rcases Host.commit_cases hp with rfl | ⟨row, db', hok, rfl⟩
      · exact Ledger.step_same rfl rfl
      rcases Db.upsertPayment_ok hok with ⟨T, rfl, ⟨r, hr, -, hT⟩ | ⟨hnew, -, hT⟩⟩
      · refine Ledger.step_replace hr hT (fun _ => rfl) ?_ ⟨rfl, rfl⟩
        rw [ite_self, List.append_nil]
        exact Db.paymentEvents_of_outbox rfl hash
      · have hnew' : h.db.payments.get? Payment.paymentHash
            (p.row lastSeenAt now).paymentHash = none := hnew
        exact Ledger.step_append hnew' hT (Db.paymentEvents_of_outbox rfl hash) trivial
  | recordAttempt k next =>
      cases hp
      exact Ledger.step_same rfl (Db.paymentEvents_recordAttempt _ k next hash)
  | markDelivered k now =>
      cases hp
      exact Ledger.step_same rfl (Db.paymentEvents_markDelivered _ k now hash)
  | _ =>
      -- neither the payments nor the outbox are written
      have hrows := (StoreOp.frame hp).payments (by simp [StoreOp.writes])
      have hout := (StoreOp.frame hp).webhookOutbox (by simp [StoreOp.writes])
      exact Ledger.step_same hrows (Db.paymentEvents_of_outbox hout hash)

/-- What a store operation of the companion does to any payment. -/
theorem payment_step {h h' : Host} {hash : String} {q : StoreOp} {r : Except StoreError q.Res}
    (hq : Op.Background (.store q) ∨ Op.Delivery (.store q)) (hp : q.perform h = (r, h')) :
    paymentRules.Step (paymentAccount hash h) (paymentAccount hash h') := by
  by_cases hne : ∀ k src dst event now, q ≠ .applyPaymentTransition k src dst event now
  · have hkept := @payment_kept h h' hash q r hq hne hp
    exact hkept.mono (fun _ _ => trivial) fun _ _ _ => Or.inl
  simp only [ne_eq, not_forall, not_not] at hne
  rcases hne with ⟨k, src, dst, event, now, rfl⟩
  have hplan : PlannedPayment k src dst event := hq.resolve_right id
  rcases Host.commit_cases hp with rfl | ⟨b, db', hok, rfl⟩
  · exact Ledger.step_same rfl rfl
  rcases Db.applyPaymentTransition_ok hok with ⟨-, rfl⟩ | ⟨-, -, r, T, O, hr, hsrc, rfl, hT, hO⟩
  · exact Ledger.step_same rfl rfl
  · refine Ledger.step_replace hr hT (fun _ => rfl)
      (Db.paymentEvents_plannedPayment hplan hO hash) (Or.inr ⟨?_, ?_⟩)
    · rw [hsrc]
      exact move_of_planned hplan
    · rw [hsrc]
      rfl

/-! ## Runs -/

section Runs
open Pool
variable {cfg : Config} {hist : List (Event Effects Host)} {c : Pool.Config Effects Host}

/-- Every event of a run is a step of every payment's account. -/
theorem payment_steps (run : (system cfg).Run initial hist c) (hash : String) :
    ∀ e ∈ hist, paymentRules.Step (paymentAccount hash e.pre) (paymentAccount hash e.post) := by
  intro e he
  rcases lawful_cases (lawful_of_run run e he) with hdb | ⟨q, r, hq, hp⟩
  · have heq : paymentAccount hash e.post = paymentAccount hash e.pre := by
      rw [paymentAccount, hdb, paymentAccount]
    rw [heq]
    exact .stay _
  · exact payment_step hq hp

/-- What a step makes of a row: its status stays or moves. -/
theorem status_of_step {h h' : Host} {hash : String} {r : Payment}
    (hs : paymentRules.Step (paymentAccount hash h) (paymentAccount hash h'))
    (hr : h.db.payment? hash = some r) :
    ∃ r', h'.db.payment? hash = some r' ∧
      (r'.status = r.status ∨ PaymentMove r.status r'.status) := by
  generalize ha : paymentAccount hash h = a at hs
  generalize ha' : paymentAccount hash h' = a' at hs
  have hrec : a.record = some r := by rw [← ha]; exact hr
  have hrec' : h'.db.payment? hash = a'.record := by rw [← ha']; rfl
  rw [hrec']
  cases hs with
  | stay => exact ⟨r, hrec, Or.inl rfl⟩
  | born _ => cases hrec
  | change hc =>
      cases hrec
      exact ⟨_, rfl, hc.imp And.left And.left⟩

/-! ### What the events say -/

/-- The events that close a payment. -/
def isPaymentClosing (eventType : String) : Bool :=
  eventType = PaymentEventType.settled.asStr || eventType = PaymentEventType.failed.asStr

/-- What holds of a payment's account in every reachable state: a settlement is
announced only of a row that has succeeded, and nothing is announced after it. -/
structure PaymentSound (a : Account Payment String) : Prop where
  none : a.record = none → a.events = []
  open_ : ∀ r, a.record = some r → r.status ≠ .succeeded →
    PaymentEventType.settled.asStr ∉ a.events
  last : a.events.Pairwise fun earlier _ => earlier ≠ PaymentEventType.settled.asStr

theorem settled_mem_paymentOut {src dst : PaymentStatus}
    (h : PaymentEventType.settled.asStr ∈ paymentOut src dst) : dst = .succeeded := by
  cases src <;> cases dst <;> first | rfl | exact absurd h (by decide)

theorem paymentOut_pairwise (src dst : PaymentStatus) :
    (paymentOut src dst).Pairwise fun earlier _ => earlier ≠ PaymentEventType.settled.asStr := by
  cases src <;> cases dst <;> decide

theorem paymentSound_change {r r' : Payment} {es out : List String}
    (hc : paymentRules.change r r' out) (hs : PaymentSound ⟨some r, es⟩) :
    PaymentSound ⟨some r', es ++ out⟩ := by
  rcases hc with ⟨hst, rfl⟩ | ⟨hmove, rfl⟩
  · refine ⟨by simp, fun r₁ h₁ => ?_, ?_⟩
    · cases h₁
      rw [hst, List.append_nil]
      exact hs.open_ r rfl
    · rw [List.append_nil]
      exact hs.last
  · have hopen : PaymentEventType.settled.asStr ∉ es := by
      refine hs.open_ r rfl fun hsucc => ?_
      rw [hsucc] at hmove
      exact not_move_succeeded hmove
    refine ⟨by simp, fun r₁ h₁ hne hmem => ?_, ?_⟩
    · cases h₁
      rcases List.mem_append.mp hmem with hmem | hmem
      · exact hopen hmem
      · exact hne (settled_mem_paymentOut hmem)
    · rw [List.pairwise_append]
      refine ⟨hs.last, paymentOut_pairwise _ _, fun a ha b _ hab => ?_⟩
      rw [hab] at ha
      exact hopen ha

theorem payment_sound (run : (system cfg).Run initial hist c) (hash : String) :
    PaymentSound (paymentAccount hash c.shared) := by
  refine Ledger.account_inv run (payment_steps run hash) ?_ ?_ ?_
  · exact ⟨fun _ => rfl, fun r h => (by cases h), List.Pairwise.nil⟩
  · intro r es _ hs
    have hes : es = [] := hs.none rfl
    subst hes
    exact ⟨by simp, fun _ _ _ => by simp, List.Pairwise.nil⟩
  · intro r r' es out hc hs
    exact paymentSound_change hc hs

/-! ### The balance -/

theorem countP_paymentOut (src dst : PaymentStatus) :
    (paymentOut src dst).countP isPaymentClosing =
      if dst.terminal && !src.terminal then 1 else 0 := by
  cases src <;> cases dst <;> decide

theorem countP_paymentChange {r r' : Payment} {out : List String}
    (hc : paymentRules.change r r' out) :
    out.countP isPaymentClosing = if r'.status.terminal && !r.status.terminal then 1 else 0 := by
  rcases hc with ⟨hst, rfl⟩ | ⟨-, rfl⟩
  · cases h : r.status.terminal <;> simp [hst, h]
  · exact countP_paymentOut _ _

/-- The payment was stored for the first time, already in a terminal status. -/
def storedTerminal (hash : String) (e : Event Effects Host) : Bool :=
  (e.pre.db.payment? hash).isNone && (e.post.db.payment? hash).any fun r => r.status.terminal

/-- The payment restarted: from `Failed` or `Cancelled` to `Pending`. -/
def restarted (hash : String) (e : Event Effects Host) : Bool :=
  (e.pre.db.payment? hash).any (fun r => r.status.restartable) &&
    (e.post.db.payment? hash).any fun r => r.status = .pending

/-- The only way out of a terminal status is a restart. -/
theorem reopened_eq_restarted (run : (system cfg).Run initial hist c) (hash : String)
    {e : Event Effects Host} (he : e ∈ hist) :
    Ledger.reopened (fun r => r.status.terminal) (paymentAccount hash e.pre)
      (paymentAccount hash e.post) = restarted hash e := by
  cases hr : e.pre.db.payment? hash with
  | none => simp [Ledger.reopened, Ledger.isClosed, paymentAccount, restarted, hr]
  | some r =>
      rcases status_of_step (payment_steps run hash e he) hr with ⟨r', hr', hst⟩
      simp only [Ledger.reopened, Ledger.isClosed, paymentAccount, restarted, hr, hr',
        Option.any_some]
      rcases hst with hst | ⟨hre, hdst⟩ | ⟨hterm, -⟩
      · rw [hst]
        cases r.status <;> rfl
      · rw [hdst]
        cases hs : r.status <;> rw [hs] at hre <;> first | rfl | cases hre
      · cases hs : r.status <;> rw [hs] at hterm <;> first | rfl | cases hterm

end Runs

/-! ## The ledger -/

/-- How the history and the outbox account for the row `r`. -/
structure PaymentAccounted (hist : List (Pool.Event Effects Host)) (db : Db) (r : Payment) :
    Prop where
  balance : (db.paymentEvents r.paymentHash).countP isPaymentClosing +
      (if hist.any (storedTerminal r.paymentHash) then 1 else 0) =
    hist.countP (restarted r.paymentHash) + if r.status.terminal then 1 else 0
  settledOnce : (db.paymentEvents r.paymentHash).count PaymentEventType.settled.asStr ≤ 1
  settledLast : (db.paymentEvents r.paymentHash).Pairwise fun earlier _ =>
    earlier ≠ PaymentEventType.settled.asStr

theorem count_le_one_of_last {es : List String} {a : String}
    (h : es.Pairwise fun earlier _ => earlier ≠ a) : es.count a ≤ 1 := by
  induction es with
  | nil => simp
  | cons e es ih =>
      rcases List.pairwise_cons.mp h with ⟨hne, htail⟩
      rw [List.count_cons]
      by_cases hea : e = a
      · cases es with
        | nil => simp [hea]
        | cons e' es' => exact absurd hea (hne e' (by simp))
      · simp [hea, ih htail]

theorem paymentAccounted {cfg : Config} {hist : List (Pool.Event Effects Host)}
    {c : Pool.Config Effects Host} (run : (system cfg).Run initial hist c) {r : Payment}
    (hr : r ∈ c.shared.db.payments.rows) : PaymentAccounted hist c.shared.db r := by
  have hget : c.shared.db.payment? r.paymentHash = some r := Db.payment?_eq_some.mpr ⟨hr, rfl⟩
  have hlast := (payment_sound run r.paymentHash).last
  refine ⟨?_, count_le_one_of_last hlast, hlast⟩
  have hbal := Ledger.conservation run (payment_steps run r.paymentHash)
    (fun _ _ _ => countP_paymentChange) rfl
  rw [Ledger.countP_bornClosed_eq_any run (payment_steps run r.paymentHash)] at hbal
  have hre : hist.countP (fun e => Ledger.reopened (fun r => r.status.terminal)
      (paymentAccount r.paymentHash e.pre) (paymentAccount r.paymentHash e.post)) =
        hist.countP (restarted r.paymentHash) :=
    List.countP_congr fun e he => by rw [reopened_eq_restarted run r.paymentHash he]
  rw [hre] at hbal
  have hnow : Ledger.isClosed (fun r => r.status.terminal)
      (paymentAccount r.paymentHash c.shared) = r.status.terminal := by
    rw [Ledger.isClosed, paymentAccount, hget, Option.any_some]
  rw [hnow] at hbal
  exact hbal

/-- Whatever row `hash` has in `h`, it has one in `h'`, and a success stays one. -/
def StaysSucceeded (hash : String) (h h' : Host) : Prop :=
  (∃ r, h.db.payment? hash = some r ∧ r.status = .succeeded) →
    ∃ r, h'.db.payment? hash = some r ∧ r.status = .succeeded

theorem staysSucceeded_of_step {h h' : Host} {hash : String}
    (hs : paymentRules.Step (paymentAccount hash h) (paymentAccount hash h')) :
    StaysSucceeded hash h h' := by
  rintro ⟨r, hr, hsucc⟩
  rcases status_of_step hs hr with ⟨r', hr', hst⟩
  refine ⟨r', hr', ?_⟩
  rw [hsucc] at hst
  rcases hst with hst | hmove
  · exact hst
  · exact absurd hmove not_move_succeeded

/-- **The ledger of a payment.**  From any point of a run to any later one a success
stays a success; and at every point the events of a row account exactly for its
history, with at most one settlement and nothing after it. -/
theorem payment_ledger (cfg : Config) {hist₁ hist₂ : List (Pool.Event Effects Host)}
    {c₁ c₂ : Pool.Config Effects Host} (run₁ : (system cfg).Run initial hist₁ c₁)
    (run₂ : (system cfg).Run c₁ hist₂ c₂) :
    (∀ hash, c₁.shared.db.paymentStatus? hash = some .succeeded →
        c₂.shared.db.paymentStatus? hash = some .succeeded) ∧
      ∀ r ∈ c₂.shared.db.payments.rows, PaymentAccounted (hist₁ ++ hist₂) c₂.shared.db r := by
  have run := run₁.append run₂
  refine ⟨fun hash hsucc => ?_, fun r hr => paymentAccounted run hr⟩
  have hsteps : ∀ e ∈ hist₂, StaysSucceeded hash e.pre e.post := fun e he =>
    staysSucceeded_of_step (payment_steps run hash e (List.mem_append_right _ he))
  have hlater := run₂.within (fun _ h => h) (fun _ _ _ h₁ h₂ h => h₂ (h₁ h)) hsteps
  have hnow := hlater (Option.map_eq_some_iff.mp hsucc)
  exact Option.map_eq_some_iff.mpr hnow

/-- A payment sent twice under one hash: it fails, is retried, and is pending. -/
def retrySchedule (cfg : Config) : List (Pool.Move (system cfg)) :=
  let failed : World := .of (.answering .keysend ⟨some "h", .failed⟩)
  let pending : World := .of (.answering .keysend ⟨some "h", .pending⟩)
  let req : KeysendRequest := ⟨"peer", 1000, none, none⟩
  [.start (keysend (some req)), .act 0 failed, .act 0 failed, .act 0 failed, .act 0 failed,
    .act 0 failed, .start (keysend (some req)), .act 1 pending, .act 1 pending, .act 1 pending,
    .act 1 pending, .act 1 pending]

theorem retrySchedule_admitted (cfg : Config) : Pool.Admitted (retrySchedule cfg) := by
  simp only [retrySchedule, Pool.Admitted, Pool.Move.Admitted, true_and, and_true]
  exact ⟨.keysend _, .keysend _⟩

theorem retrySchedule_plays :
    ((system ⟨⟨none⟩, {}, {}, {}⟩).play (retrySchedule _) initial).isSome := rfl

/-- The ledger of the retried payment, at the end of its run. -/
theorem payment_ledger_retry :
    ∃ hist c, (system ⟨⟨none⟩, {}, {}, {}⟩).Run initial hist c ∧
      c.shared.db.paymentStatus? "h" = some .pending ∧ hist.countP (restarted "h") = 1 ∧
      ∀ r ∈ c.shared.db.payments.rows, PaymentAccounted ([] ++ hist) c.shared.db r :=
  have run := Pool.run_of_isSome (retrySchedule_admitted _) retrySchedule_plays
  ⟨_, _, run, rfl, rfl, (payment_ledger _ .nil run).2⟩

end Companion
