import Companion.Store

/-!
# Planning a transition

The first half of `sync.rs`: from a stored row and an observed status to the
transition that is due, its event and its payload.  Transfers only move forward
along `rank`.  Payments move forward along `paymentRank`, and in addition a
`Failed` or `Cancelled` row observed `Pending` restarts.

A plan is made from a row read earlier; nothing here looks at the database.

## Main definitions

* `planTransition`, `planPaymentTransition` — the plans.
* `eventPayload`, `paymentEventPayload` — what a planned event will say.
-/

set_option autoImplicit false

namespace Companion
open Lib

/-! ## Transfers -/

inductive EventType
  | confirmedPending
  | settled
  | failed
  deriving DecidableEq, Repr

def EventType.asStr : EventType → String
  | confirmedPending => "transfer.confirmed_pending"
  | settled => "transfer.settled"
  | failed => "transfer.failed"

structure Transition where
  transferId : ℕ
  src : TransferStatus
  dst : TransferStatus
  event : Option EventType
  deriving DecidableEq, Repr

def rank : TransferStatus → ℕ
  | .initiated => 0
  | .waitingCounterparty => 1
  | .waitingSafeHeight => 2
  | .waitingBroadcast => 3
  | .waitingConfirmations => 4
  | .settled | .failed => 5

/-- The event of entering a status. -/
def EventType.of : TransferStatus → Option EventType
  | .waitingConfirmations => some confirmedPending
  | .settled => some settled
  | .failed => some failed
  | _ => none

def planTransition (stored : Transfer) (observed : TransferStatus) : Option Transition :=
  let src := stored.status
  if src.terminal || rank observed ≤ rank src then none
  else some ⟨stored.id, src, observed, EventType.of observed⟩

def eventPayload (eventId : ℕ) (event : EventType) (row : Transfer) (tr : Transition) (now : ℤ) :
    TransferPayload where
  eventId := eventId
  eventType := event.asStr
  transfer :=
    { row with
      status := tr.dst
      updatedAt := now
      settledAt := if tr.dst = .settled then some now else row.settledAt }
  previousStatus := tr.src
  newStatus := tr.dst
  timestamp := now

theorem terminal_iff_rank {s : TransferStatus} : s.terminal = true ↔ rank s = 5 := by
  cases s <;> decide

theorem planTransition_eq_some {stored : Transfer} {observed : TransferStatus} {tr : Transition} :
    planTransition stored observed = some tr ↔
      stored.status.terminal = false ∧ rank stored.status < rank observed ∧
        tr = ⟨stored.id, stored.status, observed, EventType.of observed⟩ := by
  simp only [planTransition, Bool.or_eq_true, decide_eq_true_eq]
  by_cases ht : stored.status.terminal = true
  · simp [ht]
  · by_cases hr : rank observed ≤ rank stored.status
    · simp [hr]
    · simp [ht, hr, eq_comm, Nat.lt_of_not_le hr]

/-! ## Payments -/

inductive PaymentEventType
  | settled
  | failed
  deriving DecidableEq, Repr

def PaymentEventType.asStr : PaymentEventType → String
  | settled => "payment.settled"
  | failed => "payment.failed"

structure PaymentTransition where
  paymentHash : String
  src : PaymentStatus
  dst : PaymentStatus
  event : Option PaymentEventType
  deriving DecidableEq, Repr

def paymentRank : PaymentStatus → ℕ
  | .pending => 0
  | .claimable => 1
  | .claiming => 2
  | .succeeded | .failed | .cancelled => 3

/-- The two terminal statuses a retry leaves. -/
def PaymentStatus.restartable : PaymentStatus → Bool
  | .failed | .cancelled => true
  | _ => false

/-- The event of entering a status. -/
def PaymentEventType.of : PaymentStatus → Option PaymentEventType
  | .succeeded => some settled
  | .failed | .cancelled => some failed
  | _ => none

def planPaymentTransition (stored : Payment) (observed : PaymentStatus) :
    Option PaymentTransition :=
  let src := stored.status
  if src.terminal then
    -- RLN reuses the hash of a failed or cancelled payment on retry.
    if observed ≠ .pending ∨ !src.restartable then none
    else some ⟨stored.paymentHash, src, observed, none⟩
  else if paymentRank observed ≤ paymentRank src then none
  else some ⟨stored.paymentHash, src, observed, PaymentEventType.of observed⟩

/-- The moves of a payment's status: a silent restart, or forward. -/
def PaymentMove (src dst : PaymentStatus) : Prop :=
  (src.restartable = true ∧ dst = .pending) ∨
    (src.terminal = false ∧ paymentRank src < paymentRank dst)

instance : DecidableRel PaymentMove := fun src dst => by unfold PaymentMove; infer_instance

theorem not_move_succeeded {dst : PaymentStatus} : ¬ PaymentMove .succeeded dst := by
  rintro (⟨h, -⟩ | ⟨h, -⟩) <;> cases h

def paymentEventPayload (eventId : ℕ) (event : PaymentEventType) (row : Payment)
    (tr : PaymentTransition) (now : ℤ) : PaymentPayload where
  eventId := eventId
  eventType := event.asStr
  payment := { row with status := tr.dst, updatedAt := now }
  previousStatus := tr.src
  newStatus := tr.dst
  timestamp := now

theorem terminal_of_restartable {s : PaymentStatus} (h : s.restartable = true) :
    s.terminal = true := by
  cases s <;> first | rfl | cases h

/-- The transition a move plans: it announces what is entered, unless it is a restart. -/
def Payment.transition (stored : Payment) (observed : PaymentStatus) : PaymentTransition where
  paymentHash := stored.paymentHash
  src := stored.status
  dst := observed
  event := if stored.status.terminal then none else PaymentEventType.of observed

/-- A plan is made exactly for a move. -/
theorem planPaymentTransition_eq (stored : Payment) (observed : PaymentStatus) :
    planPaymentTransition stored observed =
      if PaymentMove stored.status observed then some (stored.transition observed) else none := by
  by_cases hm : PaymentMove stored.status observed
  · rw [if_pos hm]
    rcases hm with ⟨hre, rfl⟩ | ⟨hterm, hrank⟩
    · simp [planPaymentTransition, Payment.transition, terminal_of_restartable hre, hre]
    · simp [planPaymentTransition, Payment.transition, hterm, Nat.not_le.mpr hrank]
  · rw [if_neg hm]
    simp only [planPaymentTransition]
    split
    · next hterm =>
      rw [ite_eq_left_iff]
      intro hp
      simp only [ne_eq, Bool.not_eq_true', not_or, not_not, Bool.not_eq_false] at hp
      exact absurd (Or.inl ⟨hp.2, hp.1⟩) hm
    · next hterm =>
      rw [ite_eq_left_iff]
      intro hr
      exact absurd (Or.inr ⟨by simpa using hterm, Nat.lt_of_not_le hr⟩) hm

/-- The two things a plan can be: a restart, or a forward move with the event of the
status entered. -/
theorem planPaymentTransition_eq_some {stored : Payment} {observed : PaymentStatus}
    {tr : PaymentTransition} (h : planPaymentTransition stored observed = some tr) :
    tr.paymentHash = stored.paymentHash ∧ tr.src = stored.status ∧ tr.dst = observed ∧
      ((stored.status.restartable = true ∧ observed = .pending ∧ tr.event = none) ∨
        (stored.status.terminal = false ∧ paymentRank stored.status < paymentRank observed ∧
          tr.event = PaymentEventType.of observed)) := by
  rw [planPaymentTransition_eq] at h
  split at h
  · next hm =>
    cases h
    refine ⟨rfl, rfl, rfl, ?_⟩
    rcases hm with ⟨hre, hp⟩ | ⟨hterm, hrank⟩
    · exact Or.inl ⟨hre, hp, by simp [Payment.transition, terminal_of_restartable hre]⟩
    · exact Or.inr ⟨hterm, hrank, by simp [Payment.transition, hterm]⟩
  · cases h

end Companion
