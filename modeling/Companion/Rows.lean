import Companion.Lib.Table
import Mathlib.Data.Int.Notation
import Mathlib.Data.Nat.Notation

/-!
# The rows of the mirror

The data model of `store.rs`: the statuses RLN reports, the rows the companion
keeps for transfers, payments and webhook events, and the records its operations
take.  A row is the typed record the code reads back, not its text encoding:
`TryFrom` only fails on text the companion never wrote, and the one conversion
that does fail on real input, `u64` to `i64`, is `tsToDb` and `amtToDb`.

Identifiers drawn with `Uuid::new_v4` are natural numbers; nothing but their
distinctness is used.
-/

set_option autoImplicit false

namespace Companion
open Lib

/-- `i64::MAX`, the largest integer a column holds. -/
def i64Max : ℕ := 9223372036854775807

inductive StoreError
  /-- A database error: a violated constraint or a failed statement. -/
  | db
  | corrupt (message : String)
  deriving DecidableEq, Repr

/-! ## Statuses -/

inductive TransferStatus
  | initiated
  | waitingCounterparty
  | waitingSafeHeight
  | waitingBroadcast
  | waitingConfirmations
  | settled
  | failed
  deriving DecidableEq, Repr

namespace TransferStatus

def terminal : TransferStatus → Bool
  | settled | failed => true
  | _ => false

def waiting : TransferStatus → Bool
  | waitingCounterparty | waitingSafeHeight | waitingBroadcast | waitingConfirmations => true
  | _ => false

def fallible : TransferStatus → Bool
  | initiated | waitingCounterparty | waitingSafeHeight | waitingBroadcast => true
  | _ => false

end TransferStatus

inductive PaymentStatus
  | pending
  | succeeded
  | failed
  | claimable
  | claiming
  | cancelled
  deriving DecidableEq, Repr

def PaymentStatus.terminal : PaymentStatus → Bool
  | succeeded | failed | cancelled => true
  | _ => false

inductive PaymentDirection
  | inbound
  | outbound
  deriving DecidableEq, Repr

inductive NodeState
  | unknown
  | locked
  | unlocked
  | down
  | misconfigured
  deriving DecidableEq, Repr

/-! ## Transfers -/

/-- A row of `transfers`. -/
structure Transfer where
  id : ℕ
  rlnIdx : Option ℤ
  assetId : Option String
  kind : Option String
  status : TransferStatus
  recipientId : Option String
  txid : Option String
  batchTransferIdx : Option ℤ
  invoice : Option String
  expirationTimestamp : Option ℕ
  createdAt : ℤ
  updatedAt : ℤ
  lastSeenAt : Option ℤ
  settledAt : Option ℤ
  deriving DecidableEq, Repr

/-- The constraints of `transfers`: the primary key `id`, and the nullable unique
columns `rln_idx` and `recipient_id`. -/
def Transfer.Clash (a b : Transfer) : Prop :=
  a.id = b.id ∨ sqlEq a.rlnIdx b.rlnIdx = true ∨ sqlEq a.recipientId b.recipientId = true

instance : DecidableRel Transfer.Clash := fun a b => by unfold Transfer.Clash; infer_instance

instance : Std.Symm Transfer.Clash where
  symm a b h := by
    simpa only [Transfer.Clash, eq_comm, sqlEq_comm (x := b.rlnIdx),
      sqlEq_comm (x := b.recipientId)] using h

/-- What an interceptor hook inserts. -/
structure NewTransfer where
  assetId : Option String
  kind : Option String
  status : TransferStatus
  recipientId : Option String
  txid : Option String
  batchTransferIdx : Option ℤ
  invoice : Option String
  expirationTimestamp : Option ℕ
  deriving DecidableEq, Repr

/-- One transfer as the node lists it under one asset. -/
structure Observed where
  rlnIdx : ℤ
  assetId : Option String
  kind : String
  status : TransferStatus
  recipientId : Option String
  txid : Option String
  expirationTimestamp : Option ℕ
  deriving DecidableEq, Repr

/-! ## Payments -/

/-- A row of `payments`. -/
structure Payment where
  paymentHash : String
  direction : PaymentDirection
  status : PaymentStatus
  assetId : Option String
  assetAmount : Option ℕ
  amtMsat : Option ℕ
  payeePubkey : Option String
  createdAt : ℤ
  updatedAt : ℤ
  lastSeenAt : Option ℤ
  deriving DecidableEq, Repr

/-- The primary key of `payments`. -/
def Payment.Clash (a b : Payment) : Prop := a.paymentHash = b.paymentHash

instance : DecidableRel Payment.Clash := fun a b => by unfold Payment.Clash; infer_instance

instance : Std.Symm Payment.Clash where
  symm _ _ h := Eq.symm h

structure NewPayment where
  paymentHash : String
  direction : PaymentDirection
  status : PaymentStatus
  assetId : Option String
  assetAmount : Option ℕ
  amtMsat : Option ℕ
  payeePubkey : Option String
  deriving DecidableEq, Repr

/-! ## Assets -/

/-- A row of `assets`. -/
structure Asset where
  assetId : String
  schema : String
  lastSyncedAt : Option ℤ
  deriving DecidableEq, Repr

/-- The primary key of `assets`. -/
def Asset.Clash (a b : Asset) : Prop := a.assetId = b.assetId

instance : DecidableRel Asset.Clash := fun a b => by unfold Asset.Clash; infer_instance

instance : Std.Symm Asset.Clash where
  symm _ _ h := Eq.symm h

/-! ## The webhook outbox -/

/-- The body of a transfer event, before it is written out as JSON. -/
structure TransferPayload where
  eventId : ℕ
  eventType : String
  transfer : Transfer
  previousStatus : TransferStatus
  newStatus : TransferStatus
  timestamp : ℤ
  deriving DecidableEq, Repr

/-- The body of a payment event, before it is written out as JSON. -/
structure PaymentPayload where
  eventId : ℕ
  eventType : String
  payment : Payment
  previousStatus : PaymentStatus
  newStatus : PaymentStatus
  timestamp : ℤ
  deriving DecidableEq, Repr

inductive Payload
  | transfer (p : TransferPayload)
  | payment (p : PaymentPayload)
  deriving DecidableEq, Repr

/-- The `(event_id, event_type, payload)` triple handed to a transition. -/
structure NewEvent where
  id : ℕ
  eventType : String
  payload : Payload
  deriving DecidableEq, Repr

/-- A row of `webhook_outbox`, with its rowid. -/
structure OutboxRow where
  rowid : ℕ
  id : ℕ
  eventType : String
  payload : Payload
  attempts : ℕ
  nextAttemptAt : ℤ
  deliveredAt : Option ℤ
  deriving DecidableEq, Repr

/-- The primary key of `webhook_outbox`. -/
def OutboxRow.Clash (a b : OutboxRow) : Prop := a.id = b.id

instance : DecidableRel OutboxRow.Clash := fun a b => by
  unfold OutboxRow.Clash; infer_instance

instance : Std.Symm OutboxRow.Clash where
  symm _ _ h := Eq.symm h

/-- What the dispatcher reads of an outbox row. -/
structure OutboxEvent where
  id : ℕ
  eventType : String
  payload : Payload
  attempts : ℕ
  nextAttemptAt : ℤ
  deriving DecidableEq, Repr

/-! ## Conversions to columns -/

/-- `Option<u64>` to a nullable signed column; what does not fit is `corrupt`. -/
def toColumn (message : String) : Option ℕ → Except StoreError (Option ℕ)
  | none => .ok none
  | some v => if v ≤ i64Max then .ok (some v) else .error (.corrupt message)

def tsToDb : Option ℕ → Except StoreError (Option ℕ) :=
  toColumn "expiration_timestamp out of range"

def amtToDb : Option ℕ → Except StoreError (Option ℕ) :=
  toColumn "amount out of range"

/-- The values a signed column can hold. -/
def FitsColumn (v : Option ℕ) : Prop := ∀ n, v = some n → n ≤ i64Max

instance : DecidablePred FitsColumn := fun v =>
  match v with
  | none => isTrue fun _ h => nomatch h
  | some n => decidable_of_iff (n ≤ i64Max) (by simp [FitsColumn])

theorem toColumn_eq_ok {message : String} {v c : Option ℕ} :
    toColumn message v = .ok c ↔ FitsColumn v ∧ c = v := by
  cases v with
  | none => simp [toColumn, FitsColumn, eq_comm]
  | some n =>
      by_cases h : n ≤ i64Max
      · simp [toColumn, FitsColumn, h, eq_comm]
      · simp [toColumn, FitsColumn, h]

theorem toColumn_of_fits {message : String} {v : Option ℕ} (h : FitsColumn v) :
    toColumn message v = .ok v :=
  toColumn_eq_ok.mpr ⟨h, rfl⟩

end Companion
