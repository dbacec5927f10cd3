import Companion.System

/-!
# What the outbox says

The announcements of one transfer, or of one payment, are the types of its events
in the order of the outbox.  Bookkeeping of deliveries does not change them, and a
planned transition appends the one event of the status it enters.

## Main definitions

* `transferOut`, `paymentOut` — what a transition announces.
* `Db.transferEvents`, `Db.paymentEvents` — the event types of one row.
-/

set_option autoImplicit false

namespace Companion
open Lib

/-- The type of an outbox row, when it is about the transfer `id`. -/
def OutboxRow.transferEvent? (id : ℕ) (r : OutboxRow) : Option String :=
  match r.payload with
  | .transfer p => if p.transfer.id = id then some r.eventType else none
  | .payment _ => none

/-- The type of an outbox row, when it is about the payment `paymentHash`. -/
def OutboxRow.paymentEvent? (paymentHash : String) (r : OutboxRow) : Option String :=
  match r.payload with
  | .transfer _ => none
  | .payment p => if p.payment.paymentHash = paymentHash then some r.eventType else none

/-- What entering a status announces of a transfer. -/
def transferOut (dst : TransferStatus) : List String :=
  (EventType.of dst).toList.map EventType.asStr

/-- What a payment transition announces: nothing on a restart, else the status it
enters. -/
def paymentOut (src dst : PaymentStatus) : List String :=
  if src.terminal then [] else (PaymentEventType.of dst).toList.map PaymentEventType.asStr

namespace Db

/-- The types of the events of the transfer `id`, in outbox order. -/
def transferEvents (db : Db) (id : ℕ) : List String :=
  db.webhookOutbox.rows.filterMap (OutboxRow.transferEvent? id)

/-- The types of the events of the payment `paymentHash`, in outbox order. -/
def paymentEvents (db : Db) (paymentHash : String) : List String :=
  db.webhookOutbox.rows.filterMap (OutboxRow.paymentEvent? paymentHash)

theorem transferEvents_of_outbox {db db' : Db} (h : db'.webhookOutbox = db.webhookOutbox)
    (id : ℕ) : db'.transferEvents id = db.transferEvents id := by
  rw [transferEvents, h, transferEvents]

theorem paymentEvents_of_outbox {db db' : Db} (h : db'.webhookOutbox = db.webhookOutbox)
    (paymentHash : String) : db'.paymentEvents paymentHash = db.paymentEvents paymentHash := by
  rw [paymentEvents, h, paymentEvents]

/-! ## Deliveries -/

@[simp] theorem transferEvents_recordAttempt (db : Db) (k : ℕ) (next : ℤ) (id : ℕ) :
    (db.recordAttempt k next).transferEvents id = db.transferEvents id :=
  Table.filterMap_replace fun _ => rfl

@[simp] theorem transferEvents_markDelivered (db : Db) (k : ℕ) (now : ℤ) (id : ℕ) :
    (db.markDelivered k now).transferEvents id = db.transferEvents id :=
  Table.filterMap_replace fun _ => rfl

@[simp] theorem paymentEvents_recordAttempt (db : Db) (k : ℕ) (next : ℤ) (hash : String) :
    (db.recordAttempt k next).paymentEvents hash = db.paymentEvents hash :=
  Table.filterMap_replace fun _ => rfl

@[simp] theorem paymentEvents_markDelivered (db : Db) (k : ℕ) (now : ℤ) (hash : String) :
    (db.markDelivered k now).paymentEvents hash = db.paymentEvents hash :=
  Table.filterMap_replace fun _ => rfl

/-! ## Transitions -/

variable {db db' : Db} {event : Option NewEvent} {now : ℤ}

/-- A planned transition of a transfer announces the status it enters, to the
transfer itself and to no other. -/
theorem transferEvents_planned {k : ℕ} {src dst : TransferStatus}
    (hp : PlannedTransition k src dst event)
    (hO : db'.webhookOutbox.rows =
      db.webhookOutbox.rows ++ eventRows db.webhookOutbox now event) (id : ℕ) :
    db'.transferEvents id = db.transferEvents id ++
      if id = k then transferOut dst else [] := by
  rcases hp with ⟨-, -, eventId, row, t, rfl, rfl⟩
  rw [transferEvents, hO, List.filterMap_append, transferEvents, transferOut]
  congr 1
  cases EventType.of dst with
  | none => simp [transitionEvent, eventRows]
  | some e =>
      by_cases hid : row.id = id
      · simp [transitionEvent, eventRows, outboxRow, OutboxRow.transferEvent?, eventPayload, hid]
      · simp [transitionEvent, eventRows, outboxRow, OutboxRow.transferEvent?, eventPayload, hid,
          Ne.symm hid]

/-- A planned transition of a transfer announces nothing about payments. -/
theorem paymentEvents_planned {k : ℕ} {src dst : TransferStatus}
    (hp : PlannedTransition k src dst event)
    (hO : db'.webhookOutbox.rows =
      db.webhookOutbox.rows ++ eventRows db.webhookOutbox now event) (hash : String) :
    db'.paymentEvents hash = db.paymentEvents hash := by
  rcases hp with ⟨-, -, eventId, row, t, rfl, rfl⟩
  rw [paymentEvents, hO, List.filterMap_append, paymentEvents]
  cases EventType.of dst <;>
    simp [transitionEvent, eventRows, outboxRow, OutboxRow.paymentEvent?]

/-- A planned transition of a payment announces it to that payment and to no other. -/
theorem paymentEvents_plannedPayment {k : String} {src dst : PaymentStatus}
    (hp : PlannedPayment k src dst event)
    (hO : db'.webhookOutbox.rows =
      db.webhookOutbox.rows ++ eventRows db.webhookOutbox now event) (hash : String) :
    db'.paymentEvents hash = db.paymentEvents hash ++
      if hash = k then paymentOut src dst else [] := by
  rw [paymentEvents, hO, List.filterMap_append, paymentEvents]
  congr 1
  rcases hp with ⟨hre, rfl, rfl⟩ | ⟨hterm, -, eventId, row, t, rfl, rfl⟩
  · simp [eventRows, paymentOut, terminal_of_restartable hre]
  · cases hof : PaymentEventType.of dst with
    | none => simp [paymentTransitionEvent, eventRows, paymentOut, hterm, hof]
    | some e =>
        by_cases hid : row.paymentHash = hash
        · simp [paymentTransitionEvent, eventRows, outboxRow, OutboxRow.paymentEvent?,
            paymentEventPayload, paymentOut, hterm, hof, hid]
        · simp [paymentTransitionEvent, eventRows, outboxRow, OutboxRow.paymentEvent?,
            paymentEventPayload, hid, Ne.symm hid]

/-- A planned transition of a payment announces nothing about transfers. -/
theorem transferEvents_plannedPayment {k : String} {src dst : PaymentStatus}
    (hp : PlannedPayment k src dst event)
    (hO : db'.webhookOutbox.rows =
      db.webhookOutbox.rows ++ eventRows db.webhookOutbox now event) (id : ℕ) :
    db'.transferEvents id = db.transferEvents id := by
  rw [transferEvents, hO, List.filterMap_append, transferEvents]
  rcases hp with ⟨-, -, rfl⟩ | ⟨-, -, eventId, row, t, rfl, rfl⟩
  · simp [eventRows]
  · cases PaymentEventType.of dst <;>
      simp [paymentTransitionEvent, eventRows, outboxRow, OutboxRow.transferEvent?]

end Db
end Companion
