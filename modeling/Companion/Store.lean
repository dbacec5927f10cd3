import Companion.Rows
import Mathlib.Data.List.MinMax
import Mathlib.Data.List.Sort
import Mathlib.Data.List.Dedup
import Mathlib.Data.String.Basic

/-!
# The store

The operations of `Store`, each a function from the database to an answer and
the database it commits.  An operation that fails commits nothing, so an error
carries no database.  Beside each operation stands the lemma that says what it
can do; nothing later unfolds one.

`id` arguments are the identifiers `Uuid::new_v4` draws inside the operation.

## Main definitions

* `Db` — the tables.
* `Db.insertTransfer`, `Db.upsertObserved`, `Db.applyTransition`,
  `Db.upsertPayment`, `Db.applyPaymentTransition`, `Db.upsertAssets` — the writes
  to the mirror.
* `Db.undeliveredEvents`, `Db.parkedEventsCount`, `Db.recordAttempt`,
  `Db.markDelivered` — the outbox as the dispatcher sees it.
-/

set_option autoImplicit false

namespace Companion
open Lib

/-- The single row of `node_state`. -/
structure NodeRow where
  state : NodeState
  updatedAt : ℤ
  lastFullSyncAt : Option ℤ
  paymentsBaselineAt : Option ℤ
  deriving DecidableEq, Repr

/-- The database. -/
structure Db where
  transfers : Table Transfer Transfer.Clash
  assets : Table Asset Asset.Clash
  payments : Table Payment Payment.Clash
  nodeState : NodeRow
  webhookOutbox : Table OutboxRow OutboxRow.Clash

/-! ## The rows the operations write -/

/-- The row a hook inserts. -/
def NewTransfer.row (t : NewTransfer) (id : ℕ) (now : ℤ) : Transfer where
  id := id
  rlnIdx := none
  assetId := t.assetId
  kind := t.kind
  status := t.status
  recipientId := t.recipientId
  txid := t.txid
  batchTransferIdx := t.batchTransferIdx
  invoice := t.invoice
  expirationTimestamp := t.expirationTimestamp
  createdAt := now
  updatedAt := now
  lastSeenAt := none
  settledAt := none

/-- What a hook's insert makes of the row that already has its `recipient_id`. -/
def NewTransfer.merge (t : NewTransfer) (now : ℤ) (r : Transfer) : Transfer :=
  { r with
    invoice := t.invoice
    batchTransferIdx := t.batchTransferIdx
    expirationTimestamp := t.expirationTimestamp.or r.expirationTimestamp
    updatedAt := now }

/-- The row a sync inserts for a transfer it has not seen before. -/
def Observed.row (o : Observed) (id : ℕ) (now : ℤ) : Transfer where
  id := id
  rlnIdx := some o.rlnIdx
  assetId := o.assetId
  kind := some o.kind
  status := o.status
  recipientId := o.recipientId
  txid := o.txid
  batchTransferIdx := none
  invoice := none
  expirationTimestamp := o.expirationTimestamp
  createdAt := now
  updatedAt := now
  lastSeenAt := some now
  settledAt := none

/-- What a sync makes of the row it matched. -/
def Observed.merge (o : Observed) (now : ℤ) (r : Transfer) : Transfer :=
  { r with
    rlnIdx := some o.rlnIdx
    assetId := o.assetId.or r.assetId
    kind := some o.kind
    txid := o.txid.or r.txid
    expirationTimestamp := o.expirationTimestamp.or r.expirationTimestamp
    lastSeenAt := some now }

/-- The row after a committed transition to `dst`. -/
def Transfer.advance (dst : TransferStatus) (now : ℤ) (r : Transfer) : Transfer :=
  { r with
    status := dst
    updatedAt := now
    settledAt := if dst = .settled then some now else r.settledAt }

def NewPayment.row (p : NewPayment) (lastSeenAt : Option ℤ) (now : ℤ) : Payment where
  paymentHash := p.paymentHash
  direction := p.direction
  status := p.status
  assetId := p.assetId
  assetAmount := p.assetAmount
  amtMsat := p.amtMsat
  payeePubkey := p.payeePubkey
  createdAt := now
  updatedAt := now
  lastSeenAt := lastSeenAt

/-- What an upsert makes of the row that already has its hash: everything but the
status and the creation time. -/
def NewPayment.merge (p : NewPayment) (lastSeenAt : Option ℤ) (r : Payment) : Payment :=
  { r with
    direction := p.direction
    assetId := p.assetId.or r.assetId
    assetAmount := p.assetAmount.or r.assetAmount
    amtMsat := p.amtMsat.or r.amtMsat
    payeePubkey := p.payeePubkey.or r.payeePubkey
    lastSeenAt := lastSeenAt.or r.lastSeenAt }

def Payment.advance (dst : PaymentStatus) (now : ℤ) (r : Payment) : Payment :=
  { r with status := dst, updatedAt := now }

def OutboxRow.event (r : OutboxRow) : OutboxEvent :=
  ⟨r.id, r.eventType, r.payload, r.attempts, r.nextAttemptAt⟩

theorem Transfer.clash_of_id {a b : Transfer} (h : a.id = b.id) : a.Clash b := Or.inl h

namespace Db

/-- The database the migrations create. -/
def migrated : Db where
  transfers := Table.empty
  assets := Table.empty
  payments := Table.empty
  nodeState := ⟨.unknown, 0, none, none⟩
  webhookOutbox := Table.empty

/-! ## Lookups -/

def transfer? (db : Db) (id : ℕ) : Option Transfer := db.transfers.get? Transfer.id id

def payment? (db : Db) (paymentHash : String) : Option Payment :=
  db.payments.get? Payment.paymentHash paymentHash

/-- The status column of the payment with this hash. -/
def paymentStatus? (db : Db) (paymentHash : String) : Option PaymentStatus :=
  (db.payment? paymentHash).map Payment.status

theorem transfer?_eq_some {db : Db} {id : ℕ} {r : Transfer} :
    db.transfer? id = some r ↔ r ∈ db.transfers.rows ∧ r.id = id :=
  Table.get?_eq_some Transfer.id fun _ _ => Transfer.clash_of_id

/-- A row that clashes with nothing has a new identifier. -/
theorem transfer?_eq_none {db : Db} {r : Transfer} (h : ∀ a ∈ db.transfers.rows, ¬ a.Clash r) :
    db.transfer? r.id = none := by
  rw [transfer?, Table.get?_eq_none]
  intro a ha hid
  exact h a ha (Transfer.clash_of_id hid)

theorem payment?_eq_some {db : Db} {h : String} {r : Payment} :
    db.payment? h = some r ↔ r ∈ db.payments.rows ∧ r.paymentHash = h :=
  Table.get?_eq_some Payment.paymentHash fun _ _ h => h

/-! ## The outbox insert of a transition -/

/-- The row an event becomes; SQLite gives it the next rowid. -/
def outboxRow (outbox : Table OutboxRow OutboxRow.Clash) (event : NewEvent) (now : ℤ) :
    OutboxRow where
  rowid := outbox.rows.length + 1
  id := event.id
  eventType := event.eventType
  payload := event.payload
  attempts := 0
  nextAttemptAt := now
  deliveredAt := none

/-- The rows an optional event adds to the outbox. -/
def eventRows (outbox : Table OutboxRow OutboxRow.Clash) (now : ℤ) :
    Option NewEvent → List OutboxRow
  | none => []
  | some event => [outboxRow outbox event now]

/-- `INSERT INTO webhook_outbox` when the transition carries an event. -/
def enqueue (outbox : Table OutboxRow OutboxRow.Clash) (event : Option NewEvent) (now : ℤ) :
    Except StoreError (Table OutboxRow OutboxRow.Clash) :=
  match event with
  | none => .ok outbox
  | some e =>
      match outbox.insert? (outboxRow outbox e now) with
      | some outbox' => .ok outbox'
      | none => .error .db

theorem enqueue_ok {outbox outbox' : Table OutboxRow OutboxRow.Clash} {event : Option NewEvent}
    {now : ℤ} (h : enqueue outbox event now = .ok outbox') :
    outbox'.rows = outbox.rows ++ eventRows outbox now event := by
  cases event with
  | none => cases h; simp [eventRows]
  | some e =>
      simp only [enqueue] at h
      split at h
      · next o ho => cases h; exact (Table.insert?_eq_some.mp ho).2
      · cases h

/-- An event with a new identifier is enqueued. -/
theorem enqueue_isOk {outbox : Table OutboxRow OutboxRow.Clash} {event : Option NewEvent}
    (h : ∀ e, event = some e → ∀ row ∈ outbox.rows, row.id ≠ e.id) (now : ℤ) :
    ∃ outbox', enqueue outbox event now = .ok outbox' := by
  cases event with
  | none => exact ⟨outbox, rfl⟩
  | some e =>
      cases hi : outbox.insert? (outboxRow outbox e now) with
      | some outbox' => exact ⟨outbox', by simp only [enqueue, hi]⟩
      | none =>
          obtain ⟨row, hrow, hc⟩ := Table.insert?_eq_none.mp hi
          exact absurd hc (h e rfl row hrow)

/-! ## Transfers -/

/-- The row with this id, after a write. -/
def fetchTransfer (transfers : Table Transfer Transfer.Clash) (id : ℕ) :
    Except StoreError Transfer :=
  match transfers.get? Transfer.id id with
  | some r => .ok r
  | none => .error (.corrupt s!"transfer {id} vanished")

/-- `Store::insert_transfer`: insert, or on a conflict on `recipient_id` merge into
the row that has it. -/
def insertTransfer (db : Db) (id : ℕ) (t : NewTransfer) (now : ℤ) :
    Except StoreError (Transfer × Db) := do
  let _ ← tsToDb t.expirationTimestamp
  match db.transfers.rows.find? fun r => sqlEq r.recipientId t.recipientId with
  | some r =>
      let transfers := db.transfers.modify Transfer.id r.id (t.merge now)
        fun _ _ => ⟨fun h => h, fun h => h⟩
      let row ← fetchTransfer transfers r.id
      return (row, { db with transfers })
  | none =>
      match db.transfers.insert? (t.row id now) with
      | some transfers =>
          let row ← fetchTransfer transfers id
          return (row, { db with transfers })
      | none => throw .db

theorem fetchTransfer_ok {transfers : Table Transfer Transfer.Clash} {id : ℕ} {r : Transfer} :
    fetchTransfer transfers id = .ok r ↔ r ∈ transfers.rows ∧ r.id = id := by
  rw [← Table.get?_eq_some Transfer.id fun _ _ => Transfer.clash_of_id]
  unfold fetchTransfer
  cases transfers.get? Transfer.id id <;> simp

theorem fetchTransfer_replaced {T T' : Table Transfer Transfer.Clash} {r row : Transfer}
    {f : Transfer → Transfer} (hr : r ∈ T.rows)
    (hrows : T'.rows = Table.replace Transfer.id r.id f T.rows)
    (hf : fetchTransfer T' r.id = .ok row) : row = f r := by
  obtain ⟨hrow, hid⟩ := fetchTransfer_ok.mp hf
  rw [hrows] at hrow
  obtain ⟨a, ha, hk, rfl⟩ | ⟨-, hne⟩ := Table.mem_replace.mp hrow
  · rw [T.eq_of_clash ha hr (Transfer.clash_of_id hk)]
  · exact absurd hid hne

theorem fetchTransfer_appended {T T' : Table Transfer Transfer.Clash} {r row : Transfer}
    (hclash : ∀ a ∈ T.rows, ¬ a.Clash r) (hrows : T'.rows = T.rows ++ [r])
    (hf : fetchTransfer T' r.id = .ok row) : row = r := by
  obtain ⟨hrow, hid⟩ := fetchTransfer_ok.mp hf
  rw [hrows] at hrow
  obtain hold | hnew := List.mem_append.mp hrow
  · exact absurd (Transfer.clash_of_id hid) (hclash _ hold)
  · exact List.mem_singleton.mp hnew

/-- The two ways an insert commits: merged into the row with its recipient, or
appended. -/
theorem insertTransfer_ok {db db' : Db} {id : ℕ} {t : NewTransfer} {now : ℤ} {row : Transfer}
    (h : db.insertTransfer id t now = .ok (row, db')) :
    ∃ T, db' = { db with transfers := T } ∧
      ((∃ r ∈ db.transfers.rows, sqlEq r.recipientId t.recipientId = true ∧
          T.rows = Table.replace Transfer.id r.id (t.merge now) db.transfers.rows ∧
          row = t.merge now r) ∨
        ((∀ r ∈ db.transfers.rows, ¬ r.Clash (t.row id now)) ∧
          T.rows = db.transfers.rows ++ [t.row id now] ∧ row = t.row id now)) := by
  unfold insertTransfer at h
  rcases hts : tsToDb t.expirationTimestamp with e | c
  · simp [hts, bind, Except.bind] at h
  simp only [hts, bind, Except.bind] at h
  split at h
  · next r hr =>
    have hmem := List.mem_of_find?_eq_some hr
    split at h
    · cases h
    · next row' hf =>
      cases h
      exact ⟨_, rfl, Or.inl ⟨r, hmem, by simpa using List.find?_some hr, rfl,
        fetchTransfer_replaced hmem rfl hf⟩⟩
  · split at h
    · next T hT =>
      split at h
      · cases h
      · next row' hf =>
        cases h
        rcases Table.insert?_eq_some.mp hT with ⟨hclash, hrows⟩
        exact ⟨_, rfl, Or.inr ⟨hclash, hrows, fetchTransfer_appended hclash hrows hf⟩⟩
    · cases h

/-- The rows that belong to an observed transfer: bound to its index, or unbound
and sharing its recipient or its transaction and asset. -/
def matchesObserved (o : Observed) (r : Transfer) : Bool :=
  sqlEq r.rlnIdx (some o.rlnIdx) ||
    (r.rlnIdx.isNone &&
      (sqlEq r.recipientId o.recipientId ||
        (sqlEq r.txid o.txid && sqlEq r.assetId o.assetId)))

/-- The `ORDER BY` of the match: bound first, then by recipient, then the rest. -/
def matchRank (o : Observed) (r : Transfer) : ℕ :=
  if sqlEq r.rlnIdx (some o.rlnIdx) then 0
  else if sqlEq r.recipientId o.recipientId then 1
  else 2

/-- The row an observation is merged into. -/
def findObserved (db : Db) (o : Observed) : Option Transfer :=
  (db.transfers.rows.filter (matchesObserved o)).argmin (matchRank o)

/-- `Store::upsert_observed`: merge into the matching row or insert a new one; the
status of an existing row is left alone. -/
def upsertObserved (db : Db) (id : ℕ) (o : Observed) (now : ℤ) :
    Except StoreError (Transfer × Db) := do
  match db.findObserved o with
  | some r =>
      let _ ← tsToDb o.expirationTimestamp
      match db.transfers.update? Transfer.id r.id (o.merge now) with
      | some transfers =>
          let row ← fetchTransfer transfers r.id
          return (row, { db with transfers })
      | none => throw .db
  | none =>
      let _ ← tsToDb o.expirationTimestamp
      match db.transfers.insert? (o.row id now) with
      | some transfers =>
          let row ← fetchTransfer transfers id
          return (row, { db with transfers })
      | none => throw .db

theorem findObserved_some {db : Db} {o : Observed} {r : Transfer}
    (h : db.findObserved o = some r) :
    r ∈ db.transfers.rows ∧ matchesObserved o r = true ∧
      ∀ r' ∈ db.transfers.rows, matchesObserved o r' = true → matchRank o r ≤ matchRank o r' := by
  have hmem := List.mem_filter.mp (List.argmin_mem h)
  exact ⟨hmem.1, hmem.2, fun r' hr' hm =>
    List.le_of_mem_argmin (List.mem_filter.mpr ⟨hr', hm⟩) h⟩

theorem findObserved_none {db : Db} {o : Observed} :
    db.findObserved o = none ↔ ∀ r ∈ db.transfers.rows, matchesObserved o r = false := by
  simp [findObserved, List.filter_eq_nil_iff]

/-- A matched row is bound to the observed index or to none. -/
theorem rlnIdx_of_matches {o : Observed} {r : Transfer} (h : matchesObserved o r = true) :
    r.rlnIdx = some o.rlnIdx ∨ r.rlnIdx = none := by
  simp only [matchesObserved, Bool.or_eq_true, Bool.and_eq_true, sqlEq_some_right,
    Option.isNone_iff_eq_none] at h
  exact h.imp id And.left

theorem index_of_matches {o : Observed} {r : Transfer} {i : ℤ}
    (h : matchesObserved o r = true) (hidx : r.rlnIdx = some i) : i = o.rlnIdx := by
  simpa [hidx] using rlnIdx_of_matches h

/-- The two ways an observation commits: merged into the row it matches, or
appended. -/
theorem upsertObserved_ok {db db' : Db} {id : ℕ} {o : Observed} {now : ℤ} {row : Transfer}
    (h : db.upsertObserved id o now = .ok (row, db')) :
    ∃ T, db' = { db with transfers := T } ∧
      ((∃ r, db.findObserved o = some r ∧ row = o.merge now r ∧
          T.rows = Table.replace Transfer.id r.id (o.merge now) db.transfers.rows) ∨
        (db.findObserved o = none ∧ row = o.row id now ∧
          (∀ r ∈ db.transfers.rows, ¬ r.Clash (o.row id now)) ∧
          T.rows = db.transfers.rows ++ [o.row id now])) := by
  unfold upsertObserved at h
  rcases hts : tsToDb o.expirationTimestamp with e | c
  · cases hf : db.findObserved o <;> simp [hf, hts, bind, Except.bind] at h
  simp only [hts, bind, Except.bind] at h
  split at h
  · next r hr =>
    have hmem := (findObserved_some hr).1
    split at h
    · next T hT =>
      have hrows := Table.rows_update? hT
      split at h
      · cases h
      · next row' hf =>
        cases h
        exact ⟨T, rfl, Or.inl ⟨r, hr, fetchTransfer_replaced hmem hrows hf, hrows⟩⟩
    · cases h
  · next hr =>
    split at h
    · next T hT =>
      rcases Table.insert?_eq_some.mp hT with ⟨hclash, hrows⟩
      split at h
      · cases h
      · next row' hf =>
        cases h
        exact ⟨T, rfl, Or.inr ⟨hr, fetchTransfer_appended hclash hrows hf, hclash, hrows⟩⟩
    · cases h

/-- Only an expiration that fits commits. -/
theorem fits_of_upsertObserved {db : Db} {id : ℕ} {o : Observed} {now : ℤ} {out : Transfer × Db}
    (h : db.upsertObserved id o now = .ok out) : FitsColumn o.expirationTimestamp := by
  unfold upsertObserved at h
  rcases hts : tsToDb o.expirationTimestamp with e | c
  · cases hf : db.findObserved o <;> simp [hf, hts, bind, Except.bind] at h
  · exact (toColumn_eq_ok.mp hts).1

/-- The row bound to an index is the one its observations are merged into. -/
theorem findObserved_of_bound {db : Db} {o : Observed} {r : Transfer}
    (hr : r ∈ db.transfers.rows) (hidx : r.rlnIdx = some o.rlnIdx) :
    db.findObserved o = some r := by
  have hmatch : matchesObserved o r = true := by simp [matchesObserved, hidx, sqlEq]
  cases hf : db.findObserved o with
  | none => simp [findObserved_none.mp hf r hr] at hmatch
  | some a =>
    obtain ⟨ha, -, hmin⟩ := findObserved_some hf
    have hrank := hmin r hr hmatch
    have hbound : sqlEq a.rlnIdx (some o.rlnIdx) = true := by
      by_contra hno
      have hfirst : matchRank o r = 0 := by simp [matchRank, hidx, sqlEq]
      have hlater : 0 < matchRank o a := by
        rw [matchRank, if_neg hno]
        split <;> decide
      omega
    rw [db.transfers.eq_of_clash ha hr (Or.inr (Or.inl (by rw [hidx]; exact hbound)))]

theorem eq_of_found {db : Db} {o : Observed} {r a : Transfer} (h : db.findObserved o = some r)
    (ha : a ∈ db.transfers.rows) (hidx : a.rlnIdx = some o.rlnIdx) : r = a :=
  Option.some.inj (h.symm.trans (findObserved_of_bound ha hidx))

/-- Where the row that is found is bound to no index, none is bound to the observed one. -/
theorem unbound_of_found {db : Db} {o : Observed} {r : Transfer} (h : db.findObserved o = some r)
    (hfree : r.rlnIdx = none) : ∀ a ∈ db.transfers.rows, a.rlnIdx ≠ some o.rlnIdx := by
  intro a ha hidx
  rw [eq_of_found h ha hidx, hidx] at hfree
  cases hfree

/-- The transfer can be mirrored: some row matches it, or no row has its recipient. -/
def Mirrorable (db : Db) (o : Observed) : Prop :=
  (∃ r ∈ db.transfers.rows, matchesObserved o r = true) ∨
    ∀ r ∈ db.transfers.rows, sqlEq r.recipientId o.recipientId = false

/-- A matched row takes the observed index without clashing: no other row has it, or
it would have been matched before. -/
theorem update_observed_isSome {db : Db} {o : Observed} {r : Transfer}
    (h : db.findObserved o = some r) (now : ℤ) :
    (db.transfers.update? Transfer.id r.id (o.merge now)).isSome := by
  rcases findObserved_some h with ⟨hr, -, hmin⟩
  refine Table.update?_isSome (fun _ _ => Transfer.clash_of_id) ?_
  intro a ha hid b hb hne hclash
  have har : a = r := db.transfers.eq_of_clash ha hr (Transfer.clash_of_id hid)
  subst har
  rcases hclash with hclash | hclash | hclash
  · exact hne hclash.symm
  · have hbidx : sqlEq b.rlnIdx (some o.rlnIdx) = true := by
      rw [sqlEq_comm]
      exact hclash
    have hbrank : matchRank o b = 0 := if_pos hbidx
    have hmatch : matchesObserved o b = true := by simp [matchesObserved, hbidx]
    have hrank := hmin b hb hmatch
    have haidx : sqlEq a.rlnIdx (some o.rlnIdx) = true := by
      by_contra hno
      rw [hbrank, matchRank, if_neg hno] at hrank
      split at hrank <;> omega
    rcases sqlEq_iff.mp haidx with ⟨i, hai, hi⟩
    rcases sqlEq_iff.mp hbidx with ⟨j, hbj, hj⟩
    have hij : i = j := Option.some.inj (hi.symm.trans hj)
    have hab : a = b :=
      db.transfers.eq_of_clash ha hb (Or.inr (Or.inl (sqlEq_iff.mpr ⟨i, hai, hij ▸ hbj⟩)))
    exact hne (hab ▸ rfl)
  · have hrec : sqlEq a.recipientId b.recipientId = true := hclash
    have hab : a = b := db.transfers.eq_of_clash ha hb (Or.inr (Or.inr hrec))
    exact hne (hab ▸ rfl)

/-- With an expiration that fits and a new identifier, an observation commits exactly
when the transfer can be mirrored. -/
theorem upsertObserved_isOk_iff {db : Db} {id : ℕ} {o : Observed}
    (hid : ∀ r ∈ db.transfers.rows, r.id ≠ id) (hfit : FitsColumn o.expirationTimestamp)
    (now : ℤ) :
    (∃ row db', db.upsertObserved id o now = .ok (row, db')) ↔ db.Mirrorable o := by
  have hts : tsToDb o.expirationTimestamp = .ok o.expirationTimestamp := toColumn_of_fits hfit
  cases hf : db.findObserved o with
  | some r =>
      rcases findObserved_some hf with ⟨hr, hmatch, -⟩
      refine iff_of_true ?_ (Or.inl ⟨r, hr, hmatch⟩)
      rcases Option.isSome_iff_exists.mp (update_observed_isSome hf now) with ⟨T, hT⟩
      have hrow : fetchTransfer T r.id = .ok (o.merge now r) := by
        rw [fetchTransfer_ok, Table.rows_update? hT, Table.mem_replace]
        exact ⟨Or.inl ⟨r, hr, rfl, rfl⟩, rfl⟩
      simp only [upsertObserved, hf, hts, hT, hrow, bind, Except.bind, pure, Except.pure]
      exact ⟨_, _, rfl⟩
  | none =>
      have hno := findObserved_none.mp hf
      have hfree : db.Mirrorable o ↔ ∀ r ∈ db.transfers.rows, ¬ r.Clash (o.row id now) := by
        constructor
        · intro h r hr hclash
          rcases hclash with hclash | hclash | hclash
          · exact hid r hr hclash
          · have hm := hno r hr
            simp only [matchesObserved, Bool.or_eq_false_iff] at hm
            have hidx : sqlEq r.rlnIdx (some o.rlnIdx) = true := hclash
            rw [hm.1] at hidx
            cases hidx
          · rcases h with ⟨a, ha, hm⟩ | h
            · rw [hno a ha] at hm
              cases hm
            · have hrec : sqlEq r.recipientId o.recipientId = true := hclash
              rw [h r hr] at hrec
              cases hrec
        · intro h
          refine Or.inr fun r hr => ?_
          by_contra hne
          have hrec : sqlEq r.recipientId o.recipientId = true := by simpa using hne
          exact h r hr (Or.inr (Or.inr hrec))
      rw [hfree]
      cases hi : db.transfers.insert? (o.row id now) with
      | some T =>
          have hT := Table.insert?_eq_some.mp hi
          have hrow : fetchTransfer T id = .ok (o.row id now) := by
            rw [fetchTransfer_ok, hT.2]
            exact ⟨List.mem_append_right _ (List.mem_singleton_self _), rfl⟩
          refine iff_of_true ?_ hT.1
          simp only [upsertObserved, hf, hts, hi, hrow, bind, Except.bind, pure, Except.pure]
          exact ⟨_, _, rfl⟩
      | none =>
          rcases Table.insert?_eq_none.mp hi with ⟨a, ha, hclash⟩
          refine iff_of_false ?_ fun h => h a ha hclash
          simp only [upsertObserved, hf, hts, hi, bind, Except.bind]
          rintro ⟨row, db', h⟩
          cases h

/-- `Store::apply_transition`: a compare-and-set on the status together with the
insert of its event; `false` when the row no longer has the status `src`. -/
def applyTransition (db : Db) (id : ℕ) (src dst : TransferStatus) (event : Option NewEvent)
    (now : ℤ) : Except StoreError (Bool × Db) := do
  if src = dst then return (false, db)
  match db.transfers.cas? Transfer.id id (fun r => r.status = src) (Transfer.advance dst now)
      fun _ _ => ⟨fun h => h, fun h => h⟩ with
  | none => return (false, db)
  | some transfers =>
      let webhookOutbox ← enqueue db.webhookOutbox event now
      return (true, { db with transfers, webhookOutbox })

/-- A planned transition of the row as it stands goes through, when its event is new. -/
theorem applyTransition_isOk {db : Db} {r : Transfer} {dst : TransferStatus}
    {event : Option NewEvent} (hr : db.transfer? r.id = some r) (hne : r.status ≠ dst)
    (hev : ∀ e, event = some e → ∀ row ∈ db.webhookOutbox.rows, row.id ≠ e.id) (now : ℤ) :
    ∃ db', db.applyTransition r.id r.status dst event now = .ok (true, db') := by
  have hfind : db.transfers.rows.find? (fun a => decide (a.id = r.id)) = some r := hr
  obtain ⟨O, hO⟩ := enqueue_isOk hev now
  simp only [applyTransition, if_neg hne, Table.cas?, hfind, decide_true, if_true, hO, bind,
    Except.bind, pure, Except.pure]
  exact ⟨_, rfl⟩

/-- The rows after one of them has been changed: the changed one and the others. -/
theorem mem_replace_row {db : Db} {r a : Transfer} {f : Transfer → Transfer}
    (hr : r ∈ db.transfers.rows) :
    a ∈ Table.replace Transfer.id r.id f db.transfers.rows ↔
      a = f r ∨ (a ∈ db.transfers.rows ∧ a.id ≠ r.id) := by
  rw [Table.mem_replace]
  apply or_congr_left
  constructor
  · rintro ⟨b, hb, hid, rfl⟩
    rw [db.transfers.eq_of_clash hb hr (Transfer.clash_of_id hid)]
  · intro heq
    exact ⟨r, hr, rfl, heq⟩

/-- A transition either does nothing or moves the row that still has the status it
was planned from, together with its event. -/
theorem applyTransition_ok {db db' : Db} {id : ℕ} {src dst : TransferStatus}
    {event : Option NewEvent} {now : ℤ} {b : Bool}
    (h : db.applyTransition id src dst event now = .ok (b, db')) :
    (b = false ∧ db' = db) ∨
      (b = true ∧ src ≠ dst ∧ ∃ r T O, db.transfer? id = some r ∧ r.status = src ∧
        db' = { db with transfers := T, webhookOutbox := O } ∧
        T.rows = Table.replace Transfer.id id (Transfer.advance dst now) db.transfers.rows ∧
        O.rows = db.webhookOutbox.rows ++ eventRows db.webhookOutbox now event) := by
  unfold applyTransition at h
  by_cases heq : src = dst
  · rw [if_pos heq] at h
    cases h
    exact Or.inl ⟨rfl, rfl⟩
  · simp only [heq, if_false, bind, Except.bind] at h
    split at h
    · cases h
      exact Or.inl ⟨rfl, rfl⟩
    · next T hT =>
      rcases Table.cas?_eq_some hT with ⟨r, hr, hsrc, hrows⟩
      split at h
      · cases h
      · next O hO =>
        cases h
        exact Or.inr ⟨rfl, heq, r, T, O, hr, by simpa using hsrc, rfl, hrows, enqueue_ok hO⟩

/-- The rows of `ORDER BY created_at, rowid`. -/
def byCreation (rows : List Transfer) : List Transfer :=
  rows.insertionSort fun a b => a.createdAt ≤ b.createdAt

/-- `Store::pending_transfers`. -/
def pendingTransfers (db : Db) : List Transfer :=
  byCreation (db.transfers.rows.filter fun r => r.status.waiting)

/-- `Store::pending_asset_ids`: the distinct assets of the waiting rows, and
whether some waiting row has none. -/
def pendingAssetIds (db : Db) : List String × Bool :=
  let ids := (db.transfers.rows.filter fun r => r.status.waiting).map Transfer.assetId
  ((ids.filterMap id).dedup.insertionSort (· ≤ ·), ids.any Option.isNone)

/-- `Store::expired_fallible`. -/
def expiredFallible (db : Db) (now : ℤ) : List Transfer :=
  byCreation (db.transfers.rows.filter fun r =>
    (match r.expirationTimestamp with
      | some e => ((e : ℤ) < now : Bool)
      | none => false) && r.status.fallible)

theorem mem_expiredFallible {db : Db} {now : ℤ} {r : Transfer} :
    r ∈ db.expiredFallible now ↔ r ∈ db.transfers.rows ∧ r.status.fallible = true ∧
      ∃ e, r.expirationTimestamp = some e ∧ (e : ℤ) < now := by
  simp only [expiredFallible, byCreation, List.mem_insertionSort, List.mem_filter,
    Bool.and_eq_true]
  refine and_congr_right fun _ => ?_
  rw [and_comm]
  refine and_congr_right fun _ => ?_
  cases r.expirationTimestamp <;> simp

/-! ## Payments -/

/-- `Store::upsert_payment`: insert, or on a conflict on the hash merge everything
but the status. -/
def upsertPayment (db : Db) (p : NewPayment) (lastSeenAt : Option ℤ) (now : ℤ) :
    Except StoreError (Payment × Db) := do
  let _ ← amtToDb p.assetAmount
  let _ ← amtToDb p.amtMsat
  match db.payment? p.paymentHash with
  | some r =>
      let payments := db.payments.modify Payment.paymentHash p.paymentHash
        (p.merge lastSeenAt) fun _ _ => ⟨fun h => h, fun h => h⟩
      return (p.merge lastSeenAt r, { db with payments })
  | none =>
      match db.payments.insert? (p.row lastSeenAt now) with
      | some payments => return (p.row lastSeenAt now, { db with payments })
      | none => throw .db

/-- `Store::apply_payment_transition`. -/
def applyPaymentTransition (db : Db) (paymentHash : String) (src dst : PaymentStatus)
    (event : Option NewEvent) (now : ℤ) : Except StoreError (Bool × Db) := do
  if src = dst then return (false, db)
  match db.payments.cas? Payment.paymentHash paymentHash (fun r => r.status = src)
      (Payment.advance dst now) fun _ _ => ⟨fun h => h, fun h => h⟩ with
  | none => return (false, db)
  | some payments =>
      let webhookOutbox ← enqueue db.webhookOutbox event now
      return (true, { db with payments, webhookOutbox })

/-- The two ways an upsert commits: merged into the row with its hash, or
appended. -/
theorem upsertPayment_ok {db db' : Db} {p : NewPayment} {lastSeenAt : Option ℤ} {now : ℤ}
    {row : Payment} (h : db.upsertPayment p lastSeenAt now = .ok (row, db')) :
    ∃ T, db' = { db with payments := T } ∧
      ((∃ r, db.payment? p.paymentHash = some r ∧ row = p.merge lastSeenAt r ∧
          T.rows = Table.replace Payment.paymentHash p.paymentHash (p.merge lastSeenAt)
            db.payments.rows) ∨
        (db.payment? p.paymentHash = none ∧ row = p.row lastSeenAt now ∧
          T.rows = db.payments.rows ++ [p.row lastSeenAt now])) := by
  unfold upsertPayment at h
  rcases h₁ : amtToDb p.assetAmount with e | c₁
  · simp [h₁, bind, Except.bind] at h
  rcases h₂ : amtToDb p.amtMsat with e | c₂
  · simp [h₁, h₂, bind, Except.bind] at h
  simp only [h₁, h₂, bind, Except.bind] at h
  split at h
  · next r hr =>
    cases h
    exact ⟨_, rfl, Or.inl ⟨r, hr, rfl, rfl⟩⟩
  · next hr =>
    split at h
    · next T hT =>
      cases h
      exact ⟨T, rfl, Or.inr ⟨hr, rfl, (Table.insert?_eq_some.mp hT).2⟩⟩
    · cases h

/-- Amounts that fit are all an upsert needs to commit. -/
theorem upsertPayment_isOk {db : Db} {p : NewPayment} (h₁ : FitsColumn p.assetAmount)
    (h₂ : FitsColumn p.amtMsat) (lastSeenAt : Option ℤ) (now : ℤ) :
    ∃ row db', db.upsertPayment p lastSeenAt now = .ok (row, db') := by
  have ha : amtToDb p.assetAmount = .ok p.assetAmount := toColumn_of_fits h₁
  have hm : amtToDb p.amtMsat = .ok p.amtMsat := toColumn_of_fits h₂
  cases hr : db.payment? p.paymentHash with
  | some r => simp [upsertPayment, ha, hm, hr, bind, Except.bind, pure, Except.pure]
  | none =>
      have hnew : ∀ a ∈ db.payments.rows, ¬ a.Clash (p.row lastSeenAt now) :=
        Table.get?_eq_none.mp hr
      cases hi : db.payments.insert? (p.row lastSeenAt now) with
      | none =>
          rcases Table.insert?_eq_none.mp hi with ⟨a, ha', hc⟩
          exact absurd hc (hnew a ha')
      | some T => simp [upsertPayment, ha, hm, hr, hi, bind, Except.bind, pure, Except.pure]

/-- Only amounts that fit commit. -/
theorem fits_of_upsertPayment {db : Db} {p : NewPayment} {lastSeenAt : Option ℤ} {now : ℤ}
    {out : Payment × Db} (h : db.upsertPayment p lastSeenAt now = .ok out) :
    FitsColumn p.assetAmount ∧ FitsColumn p.amtMsat := by
  unfold upsertPayment at h
  rcases h₁ : amtToDb p.assetAmount with e | c₁
  · simp [h₁, bind, Except.bind] at h
  rcases h₂ : amtToDb p.amtMsat with e | c₂
  · simp [h₁, h₂, bind, Except.bind] at h
  exact ⟨(toColumn_eq_ok.mp h₁).1, (toColumn_eq_ok.mp h₂).1⟩

/-- A planned transition of the row as it stands goes through, when its event is new. -/
theorem applyPaymentTransition_isOk {db : Db} {r : Payment} {dst : PaymentStatus}
    {event : Option NewEvent} (hr : db.payment? r.paymentHash = some r) (hne : r.status ≠ dst)
    (hev : ∀ e, event = some e → ∀ row ∈ db.webhookOutbox.rows, row.id ≠ e.id) (now : ℤ) :
    ∃ db', db.applyPaymentTransition r.paymentHash r.status dst event now = .ok (true, db') := by
  have hfind : db.payments.rows.find? (fun a => decide (a.paymentHash = r.paymentHash)) =
      some r := hr
  obtain ⟨O, hO⟩ := enqueue_isOk hev now
  simp only [applyPaymentTransition, if_neg hne, Table.cas?, hfind, decide_true, if_true, hO,
    bind, Except.bind, pure, Except.pure]
  exact ⟨_, rfl⟩

/-- A payment transition either does nothing or moves the row that still has the
status it was planned from, together with its event. -/
theorem applyPaymentTransition_ok {db db' : Db} {paymentHash : String} {src dst : PaymentStatus}
    {event : Option NewEvent} {now : ℤ} {b : Bool}
    (h : db.applyPaymentTransition paymentHash src dst event now = .ok (b, db')) :
    (b = false ∧ db' = db) ∨
      (b = true ∧ src ≠ dst ∧ ∃ r T O, db.payment? paymentHash = some r ∧ r.status = src ∧
        db' = { db with payments := T, webhookOutbox := O } ∧
        T.rows = Table.replace Payment.paymentHash paymentHash (Payment.advance dst now)
          db.payments.rows ∧
        O.rows = db.webhookOutbox.rows ++ eventRows db.webhookOutbox now event) := by
  unfold applyPaymentTransition at h
  by_cases heq : src = dst
  · rw [if_pos heq] at h
    cases h
    exact Or.inl ⟨rfl, rfl⟩
  · simp only [heq, if_false, bind, Except.bind] at h
    split at h
    · cases h
      exact Or.inl ⟨rfl, rfl⟩
    · next T hT =>
      rcases Table.cas?_eq_some hT with ⟨r, hr, hsrc, hrows⟩
      split at h
      · cases h
      · next O hO =>
        cases h
        exact Or.inr ⟨rfl, heq, r, T, O, hr, by simpa using hsrc, rfl, hrows, enqueue_ok hO⟩

/-! ## Assets and node state -/

def upsertAsset (now : ℤ) (assets : Table Asset Asset.Clash) (a : String × String) :
    Except StoreError (Table Asset Asset.Clash) :=
  match assets.get? Asset.assetId a.1 with
  | some _ => .ok (assets.modify Asset.assetId a.1
      (fun r => { r with schema := a.2, lastSyncedAt := some now })
      fun _ _ => ⟨fun h => h, fun h => h⟩)
  | none =>
      match assets.insert? ⟨a.1, a.2, some now⟩ with
      | some assets => .ok assets
      | none => .error .db

/-- `Store::upsert_assets`, one transaction for the whole list. -/
def upsertAssets (db : Db) (assets : List (String × String)) (now : ℤ) :
    Except StoreError Db := do
  let assets ← assets.foldlM (upsertAsset now) db.assets
  return { db with assets }

theorem upsertAsset_isOk (now : ℤ) (assets : Table Asset Asset.Clash) (a : String × String) :
    ∃ assets', upsertAsset now assets a = .ok assets' := by
  cases hget : assets.get? Asset.assetId a.1 with
  | some r => simp only [upsertAsset, hget]; exact ⟨_, rfl⟩
  | none =>
      cases hi : assets.insert? ⟨a.1, a.2, some now⟩ with
      | some assets' => exact ⟨assets', by simp only [upsertAsset, hget, hi]⟩
      | none =>
          rcases Table.insert?_eq_none.mp hi with ⟨r, hr, hc⟩
          exact absurd hc (Table.get?_eq_none.mp hget r hr)

/-- The assets are always written. -/
theorem upsertAssets_isOk (db : Db) (assets : List (String × String)) (now : ℤ) :
    ∃ T, db.upsertAssets assets now = .ok { db with assets := T } := by
  have hall : ∀ T, ∃ T', assets.foldlM (upsertAsset now) T = .ok T' := by
    induction assets with
    | nil => exact fun T => ⟨T, rfl⟩
    | cons a assets ih =>
      intro T
      rcases upsertAsset_isOk now T a with ⟨T₁, h₁⟩
      rcases ih T₁ with ⟨T₂, h₂⟩
      exact ⟨T₂, by rw [List.foldlM_cons, h₁]; exact h₂⟩
  rcases hall db.assets with ⟨T, hT⟩
  exact ⟨T, by rw [upsertAssets, hT]; rfl⟩

theorem upsertAssets_ok {db db' : Db} {assets : List (String × String)} {now : ℤ} {u : Unit}
    (h : (db.upsertAssets assets now).map (fun db' => ((), db')) = .ok (u, db')) :
    ∃ T, db' = { db with assets := T } := by
  unfold upsertAssets at h
  rcases ha : assets.foldlM (upsertAsset now) db.assets with e | T
  · simp [ha, bind, Except.bind, Except.map] at h
  · simp only [ha, bind, Except.bind, Except.map, pure, Except.pure, Except.ok.injEq,
      Prod.mk.injEq] at h
    exact ⟨T, h.2.symm⟩

def setNodeState (db : Db) (state : NodeState) (now : ℤ) : Db :=
  { db with nodeState := { db.nodeState with state, updatedAt := now } }

def setLastFullSyncAt (db : Db) (now : ℤ) : Db :=
  { db with nodeState := { db.nodeState with lastFullSyncAt := some now } }

def setPaymentsBaselineAt (db : Db) (now : ℤ) : Db :=
  { db with nodeState := { db.nodeState with paymentsBaselineAt := some now } }

/-! ## The outbox -/

/-- `Store::undelivered_events`: the first hundred events, in rowid order, that are
neither delivered nor out of attempts. -/
def undeliveredEvents (db : Db) (maxAttempts : ℕ) : List OutboxEvent :=
  ((db.webhookOutbox.rows.filter fun r =>
    r.deliveredAt.isNone && decide (r.attempts < maxAttempts)).take 100).map OutboxRow.event

/-- `Store::parked_events_count`. -/
def parkedEventsCount (db : Db) (maxAttempts : ℕ) : ℕ :=
  db.webhookOutbox.rows.countP fun r => r.deliveredAt.isNone && decide (maxAttempts ≤ r.attempts)

/-- `Store::record_attempt`. -/
def recordAttempt (db : Db) (id : ℕ) (nextAttemptAt : ℤ) : Db :=
  { db with
    webhookOutbox := db.webhookOutbox.modify OutboxRow.id id
      (fun r => { r with attempts := r.attempts + 1, nextAttemptAt })
      fun _ _ => ⟨fun h => h, fun h => h⟩ }

/-- `Store::mark_delivered`. -/
def markDelivered (db : Db) (id : ℕ) (now : ℤ) : Db :=
  { db with
    webhookOutbox := db.webhookOutbox.modify OutboxRow.id id
      (fun r => { r with deliveredAt := some now })
      fun _ _ => ⟨fun h => h, fun h => h⟩ }

end Db
end Companion
