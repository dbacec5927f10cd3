import Companion.Columns
import Companion.Lib.Alike
import Companion.Lib.Coded

/-!
# Records as columns

The typed database is what the stored one means: every record has one row that is read back
as it, no other row is, and every operation on the stored database is the operation on the
typed one.

## Main definitions

* `Transfer.columns`, `Payment.columns`, `Db.columns` — what is stored of a record.
* `TransferRow.tryFrom_eq_ok`, `PaymentRow.tryFrom_eq_ok` — the rows that can be read.
* `columns_insertTransfer`, … — the operations, one after the other.
-/

set_option autoImplicit false

namespace Companion
open Lib Api

/-! ## Columns -/

@[simp] theorem column_none : column none = none := rfl
@[simp] theorem column_some (n : ℕ) : column (some n) = some (n : ℤ) := rfl

@[simp] theorem column_or (a b : Option ℕ) : column (a.or b) = (column a).or (column b) := by
  cases a <;> rfl

/-- Only what has been written as an unsigned number is read as one. -/
theorem unsigned_eq_ok {message : String} {v : Option ℤ} {c : Option ℕ} :
    unsigned message v = .ok c ↔ v = column c := by
  cases v with
  | none => cases c <;> simp [unsigned]
  | some v =>
    by_cases hv : 0 ≤ v
    · cases c with
      | none => simp [unsigned, hv]
      | some n =>
        simp only [unsigned, if_pos hv, column_some, Except.ok.injEq, Option.some.injEq]
        omega
    · cases c with
      | none => simp [unsigned, hv]
      | some n =>
        simp only [unsigned, if_neg hv, column_some, reduceCtorEq, Option.some.injEq, false_iff]
        omega

theorem bindTs_eq (v : Option ℕ) : bindTs v = (tsToDb v).map fun _ => column v := by
  rw [bindTs]
  cases h : tsToDb v with
  | error e => rfl
  | ok c => rw [(toColumn_eq_ok.mp h).2]; rfl

theorem bindAmt_eq (v : Option ℕ) : bindAmt v = (amtToDb v).map fun _ => column v := by
  rw [bindAmt]
  cases h : amtToDb v with
  | error e => rfl
  | ok c => rw [(toColumn_eq_ok.mp h).2]; rfl

section Statuses
variable {α : Type} [Named α] (pred : α → Bool)

theorem mapM_enumToStr (l : List α) : l.mapM enumToStr = .ok (l.map Named.name) := by
  induction l with
  | nil => rfl
  | cons a l ih => rw [List.mapM_cons, ih]; rfl

theorem statusIn_eq : statusIn pred = .ok ((Named.all.filter pred).map Named.name) :=
  mapM_enumToStr _

/-- A status is compared with the names of those that are asked for. -/
theorem name_mem_statusIn (a : α) :
    Named.name a ∈ (Named.all.filter pred).map Named.name ↔ pred a = true := by
  rw [List.mem_map_of_injective Named.name_injective, List.mem_filter]
  simp [Named.mem_all]

end Statuses

/-! ## Transfers and payments -/

/-- What is stored of a transfer. -/
def Transfer.columns (r : Transfer) : TransferRow where
  id := r.id
  rlnIdx := r.rlnIdx
  assetId := r.assetId
  kind := r.kind
  status := Named.name r.status
  recipientId := r.recipientId
  txid := r.txid
  batchTransferIdx := r.batchTransferIdx
  invoice := r.invoice
  expirationTimestamp := column r.expirationTimestamp
  createdAt := r.createdAt
  updatedAt := r.updatedAt
  lastSeenAt := r.lastSeenAt
  settledAt := r.settledAt

/-- What is stored of a payment. -/
def Payment.columns (r : Payment) : PaymentRow where
  paymentHash := r.paymentHash
  direction := Named.name r.direction
  status := Named.name r.status
  assetId := r.assetId
  assetAmount := column r.assetAmount
  amtMsat := column r.amtMsat
  payeePubkey := r.payeePubkey
  createdAt := r.createdAt
  updatedAt := r.updatedAt
  lastSeenAt := r.lastSeenAt

/-- The rows that are read as a transfer are the ones it is stored as. -/
theorem TransferRow.tryFrom_eq_ok {r : TransferRow} {t : Transfer} :
    r.tryFrom = .ok t ↔ r = t.columns := by
  simp only [tryFrom, bind_eq_ok, unsigned_eq_ok, enumFromStr_eq_ok, pure, Except.pure,
    Except.ok.injEq]
  constructor
  · rintro ⟨expiration, he, status, hs, rfl⟩
    cases r
    simp_all [Transfer.columns]
  · rintro rfl
    exact ⟨_, rfl, _, rfl, rfl⟩

/-- The rows that are read as a payment are the ones it is stored as. -/
theorem PaymentRow.tryFrom_eq_ok {r : PaymentRow} {p : Payment} :
    r.tryFrom = .ok p ↔ r = p.columns := by
  simp only [tryFrom, bind_eq_ok, unsigned_eq_ok, enumFromStr_eq_ok, pure, Except.pure,
    Except.ok.injEq]
  constructor
  · rintro ⟨direction, hd, status, hs, amount, ha, msat, hm, rfl⟩
    cases r
    simp_all [Payment.columns]
  · rintro rfl
    exact ⟨_, rfl, _, rfl, _, rfl, _, rfl, rfl⟩

@[simp] theorem tryFrom_columns (t : Transfer) : t.columns.tryFrom = .ok t :=
  TransferRow.tryFrom_eq_ok.mpr rfl

@[simp] theorem tryFrom_columns_payment (p : Payment) : p.columns.tryFrom = .ok p :=
  PaymentRow.tryFrom_eq_ok.mpr rfl

/-- `transfers`, as it is stored. -/
def transferCode : RowCode Transfer.Clash TransferRow.Clash :=
  ⟨Transfer.columns, fun _ _ => Iff.rfl⟩

/-- `payments`, as it is stored. -/
def paymentCode : RowCode Payment.Clash PaymentRow.Clash :=
  ⟨Payment.columns, fun _ _ => Iff.rfl⟩

/-- What is stored of the database. -/
def Db.columns (db : Db) : Columns where
  transfers := db.transfers.coded transferCode
  assets := db.assets
  payments := db.payments.coded paymentCode
  nodeState := ⟨Named.name db.nodeState.state, db.nodeState.updatedAt,
    db.nodeState.lastFullSyncAt, db.nodeState.paymentsBaselineAt⟩
  webhookOutbox := db.webhookOutbox

/-- An answer with the database that goes with it, as it is stored. -/
def stored {α : Type} (r : Except StoreError (α × Db)) : Except StoreError (α × Columns) :=
  r.map fun p => (p.1, p.2.columns)

/-! ## Transfers -/

namespace Columns
variable (db : Db)

theorem columns_get? (T : Table Transfer Transfer.Clash) (id : ℕ) :
    (T.coded transferCode).get? TransferRow.id id = (T.get? Transfer.id id).map Transfer.columns :=
  Table.coded_get? (fun _ => rfl) T id

theorem columns_fetchTransfer (T : Table Transfer Transfer.Clash) (id : ℕ) :
    fetchTransfer (T.coded transferCode) id = Db.fetchTransfer T id := by
  rw [fetchTransfer, Db.fetchTransfer, columns_get?]
  cases T.get? Transfer.id id with
  | none => rfl
  | some r => exact tryFrom_columns r

/-- A write of `transfers` ends with the row that is read back. -/
theorem columns_fetched {T' : Table TransferRow TransferRow.Clash}
    {T : Table Transfer Transfer.Clash} (hT : T' = T.coded transferCode) (id : ℕ) :
    (do
      let row ← fetchTransfer T' id
      return (row, { db.columns with transfers := T' })) =
    stored (do
      let row ← Db.fetchTransfer T id
      return (row, { db with transfers := T })) := by
  rw [hT, columns_fetchTransfer]
  cases Db.fetchTransfer T id <;> rfl

/-- An insert goes through or violates a constraint as it does with records. -/
theorem columns_inserted (r : Transfer) :
    (match db.columns.transfers.insert? r.columns with
      | some transfers => do
          let row ← fetchTransfer transfers r.id
          return (row, { db.columns with transfers })
      | none => throw .db) =
    stored (match db.transfers.insert? r with
      | some transfers => do
          let row ← Db.fetchTransfer transfers r.id
          return (row, { db with transfers })
      | none => throw .db) := by
  have hinsert : db.columns.transfers.insert? r.columns =
      (db.transfers.insert? r).map (Table.coded transferCode) :=
    Table.coded_insert? db.transfers r
  rw [hinsert]
  cases db.transfers.insert? r with
  | some T => exact columns_fetched db rfl r.id
  | none => rfl

theorem onConflict_columns (t : NewTransfer) (id : ℕ) (now : ℤ) (r : Transfer) :
    (t.row id now).columns.onConflict r.columns = (t.merge now r).columns := by
  simp [TransferRow.onConflict, Transfer.columns, NewTransfer.row, NewTransfer.merge]

theorem columns_insertTransfer (id : ℕ) (t : NewTransfer) (now : ℤ) :
    db.columns.insertTransfer id t now = stored (db.insertTransfer id t now) := by
  have hfind : db.columns.transfers.rows.find? (fun r => sqlEq r.recipientId t.recipientId) =
      (db.transfers.rows.find? fun r => sqlEq r.recipientId t.recipientId).map
        Transfer.columns := Table.coded_find? (fun _ => rfl) db.transfers
  have hvalues : t.values id (Named.name t.status) (column t.expirationTimestamp) now =
      (t.row id now).columns := rfl
  have hrecipient : (t.row id now).columns.recipientId = t.recipientId := rfl
  rw [insertTransfer, Db.insertTransfer, bindTs_eq]
  cases tsToDb t.expirationTimestamp with
  | error e => rfl
  | ok c =>
    simp only [enumToStr, Except.map, bind, Except.bind, hvalues, hrecipient, hfind]
    cases db.transfers.rows.find? fun r => sqlEq r.recipientId t.recipientId with
    | some r =>
      exact columns_fetched db (Table.coded_modify (fun _ => rfl) (onConflict_columns t id now)
        db.transfers r.id _ _) r.id
    | none => exact columns_inserted db (t.row id now)

theorem set_columns (o : Observed) (now : ℤ) (r : Transfer) :
    o.set (column o.expirationTimestamp) now r.columns = (o.merge now r).columns := by
  simp [Observed.set, Transfer.columns, Observed.merge]

theorem columns_findObserved (o : Observed) :
    ((db.columns.transfers.rows.filter (matchesObserved o)).argmin (matchRank o)).map
      TransferRow.id = (db.findObserved o).map Transfer.id := by
  have hfilter : db.columns.transfers.rows.filter (matchesObserved o) =
      (db.transfers.rows.filter (Db.matchesObserved o)).map Transfer.columns :=
    Table.coded_filter (fun _ => rfl) db.transfers
  rw [hfilter, argmin_map, Option.map_map, Db.findObserved]
  rfl

theorem columns_upsertObserved (id : ℕ) (o : Observed) (now : ℤ) :
    db.columns.upsertObserved id o now = stored (db.upsertObserved id o now) := by
  rw [upsertObserved, Db.upsertObserved, columns_findObserved, bindTs_eq]
  cases db.findObserved o with
  | some r =>
    cases tsToDb o.expirationTimestamp with
    | error e => rfl
    | ok c =>
      have hupdate : db.columns.transfers.update? TransferRow.id r.id
          (o.set (column o.expirationTimestamp) now) =
          (db.transfers.update? Transfer.id r.id (o.merge now)).map (Table.coded transferCode) :=
        Table.coded_update? (fun _ => rfl) (set_columns o now) db.transfers r.id
      simp only [Option.map_some, Except.map, bind, Except.bind, hupdate]
      cases db.transfers.update? Transfer.id r.id (o.merge now) with
      | some T => exact columns_fetched db rfl r.id
      | none => rfl
  | none =>
    cases tsToDb o.expirationTimestamp with
    | error e => rfl
    | ok c => exact columns_inserted db (o.row id now)

/-- A status is compared with the name of another. -/
theorem name_test {α : Type} [Named α] [DecidableEq α] (a b : α) :
    decide (Named.name a = Named.name b) = decide (a = b) := by
  simp [name_eq_iff]

theorem advance_columns (dst : TransferStatus) (now : ℤ) (r : Transfer) :
    r.columns.set (Named.name dst) (if dst = .settled then some now else none) now =
      (r.advance dst now).columns := by
  by_cases h : dst = .settled <;> simp [TransferRow.set, Transfer.columns, Transfer.advance, h]

theorem columns_applyTransition (id : ℕ) (src dst : TransferStatus) (event : Option NewEvent)
    (now : ℤ) : db.columns.applyTransition id src dst event now =
      stored (db.applyTransition id src dst event now) := by
  have hcas : ∀ h, db.columns.transfers.cas? TransferRow.id id
      (fun r => r.status = Named.name src)
      (TransferRow.set (Named.name dst) (if dst = .settled then some now else none) now) h =
      (db.transfers.cas? Transfer.id id (fun r => r.status = src) (Transfer.advance dst now)
        fun _ _ => ⟨fun h => h, fun h => h⟩).map (Table.coded transferCode) := fun h =>
    Table.coded_cas? (fun _ => rfl) (fun r => name_test r.status src) (advance_columns dst now)
      db.transfers id _ h
  rw [applyTransition, Db.applyTransition]
  by_cases hsame : src = dst
  · simp only [if_pos hsame]
    rfl
  · simp only [if_neg hsame, enumToStr, bind, Except.bind, hcas]
    cases db.transfers.cas? Transfer.id id (fun r => r.status = src) (Transfer.advance dst now)
        fun _ _ => ⟨fun h => h, fun h => h⟩ with
    | none => rfl
    | some T =>
      have houtbox : db.columns.webhookOutbox = db.webhookOutbox := rfl
      simp only [Option.map_some, houtbox]
      cases Db.enqueue db.webhookOutbox event now <;> rfl

/-! ## Selections -/

theorem columns_filter {p : TransferRow → Bool} {q : Transfer → Bool}
    (h : ∀ r : Transfer, p r.columns = q r) :
    db.columns.transfers.rows.filter p = (db.transfers.rows.filter q).map Transfer.columns :=
  Table.coded_filter h db.transfers

/-- A status is one of those asked for when its name is. -/
theorem status_test {α : Type} [Named α] (pred : α → Bool) (a : α) :
    decide (Named.name a ∈ (Named.all.filter pred).map Named.name) = pred a := by
  simp only [name_mem_statusIn, Bool.decide_eq_true]

theorem columns_byCreation (rows : List Transfer) :
    (byCreation TransferRow.createdAt (rows.map Transfer.columns)).mapM TransferRow.tryFrom =
      .ok (Db.byCreation rows) := by
  have hsort : byCreation TransferRow.createdAt (rows.map Transfer.columns) =
      (Db.byCreation rows).map Transfer.columns :=
    (List.map_insertionSort _ _ Transfer.columns rows fun _ _ _ _ => Iff.rfl).symm
  rw [hsort, mapM_map_ok tryFrom_columns]

theorem columns_pendingTransfers : db.columns.pendingTransfers = .ok db.pendingTransfers := by
  rw [pendingTransfers, statusIn_eq]
  simp only [bind, Except.bind]
  rw [columns_filter db fun r => status_test TransferStatus.waiting r.status, columns_byCreation]
  rfl

/-- A row without an expiration has not expired. -/
theorem expiredFallible_eq (now : ℤ) : db.expiredFallible now =
    Db.byCreation (db.transfers.rows.filter fun r =>
      r.expirationTimestamp.any (fun e => (e : ℤ) < now) && r.status.fallible) := by
  rw [Db.expiredFallible]
  congr 2
  funext r
  cases r.expirationTimestamp <;> rfl

theorem columns_expiredFallible (now : ℤ) :
    db.columns.expiredFallible now = .ok (db.expiredFallible now) := by
  have htest : ∀ r : Transfer, (r.columns.expirationTimestamp.isSome &&
      r.columns.expirationTimestamp.any (fun e => decide (e < now)) &&
        decide (r.columns.status ∈ (Named.all.filter TransferStatus.fallible).map Named.name)) =
      (r.expirationTimestamp.any (fun e => decide ((e : ℤ) < now)) && r.status.fallible) := by
    intro r
    have hstatus : r.columns.status = Named.name r.status := rfl
    rw [hstatus, status_test]
    simp only [Transfer.columns]
    cases r.expirationTimestamp <;> simp
  rw [expiredFallible, statusIn_eq]
  simp only [bind, Except.bind]
  rw [columns_filter db htest, columns_byCreation, expiredFallible_eq]

instance : Std.Total NullsFirst where
  total a b := by
    cases a with
    | none => exact Or.inl trivial
    | some a =>
      cases b with
      | none => exact Or.inr trivial
      | some b => exact le_total a b

instance : IsTrans (Option String) NullsFirst where
  trans a b c hab hbc := by
    cases a with
    | none => trivial
    | some a =>
      cases b with
      | none => cases hab
      | some b =>
        cases c with
        | none => cases hbc
        | some c => exact le_trans (a := a) hab hbc

/-- The distinct texts of a nullable column, with the nulls left out of them. -/
theorem distinct_texts (ids : List (Option String)) :
    (ids.dedup.insertionSort NullsFirst).filterMap id =
      (ids.filterMap id).dedup.insertionSort (· ≤ ·) := by
  have hsorted : ((ids.dedup.insertionSort NullsFirst).filterMap id).Pairwise (· ≤ ·) := by
    rw [List.pairwise_filterMap]
    refine (List.pairwise_insertionSort NullsFirst ids.dedup).imp fun {a b} hab x hx y hy => ?_
    cases hx
    cases hy
    exact hab
  have hperm : ((ids.dedup.insertionSort NullsFirst).filterMap id).Perm
      ((ids.filterMap id).dedup.insertionSort (· ≤ ·)) := by
    refine ((List.perm_insertionSort NullsFirst ids.dedup).filterMap id).trans
      (List.Perm.trans ?_ (List.perm_insertionSort _ _).symm)
    rw [List.perm_ext_iff_of_nodup _ (List.nodup_dedup _)]
    · simp
    · refine ids.nodup_dedup.filterMap fun a b c hac hbc => ?_
      simp only [id, Option.mem_def] at hac hbc
      rw [hac, hbc]
  exact hperm.eq_of_pairwise' hsorted (List.pairwise_insertionSort _ _)

theorem columns_pendingAssetIds : db.columns.pendingAssetIds = .ok db.pendingAssetIds := by
  rw [pendingAssetIds, statusIn_eq]
  simp only [bind, Except.bind]
  rw [columns_filter db fun r => status_test TransferStatus.waiting r.status, List.map_map]
  have hids : TransferRow.assetId ∘ Transfer.columns = Transfer.assetId := rfl
  have hany : ∀ ids : List (Option String),
      (ids.dedup.insertionSort NullsFirst).any Option.isNone = ids.any Option.isNone := by
    intro ids
    rw [Bool.eq_iff_iff]
    simp [List.any_eq_true]
  rw [hids, distinct_texts, hany]
  rfl

/-! ## Payments -/

theorem columns_getPayment (paymentHash : String) :
    db.columns.payments.get? PaymentRow.paymentHash paymentHash =
      (db.payment? paymentHash).map Payment.columns :=
  Table.coded_get? (fun _ => rfl) db.payments paymentHash

theorem onConflict_columns_payment (p : NewPayment) (lastSeenAt : Option ℤ) (now : ℤ)
    (r : Payment) : (p.row lastSeenAt now).columns.onConflict r.columns =
      (p.merge lastSeenAt r).columns := by
  simp [PaymentRow.onConflict, Payment.columns, NewPayment.row, NewPayment.merge]

theorem columns_upsertPayment (p : NewPayment) (lastSeenAt : Option ℤ) (now : ℤ) :
    db.columns.upsertPayment p lastSeenAt now = stored (db.upsertPayment p lastSeenAt now) := by
  have hvalues : p.values (Named.name p.direction) (Named.name p.status) (column p.assetAmount)
      (column p.amtMsat) lastSeenAt now = (p.row lastSeenAt now).columns := rfl
  have hhash : (p.row lastSeenAt now).columns.paymentHash = p.paymentHash := rfl
  have hinsert : db.columns.payments.insert? (p.row lastSeenAt now).columns =
      (db.payments.insert? (p.row lastSeenAt now)).map (Table.coded paymentCode) :=
    Table.coded_insert? db.payments _
  have hmodify : ∀ h, db.columns.payments.modify PaymentRow.paymentHash p.paymentHash
      (p.row lastSeenAt now).columns.onConflict h =
      (db.payments.modify Payment.paymentHash p.paymentHash (p.merge lastSeenAt)
        fun _ _ => ⟨fun h => h, fun h => h⟩).coded paymentCode := fun h =>
    Table.coded_modify (fun _ => rfl) (onConflict_columns_payment p lastSeenAt now)
      db.payments p.paymentHash _ h
  rw [upsertPayment, Db.upsertPayment, bindAmt_eq, bindAmt_eq]
  cases amtToDb p.assetAmount with
  | error e => rfl
  | ok a =>
    cases amtToDb p.amtMsat with
    | error e => rfl
    | ok m =>
      simp only [enumToStr, Except.map, bind, Except.bind, hvalues, hhash, columns_getPayment,
        hmodify]
      cases db.payment? p.paymentHash with
      | some r =>
        simp only [Option.map_some, onConflict_columns_payment, tryFrom_columns_payment]
        rfl
      | none =>
        simp only [Option.map_none, hinsert]
        cases db.payments.insert? (p.row lastSeenAt now) with
        | some T =>
          simp only [Option.map_some, tryFrom_columns_payment]
          rfl
        | none => rfl

theorem advance_columns_payment (dst : PaymentStatus) (now : ℤ) (r : Payment) :
    r.columns.set (Named.name dst) now = (r.advance dst now).columns := rfl

theorem columns_applyPaymentTransition (paymentHash : String) (src dst : PaymentStatus)
    (event : Option NewEvent) (now : ℤ) :
    db.columns.applyPaymentTransition paymentHash src dst event now =
      stored (db.applyPaymentTransition paymentHash src dst event now) := by
  have hcas : ∀ h, db.columns.payments.cas? PaymentRow.paymentHash paymentHash
      (fun r => r.status = Named.name src) (PaymentRow.set (Named.name dst) now) h =
      (db.payments.cas? Payment.paymentHash paymentHash (fun r => r.status = src)
        (Payment.advance dst now) fun _ _ => ⟨fun h => h, fun h => h⟩).map
          (Table.coded paymentCode) := fun h =>
    Table.coded_cas? (fun _ => rfl) (fun r => name_test r.status src)
      (advance_columns_payment dst now) db.payments paymentHash _ h
  rw [applyPaymentTransition, Db.applyPaymentTransition]
  by_cases hsame : src = dst
  · simp only [if_pos hsame]
    rfl
  · simp only [if_neg hsame, enumToStr, bind, Except.bind, hcas]
    cases db.payments.cas? Payment.paymentHash paymentHash (fun r => r.status = src)
        (Payment.advance dst now) fun _ _ => ⟨fun h => h, fun h => h⟩ with
    | none => rfl
    | some T =>
      have houtbox : db.columns.webhookOutbox = db.webhookOutbox := rfl
      simp only [Option.map_some, houtbox]
      cases Db.enqueue db.webhookOutbox event now <;> rfl

theorem columns_filter_payment {p : PaymentRow → Bool} {q : Payment → Bool}
    (h : ∀ r : Payment, p r.columns = q r) :
    db.columns.payments.rows.filter p = (db.payments.rows.filter q).map Payment.columns :=
  Table.coded_filter h db.payments

theorem columns_pendingPayments : db.columns.pendingPayments = .ok db.pendingPayments := by
  have hsort : ∀ rows : List Payment, byCreation PaymentRow.createdAt (rows.map Payment.columns) =
      (rows.insertionSort fun a b => a.createdAt ≤ b.createdAt).map Payment.columns := fun rows =>
    (List.map_insertionSort _ _ Payment.columns rows fun _ _ _ _ => Iff.rfl).symm
  rw [pendingPayments, statusIn_eq]
  simp only [bind, Except.bind]
  rw [columns_filter_payment db fun r => status_test (fun s => !s.terminal) r.status, hsort,
    mapM_map_ok tryFrom_columns_payment]
  rfl

/-! ## Listings -/

/-- An optional condition on a text: `?1 IS NULL OR text = ?1`. -/
theorem optional_test {α : Type} [Named α] [DecidableEq α] (asked : Option α) (a : α) :
    ((asked.map Named.name).isNone || sqlEq (some (Named.name a)) (asked.map Named.name)) =
      asked.all fun b => a = b := by
  cases asked with
  | none => rfl
  | some b => exact name_test a b

theorem mapM_enumToStr_option {α : Type} [Named α] (asked : Option α) :
    asked.mapM enumToStr = .ok (asked.map Named.name) := by
  cases asked <;> rfl

/-- The newest of the rows, read back. -/
theorem newest_map {α β : Type} {enc : α → β} {createdAt : α → ℤ} {createdAt' : β → ℤ}
    (h : ∀ a, createdAt' (enc a) = createdAt a) (rows : List α) (limit : ℕ) :
    (newestFirst createdAt' (rows.map enc)).take limit =
      ((newestFirst createdAt rows).take limit).map enc := by
  rw [newestFirst, newestFirst, ← List.map_reverse, List.map_take]
  rw [List.map_insertionSort _ (fun a b => createdAt' b ≤ createdAt' a) enc]
  simp [h]

theorem columns_listTransfers (status : Option TransferStatus) (assetId : Option String)
    (limit : ℕ) : db.columns.listTransfers status assetId limit =
      .ok (db.listTransfers status assetId limit) := by
  have htest : ∀ r : Transfer, (((status.map Named.name).isNone ||
      sqlEq (some r.columns.status) (status.map Named.name)) &&
        (assetId.isNone || sqlEq r.columns.assetId assetId)) =
      (status.all (fun s => r.status = s) && assetId.all fun a => r.assetId = some a) := by
    intro r
    have hstatus : r.columns.status = Named.name r.status := rfl
    rw [hstatus, optional_test]
    congr 1
    cases assetId with
    | none => rfl
    | some a =>
      rw [Bool.eq_iff_iff]
      simp [Transfer.columns]
  rw [listTransfers, mapM_enumToStr_option]
  simp only [bind, Except.bind]
  rw [columns_filter db htest, newest_map (fun _ => rfl), mapM_map_ok tryFrom_columns]
  rfl

theorem columns_listPayments (status : Option PaymentStatus) (limit : ℕ) :
    db.columns.listPayments status limit = .ok (db.listPayments status limit) := by
  rw [listPayments, mapM_enumToStr_option]
  simp only [bind, Except.bind]
  rw [columns_filter_payment db fun r => optional_test status r.status,
    newest_map (fun _ => rfl), mapM_map_ok tryFrom_columns_payment]
  rfl

theorem columns_getTransfer (id : ℕ) : db.columns.getTransfer id = .ok (db.transfer? id) := by
  have hget : db.columns.transfers.get? TransferRow.id id =
      (db.transfer? id).map Transfer.columns := columns_get? db.transfers id
  rw [getTransfer, hget]
  cases db.transfer? id with
  | none => rfl
  | some r =>
    rw [Option.map_some, Option.mapM_some, tryFrom_columns]
    rfl

end Columns
end Companion
