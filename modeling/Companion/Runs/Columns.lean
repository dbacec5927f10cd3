import Companion.Columns.Encode
import Companion.Lib.Observe
import Companion.Lib.Represent
import Companion.Runs.Delivery

/-!
# The companion over what it stores

The rest of the development speaks of records.  Here the companion runs over columns, and
its runs are those over records, encoded: whatever holds of the typed database at some
moment of a run holds of what is stored at that moment.

In particular everything that has been stored can be read.  The one thing that is called
corrupt is a number that a column cannot hold, and it is refused before it is written.

## Main definitions

* `Host.disk` — what is stored of a host.
* `disk_represents`, `disk_runs` — the two companions have the same runs.
* `Db.Fits`, `StoreOp.Oversized` — the numbers that are stored, and those that are not.
* `disk_readable` — what is stored can be read.
-/

set_option autoImplicit false

namespace Companion
open Lib Pool Api

/-! ## Encoded hosts -/

/-- What is stored of a host. -/
def Host.disk (h : Host) : Disk := ⟨h.db.columns, h.uuids, h.locked⟩

/-- A companion that has never run. -/
def emptyDisk : Pool.Config Effects Disk := ⟨⟨Columns.migrated, 0, false⟩, []⟩

theorem disk_nextUuid (h : Host) : h.disk.nextUuid = h.nextUuid := by
  simp only [Disk.nextUuid, Host.nextUuid, Host.disk, Db.columns, Table.rows_coded, List.map_map]
  rfl

theorem disk_draw (h : Host) : h.disk.draw = h.draw.disk := by
  rw [Disk.draw, disk_nextUuid]
  rfl

theorem disk_commit {α : Type} (h : Host) (r : Except StoreError (α × Db)) :
    h.disk.commit (stored r) = ((h.commit r).1, (h.commit r).2.disk) := by
  cases r <;> rfl

/-- A store operation does to what is stored what it does to the records. -/
theorem onDisk_perform (q : StoreOp) (h : Host) :
    q.onDisk h.disk = ((q.perform h).1, (q.perform h).2.disk) := by
  cases q with
  | insertTransfer t now =>
    rw [StoreOp.onDisk, disk_draw, disk_nextUuid]
    exact (congrArg _ (Columns.columns_insertTransfer h.db h.nextUuid t now)).trans
      (disk_commit h.draw _)
  | upsertObserved o now =>
    rw [StoreOp.onDisk, disk_draw, disk_nextUuid]
    exact (congrArg _ (Columns.columns_upsertObserved h.db h.nextUuid o now)).trans
      (disk_commit h.draw _)
  | applyTransition id src dst event now =>
    exact (congrArg _ (Columns.columns_applyTransition h.db id src dst event now)).trans
      (disk_commit h _)
  | upsertPayment p lastSeenAt now =>
    exact (congrArg _ (Columns.columns_upsertPayment h.db p lastSeenAt now)).trans
      (disk_commit h _)
  | applyPaymentTransition hash src dst event now =>
    exact (congrArg _ (Columns.columns_applyPaymentTransition h.db hash src dst event now)).trans
      (disk_commit h _)
  | upsertAssets assets now =>
    have hassets : h.disk.db.assets = h.db.assets := rfl
    simp only [StoreOp.onDisk, StoreOp.perform, Columns.upsertAssets, Db.upsertAssets, hassets]
    cases assets.foldlM (Db.upsertAsset now) h.db.assets <;> rfl
  | pendingTransfers => exact congrArg (·, h.disk) (Columns.columns_pendingTransfers h.db)
  | pendingAssetIds => exact congrArg (·, h.disk) (Columns.columns_pendingAssetIds h.db)
  | expiredFallible now =>
    exact congrArg (·, h.disk) (Columns.columns_expiredFallible h.db now)
  | nodeState => exact congrArg (·, h.disk) (enumFromStr_name h.db.nodeState.state)
  | _ => rfl

/-- A query of a handler finds in what is stored what it finds in the records. -/
theorem onDisk_answer (q : ReadOp) (h : Host) : q.onDisk h.disk.db = .ok (q.answer h.db) := by
  cases q with
  | getTransfer id => exact Columns.columns_getTransfer h.db id
  | listTransfers status assetId limit =>
    exact Columns.columns_listTransfers h.db status assetId limit
  | pendingTransfers => exact Columns.columns_pendingTransfers h.db
  | pendingPayments => exact Columns.columns_pendingPayments h.db
  | listPayments status limit => exact Columns.columns_listPayments h.db status limit
  | nodeState => exact enumFromStr_name h.db.nodeState.state
  | parkedEventsCount n | lastFullSyncAt => rfl

theorem world_onDisk (w : World) (o : Op) (h : Host) :
    w.onDisk o h.disk = (w.perform o h).map fun p => (p.1, p.2.disk) := by
  cases o with
  | store q =>
    simp only [World.onDisk, World.perform, onDisk_perform]
    split <;> rfl
  | lock =>
    have hlocked : h.disk.locked = h.locked := rfl
    simp only [World.onDisk, World.perform, hlocked]
    split <;> rfl
  | uuid =>
    simp only [World.onDisk, disk_nextUuid, disk_draw]
    rfl
  | node c | forward r | post ev | clock | unlock => rfl

/-- The companion over columns is the companion over records, encoded. -/
theorem disk_represents (cfg : Config) :
    Represents (system cfg) (diskSystem cfg) Host.disk where
  perform i o s r t := by
    have hperform : ∀ w : World, w.onDisk o s.disk = some (r, t) ↔
        ∃ s', w.perform o s = some (r, s') ∧ s'.disk = t := by
      intro w
      rw [world_onDisk, Option.map_eq_some_iff]
      constructor
      · rintro ⟨⟨r', s'⟩, hp, heq⟩
        cases heq
        exact ⟨s', hp, rfl⟩
      · rintro ⟨s', hp, rfl⟩
        exact ⟨_, hp, rfl⟩
    exact exists_congr hperform
  drift s t := by
    constructor
    · rintro ⟨w, hd⟩
      exact ⟨w, s.release, rfl, Option.some.inj hd⟩
    · rintro ⟨w, s', hd, rfl⟩
      cases hd
      exact ⟨w, rfl⟩
  reset _ := rfl
  boots _ := Iff.rfl
  starts _ := Iff.rfl

/-- **The mirror as it is stored.**  The runs of the companion over texts and signed columns
are exactly its runs over records, step by step encoded. -/
theorem disk_runs (cfg : Config) (hist : List (Event Effects Disk))
    (d : Pool.Config Effects Disk) :
    (diskSystem cfg).Run emptyDisk hist d ↔
      ∃ past c, (system cfg).Run initial past c ∧
        past.map (Event.encode Host.disk) = hist ∧ c.encode Host.disk = d :=
  (disk_represents cfg).run_iff (c := initial)

/-! ## What a column cannot hold -/

/-- The numbers of the database are ones a signed column holds. -/
structure Db.Fits (db : Db) : Prop where
  transfers : ∀ r ∈ db.transfers.rows, FitsColumn r.expirationTimestamp
  payments : ∀ r ∈ db.payments.rows, FitsColumn r.assetAmount ∧ FitsColumn r.amtMsat

/-- The operation writes a number that no column holds, and is refused with this text. -/
def StoreOp.Oversized : StoreOp → String → Prop
  | insertTransfer t _, m =>
      ¬ FitsColumn t.expirationTimestamp ∧ m = "expiration_timestamp out of range"
  | upsertObserved o _, m =>
      ¬ FitsColumn o.expirationTimestamp ∧ m = "expiration_timestamp out of range"
  | upsertPayment p _ _, m =>
      ¬ (FitsColumn p.assetAmount ∧ FitsColumn p.amtMsat) ∧ m = "amount out of range"
  | _, _ => False

theorem toColumn_eq_error {message : String} {v : Option ℕ} {e : StoreError} :
    toColumn message v = .error e ↔ ¬ FitsColumn v ∧ e = .corrupt message := by
  by_cases h : FitsColumn v
  · simp [toColumn_of_fits h, h]
  · cases v with
    | none => simp [FitsColumn] at h
    | some n =>
      have hbig : ¬ n ≤ i64Max := by simpa [FitsColumn] using h
      simp [toColumn, hbig, h, eq_comm]

theorem fits_or {a b : Option ℕ} (ha : FitsColumn a) (hb : FitsColumn b) : FitsColumn (a.or b) := by
  cases a with
  | none => exact hb
  | some n => exact ha

/-- A row that has just been written is there to be read. -/
theorem fetchTransfer_isOk {T : Table Transfer Transfer.Clash} {id : ℕ}
    (h : ∃ r ∈ T.rows, r.id = id) : ∃ r, Db.fetchTransfer T id = .ok r := by
  obtain ⟨r, hr, hid⟩ := h
  exact ⟨r, Db.fetchTransfer_ok.mpr ⟨hr, hid⟩⟩

namespace Db
variable {db : Db} {id : ℕ} {now : ℤ} {m : String}

/-- What an insert calls corrupt is an expiration that does not fit. -/
theorem insertTransfer_corrupt {t : NewTransfer}
    (h : db.insertTransfer id t now = .error (.corrupt m)) :
    ¬ FitsColumn t.expirationTimestamp ∧ m = "expiration_timestamp out of range" := by
  rw [insertTransfer] at h
  cases hts : tsToDb t.expirationTimestamp with
  | error e =>
    rw [hts] at h
    cases h
    simpa using toColumn_eq_error.mp hts
  | ok c =>
    simp only [hts, bind, Except.bind] at h
    split at h
    · next r hr =>
      have hkept : ∃ a ∈ (db.transfers.modify Transfer.id r.id (t.merge now)
          fun _ _ => ⟨fun h => h, fun h => h⟩).rows, a.id = r.id :=
        Table.exists_key_replace (fun _ => rfl) (List.mem_of_find?_eq_some hr)
      obtain ⟨row, hrow⟩ := fetchTransfer_isOk hkept
      rw [hrow] at h
      cases h
    · split at h
      · next T hT =>
        have hnew : ∃ a ∈ T.rows, a.id = id :=
          ⟨t.row id now, by simp [(Table.insert?_eq_some.mp hT).2], rfl⟩
        obtain ⟨row, hrow⟩ := fetchTransfer_isOk hnew
        rw [hrow] at h
        cases h
      · cases h

/-- What an observation is called corrupt for is an expiration that does not fit. -/
theorem upsertObserved_corrupt {o : Observed}
    (h : db.upsertObserved id o now = .error (.corrupt m)) :
    ¬ FitsColumn o.expirationTimestamp ∧ m = "expiration_timestamp out of range" := by
  rw [upsertObserved] at h
  cases hts : tsToDb o.expirationTimestamp with
  | error e =>
    cases hf : db.findObserved o <;> rw [hf, hts] at h <;> cases h <;>
      simpa using toColumn_eq_error.mp hts
  | ok c =>
    simp only [hts, bind, Except.bind] at h
    split at h
    · next r hr =>
      split at h
      · next T hT =>
        have hkept : ∃ a ∈ T.rows, a.id = r.id := by
          rw [Table.rows_update? hT]
          exact Table.exists_key_replace (fun _ => rfl) (findObserved_some hr).1
        obtain ⟨row, hrow⟩ := fetchTransfer_isOk hkept
        rw [hrow] at h
        cases h
      · cases h
    · split at h
      · next T hT =>
        have hnew : ∃ a ∈ T.rows, a.id = id :=
          ⟨o.row id now, by simp [(Table.insert?_eq_some.mp hT).2], rfl⟩
        obtain ⟨row, hrow⟩ := fetchTransfer_isOk hnew
        rw [hrow] at h
        cases h
      · cases h

/-- What an upsert of a payment calls corrupt is an amount that does not fit. -/
theorem upsertPayment_corrupt {p : NewPayment} {lastSeenAt : Option ℤ}
    (h : db.upsertPayment p lastSeenAt now = .error (.corrupt m)) :
    ¬ (FitsColumn p.assetAmount ∧ FitsColumn p.amtMsat) ∧ m = "amount out of range" := by
  have hbig : ¬ (FitsColumn p.assetAmount ∧ FitsColumn p.amtMsat) := by
    rintro ⟨ha, hm⟩
    obtain ⟨row, db', hok⟩ := upsertPayment_isOk ha hm lastSeenAt now
    rw [hok] at h
    cases h
  refine ⟨hbig, ?_⟩
  rw [upsertPayment] at h
  cases ha : amtToDb p.assetAmount with
  | error e =>
    rw [ha] at h
    cases h
    simpa using (toColumn_eq_error.mp ha).2
  | ok a =>
    cases hm : amtToDb p.amtMsat with
    | error e =>
      rw [ha, hm] at h
      cases h
      simpa using (toColumn_eq_error.mp hm).2
    | ok b => exact absurd ⟨(toColumn_eq_ok.mp ha).1, (toColumn_eq_ok.mp hm).1⟩ hbig

theorem enqueue_error {outbox : Table OutboxRow OutboxRow.Clash} {event : Option NewEvent}
    {e : StoreError} (h : enqueue outbox event now = .error e) : e = .db := by
  cases event with
  | none => cases h
  | some ev =>
    simp only [enqueue] at h
    split at h
    · cases h
    · cases h
      rfl

/-- A transition finds nothing corrupt. -/
theorem applyTransition_error {src dst : TransferStatus} {event : Option NewEvent}
    {e : StoreError} (h : db.applyTransition id src dst event now = .error e) : e = .db := by
  rw [applyTransition] at h
  by_cases hsame : src = dst
  · rw [if_pos hsame] at h
    cases h
  · simp only [if_neg hsame, bind, Except.bind] at h
    split at h
    · cases h
    · split at h
      · next e' he =>
        cases h
        exact enqueue_error he
      · cases h

/-- Nor does one of a payment. -/
theorem applyPaymentTransition_error {paymentHash : String} {src dst : PaymentStatus}
    {event : Option NewEvent} {e : StoreError}
    (h : db.applyPaymentTransition paymentHash src dst event now = .error e) : e = .db := by
  rw [applyPaymentTransition] at h
  by_cases hsame : src = dst
  · rw [if_pos hsame] at h
    cases h
  · simp only [if_neg hsame, bind, Except.bind] at h
    split at h
    · cases h
    · split at h
      · next e' he =>
        cases h
        exact enqueue_error he
      · cases h

/-- Only an expiration that fits is inserted. -/
theorem fits_of_insertTransfer {t : NewTransfer} {out : Transfer × Db}
    (h : db.insertTransfer id t now = .ok out) : FitsColumn t.expirationTimestamp := by
  rw [insertTransfer] at h
  cases hts : tsToDb t.expirationTimestamp with
  | error e =>
    rw [hts] at h
    cases h
  | ok c => exact (toColumn_eq_ok.mp hts).1

end Db

theorem commit_error {α : Type} {h h' : Host} {r : Except StoreError (α × Db)} {e : StoreError}
    (hc : h.commit r = (.error e, h')) : r = .error e := by
  cases r with
  | error e' =>
    cases hc
    rfl
  | ok p => cases hc

/-- An operation that finds something corrupt has been given a number that does not fit. -/
theorem oversized_of_corrupt {q : StoreOp} {h h' : Host} {m : String}
    (hp : q.perform h = (.error (.corrupt m), h')) : q.Oversized m := by
  cases q with
  | insertTransfer t now => exact Db.insertTransfer_corrupt (commit_error hp)
  | upsertObserved o now => exact Db.upsertObserved_corrupt (commit_error hp)
  | upsertPayment p lastSeenAt now => exact Db.upsertPayment_corrupt (commit_error hp)
  | applyTransition id src dst event now =>
    cases Db.applyTransition_error (commit_error hp)
  | applyPaymentTransition hash src dst event now =>
    cases Db.applyPaymentTransition_error (commit_error hp)
  | upsertAssets assets now =>
    obtain ⟨T, hT⟩ := h.db.upsertAssets_isOk assets now
    have herror := commit_error hp
    rw [hT] at herror
    cases herror
  | _ => cases hp

/-- An operation keeps the numbers of the database within what a column holds. -/
theorem fits_perform {q : StoreOp} {h h' : Host} {r : Except StoreError q.Res}
    (hp : q.perform h = (r, h')) (hfit : h.db.Fits) : h'.db.Fits := by
  have hframe := StoreOp.frame hp
  cases q with
  | insertTransfer t now =>
    obtain rfl | ⟨row, db', hok, rfl⟩ := Host.commit_cases hp
    · exact hfit
    have ht := Db.fits_of_insertTransfer hok
    obtain ⟨T, rfl, ⟨b, -, -, hT, -⟩ | ⟨-, hT, -⟩⟩ := Db.insertTransfer_ok hok
    · refine ⟨?_, hfit.payments⟩
      rw [hT]
      exact Table.forall_replace hfit.transfers fun _ => fits_or ht
    · refine ⟨?_, hfit.payments⟩
      rw [hT, List.forall_mem_append]
      exact ⟨hfit.transfers, List.forall_mem_singleton.mpr ht⟩
  | upsertObserved o now =>
    obtain rfl | ⟨row, db', hok, rfl⟩ := Host.commit_cases hp
    · exact hfit
    have ho := Db.fits_of_upsertObserved hok
    obtain ⟨T, rfl, ⟨b, -, -, hT⟩ | ⟨-, -, -, hT⟩⟩ := Db.upsertObserved_ok hok
    · refine ⟨?_, hfit.payments⟩
      rw [hT]
      exact Table.forall_replace hfit.transfers fun _ => fits_or ho
    · refine ⟨?_, hfit.payments⟩
      rw [hT, List.forall_mem_append]
      exact ⟨hfit.transfers, List.forall_mem_singleton.mpr ho⟩
  | applyTransition id src dst event now =>
    obtain rfl | ⟨b, db', hok, rfl⟩ := Host.commit_cases hp
    · exact hfit
    obtain ⟨-, rfl⟩ | ⟨-, -, b, T, O, -, -, rfl, hT, -⟩ := Db.applyTransition_ok hok
    · exact hfit
    · refine ⟨?_, hfit.payments⟩
      rw [hT]
      exact Table.forall_replace hfit.transfers fun _ ha => ha
  | upsertPayment p lastSeenAt now =>
    obtain rfl | ⟨row, db', hok, rfl⟩ := Host.commit_cases hp
    · exact hfit
    have hnew := Db.fits_of_upsertPayment hok
    obtain ⟨T, rfl, ⟨b, -, -, hT⟩ | ⟨-, -, hT⟩⟩ := Db.upsertPayment_ok hok
    · refine ⟨hfit.transfers, ?_⟩
      rw [hT]
      exact Table.forall_replace hfit.payments fun _ ha =>
        ⟨fits_or hnew.1 ha.1, fits_or hnew.2 ha.2⟩
    · refine ⟨hfit.transfers, ?_⟩
      rw [hT, List.forall_mem_append]
      exact ⟨hfit.payments, List.forall_mem_singleton.mpr hnew⟩
  | applyPaymentTransition hash src dst event now =>
    obtain rfl | ⟨b, db', hok, rfl⟩ := Host.commit_cases hp
    · exact hfit
    obtain ⟨-, rfl⟩ | ⟨-, -, b, T, O, -, -, rfl, hT, -⟩ := Db.applyPaymentTransition_ok hok
    · exact hfit
    · refine ⟨hfit.transfers, ?_⟩
      rw [hT]
      exact Table.forall_replace hfit.payments fun _ ha => ha
  | _ =>
    refine ⟨?_, ?_⟩
    · rw [hframe.transfers (by simp [StoreOp.writes])]
      exact hfit.transfers
    · rw [hframe.payments (by simp [StoreOp.writes])]
      exact hfit.payments

/-- The numbers of every database of a run are within what a column holds. -/
theorem fits_of_run {cfg : Config} {hist : List (Event Effects Host)}
    {c : Pool.Config Effects Host} (run : (system cfg).Run initial hist c) :
    ∀ s ∈ trace initial.shared hist, s.db.Fits := by
  intro s hs
  obtain ⟨before, after, hsplit⟩ := List.append_of_mem hs
  obtain ⟨past, c₁, rest, run₁, -, rfl, -⟩ := run.moment hsplit
  have hempty : initial.shared.db.Fits := by
    constructor <;> simp [initial, Host.fresh, Db.migrated, Table.empty]
  refine run₁.induct (fun _ h => h.db.Fits) hempty fun past e he hfit => ?_
  obtain hsame | ⟨q, r, -, hp⟩ := lawful_cases (lawful_of_run run₁ e he)
  · rw [hsame]
    exact hfit
  · exact fits_perform hp hfit

/-- **What is stored can be read.**  At every moment of every run over columns each row is
one that is read back, its numbers are within what a signed column holds, and every query
of a handler is answered.  What is called corrupt is only a number that a column does not
hold, on its way in. -/
theorem disk_readable (cfg : Config) {hist : List (Event Effects Disk)}
    {d : Pool.Config Effects Disk} (run : (diskSystem cfg).Run emptyDisk hist d) :
    (∀ s ∈ trace emptyDisk.shared hist,
      (∀ row ∈ s.db.transfers.rows, ∃ t, row.tryFrom = .ok t ∧
        FitsColumn t.expirationTimestamp) ∧
      (∀ row ∈ s.db.payments.rows, ∃ p, row.tryFrom = .ok p ∧
        FitsColumn p.assetAmount ∧ FitsColumn p.amtMsat) ∧
      ∀ q : ReadOp, ∃ a, q.onDisk s.db = .ok a) ∧
    ∀ e ∈ hist, ∀ i q m, e.label = .act i (.store q) (.error (.corrupt m)) → q.Oversized m := by
  obtain ⟨past, c, run', rfl, rfl⟩ := (disk_runs cfg hist d).mp run
  constructor
  · intro s hs
    have htrace : trace emptyDisk.shared (past.map (Event.encode Host.disk)) =
        (trace initial.shared past).map Host.disk := by
      simp only [trace, List.map_cons, List.map_map]
      rfl
    rw [htrace] at hs
    obtain ⟨h, hh, rfl⟩ := List.mem_map.mp hs
    have hfit := fits_of_run run' h hh
    refine ⟨fun row hrow => ?_, fun row hrow => ?_, fun q => ⟨_, onDisk_answer q h⟩⟩
    · obtain ⟨t, ht, rfl⟩ := List.mem_map.mp hrow
      exact ⟨t, tryFrom_columns t, hfit.transfers t ht⟩
    · obtain ⟨p, hp, rfl⟩ := List.mem_map.mp hrow
      exact ⟨p, tryFrom_columns_payment p, hfit.payments p hp⟩
  · intro e he i q m hlabel
    obtain ⟨⟨pre, label, post⟩, he', rfl⟩ := List.mem_map.mp he
    have hsame : label = .act i (.store q) (.error (.corrupt m)) := hlabel
    subst hsame
    obtain ⟨-, w, hp⟩ := lawful_of_run run' _ he'
    obtain ⟨hrefused, -⟩ | hp := perform_store hp
    · cases hrefused
    · exact oversized_of_corrupt hp

/-- The payment of a keysend that has failed is read back from its columns. -/
theorem disk_readable_keysend : ∃ hist d, (diskSystem defaults).Run emptyDisk hist d ∧
    ∃ row ∈ d.shared.db.payments.rows, row.status = "Failed" ∧ ∃ p, row.tryFrom = .ok p := by
  have run := run_of_isSome (deliverySchedule_admitted defaults) deliverySchedule_plays
  have hdisk := (disk_runs defaults _ _).mpr ⟨_, _, run, rfl, rfl⟩
  obtain ⟨-, hpayments, -⟩ := (disk_readable defaults hdisk).1 _ hdisk.end_mem_trace
  obtain ⟨p, hp, -⟩ := hpayments _ List.mem_cons_self
  exact ⟨_, _, hdisk, _, List.mem_cons_self, rfl, p, hp⟩

end Companion
