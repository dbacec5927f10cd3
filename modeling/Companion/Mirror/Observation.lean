import Companion.Announce
import Companion.Mirror.TransferPass

/-!
# One observation

What a listed transfer makes of the mirror when nobody else is in between: the row
it matches learns what is listed of it and moves forward if the listed status ranks
above its own, or a row is added with the listed status.  Only a forward move is
announced.

## Main definitions

* `TransferMove`, `TransferStatus.next` — when a listed status moves a stored one.
* `Observed.onto` — the row an observation leaves of the one it matches.
* `exec_applyObserved`, `exec_mirrorTransfer` — the two halves of an observation.
-/

set_option autoImplicit false

namespace Companion
open Lib

/-! ## Moves -/

/-- The moves of a transfer's status: forward, from a status that is not terminal. -/
def TransferMove (src dst : TransferStatus) : Prop := src.terminal = false ∧ rank src < rank dst

instance : DecidableRel TransferMove := fun src dst => by unfold TransferMove; infer_instance

theorem not_transferMove_self (s : TransferStatus) : ¬ TransferMove s s :=
  fun h => Nat.lt_irrefl _ h.2

theorem TransferMove.ne {src dst : TransferStatus} (h : TransferMove src dst) : src ≠ dst :=
  fun heq => not_transferMove_self dst (heq ▸ h)

/-- The status of a stored transfer after `observed` has been seen. -/
def TransferStatus.next (stored observed : TransferStatus) : TransferStatus :=
  if TransferMove stored observed then observed else stored

/-- What is announced when `observed` is seen. -/
def TransferStatus.out (stored observed : TransferStatus) : List String :=
  if TransferMove stored observed then transferOut observed else []

/-- A plan is made exactly for a move. -/
theorem planTransition_eq (stored : Transfer) (observed : TransferStatus) :
    planTransition stored observed =
      if TransferMove stored.status observed then
        some ⟨stored.id, stored.status, observed, EventType.of observed⟩
      else none := by
  split
  · next hm => exact planTransition_eq_some.mpr ⟨hm.1, hm.2, rfl⟩
  · next hm =>
    cases hp : planTransition stored observed with
    | none => rfl
    | some tr =>
      obtain ⟨hterm, hrank, -⟩ := planTransition_eq_some.mp hp
      exact absurd ⟨hterm, hrank⟩ hm

/-- The row after `observed` has been applied to it. -/
def Transfer.apply (observed : TransferStatus) (now : ℤ) (r : Transfer) : Transfer :=
  if TransferMove r.status observed then r.advance observed now else r

@[simp] theorem Transfer.id_apply (observed : TransferStatus) (now : ℤ) (r : Transfer) :
    (r.apply observed now).id = r.id := by
  unfold apply
  split <;> rfl

theorem Transfer.status_apply (observed : TransferStatus) (now : ℤ) (r : Transfer) :
    (r.apply observed now).status = r.status.next observed := by
  unfold apply TransferStatus.next
  split <;> rfl

/-- What an observation leaves of the row it matches. -/
def Observed.onto (o : Observed) (now : ℤ) (r : Transfer) : Transfer :=
  (o.merge now r).apply o.status now

theorem id_onto (o : Observed) (now : ℤ) (r : Transfer) : (o.onto now r).id = r.id := by
  simp [Observed.onto, Observed.merge]

theorem rlnIdx_onto (o : Observed) (now : ℤ) (r : Transfer) :
    (o.onto now r).rlnIdx = some o.rlnIdx := by
  unfold Observed.onto Transfer.apply
  split <;> rfl

/-! ## Applying an observed status -/

/-- What the outbox takes when `observed` is seen of the row. -/
def Transfer.announced (outbox : Table OutboxRow OutboxRow.Clash) (eventId : ℕ)
    (observed : TransferStatus) (now : ℤ) (r : Transfer) : List OutboxRow :=
  if TransferMove r.status observed then
    Db.eventRows outbox now
      (transitionEvent eventId r ⟨r.id, r.status, observed, EventType.of observed⟩ now)
  else []

/-- What a planned move of the row as it stands leaves in the database. -/
theorem applyTransition_view {db db' : Db} {row : Transfer} {dst : TransferStatus}
    {eventId : ℕ} {now : ℤ} (hm : TransferMove row.status dst)
    (hok : db.applyTransition row.id row.status dst
      (transitionEvent eventId row ⟨row.id, row.status, dst, EventType.of dst⟩ now) now =
        .ok (true, db')) :
    db'.transfers.rows =
        Table.replace Transfer.id row.id (Transfer.advance dst now) db.transfers.rows ∧
      (∀ id, db'.transferEvents id = db.transferEvents id ++
        if id = row.id then transferOut dst else []) ∧
      db'.assets = db.assets ∧ db'.payments = db.payments ∧ db'.nodeState = db.nodeState ∧
      db'.webhookOutbox.rows = db.webhookOutbox.rows ++
        row.announced db.webhookOutbox eventId dst now := by
  rcases Db.applyTransition_ok hok with ⟨hf, -⟩ | ⟨-, -, r, T, O, -, -, rfl, hT, hO⟩
  · cases hf
  · have hplanned : PlannedTransition row.id row.status dst
        (transitionEvent eventId row ⟨row.id, row.status, dst, EventType.of dst⟩ now) :=
      ⟨hm.1, hm.2, eventId, row, now, rfl, rfl⟩
    rw [Transfer.announced, if_pos hm]
    exact ⟨hT, Db.transferEvents_planned hplanned hO, rfl, rfl, rfl, hO⟩

/-- The row with this identifier is the only one. -/
theorem eq_of_transfer? {db : Db} {a row : Transfer} (hrow : db.transfer? row.id = some row)
    (ha : a ∈ db.transfers.rows) (hid : a.id = row.id) : a = row :=
  db.transfers.eq_of_clash ha (Db.transfer?_eq_some.mp hrow).1 (Transfer.clash_of_id hid)

/-- What applying an observed status to the row as it stands leaves, when no one has
been in between. -/
theorem exec_applyObserved (env : Env) {h : Host} {row : Transfer}
    (hrow : h.db.transfer? row.id = some row) (observed : TransferStatus) (now : ℤ) :
    ∃ h', exec env (applyObserved row observed now) h =
        (.ok (decide (TransferMove row.status observed)), h') ∧
      h'.db.transfers.rows =
        Table.replace Transfer.id row.id (Transfer.apply observed now) h.db.transfers.rows ∧
      (∀ id, h'.db.transferEvents id = h.db.transferEvents id ++
        if id = row.id then row.status.out observed else []) ∧
      (¬ TransferMove row.status observed → h' = h) ∧
      h'.db.assets = h.db.assets ∧ h'.db.payments = h.db.payments ∧
      h'.db.nodeState = h.db.nodeState ∧
      ∃ eventId, h'.db.webhookOutbox.rows = h.db.webhookOutbox.rows ++
        row.announced h.db.webhookOutbox eventId observed now := by
  rw [applyObserved, planTransition_eq]
  by_cases hm : TransferMove row.status observed
  · rw [if_pos hm]
    obtain ⟨db', hok, hexec⟩ := exec_applyTransition env hrow hm.ne now
    obtain ⟨hrows, hevents, hassets, hpayments, hnode, hout⟩ := applyTransition_view hm hok
    refine ⟨{ h.draw with db := db' }, ?_, ?_, fun id => ?_, fun hno => absurd hm hno, hassets,
      hpayments, hnode, h.nextUuid, hout⟩
    · rw [decide_eq_true hm]
      exact hexec
    · rw [show ({ h.draw with db := db' } : Host).db.transfers.rows = db'.transfers.rows from rfl,
        hrows]
      refine Table.replace_congr fun a ha hid => ?_
      rw [eq_of_transfer? hrow ha hid, Transfer.apply, if_pos hm]
    · rw [TransferStatus.out, if_pos hm]
      exact hevents id
  · rw [if_neg hm]
    have hkeep : Table.replace Transfer.id row.id (Transfer.apply observed now)
        h.db.transfers.rows = h.db.transfers.rows := by
      refine (Table.replace_congr fun a ha hid => ?_).trans (Table.replace_id ..)
      rw [eq_of_transfer? hrow ha hid]
      exact if_neg hm
    refine ⟨h, by simp [hm], hkeep.symm, fun id => ?_, fun _ => rfl, rfl, rfl, rfl, 0, ?_⟩
    · simp [TransferStatus.out, hm]
    · simp [Transfer.announced, hm]

/-! ## Observing a listed transfer -/

/-- The rows after an observation, with the identifier a new row gets. -/
def Observed.rows (o : Observed) (id : ℕ) (now : ℤ) (db : Db) : List Transfer :=
  match db.findObserved o with
  | some r => Table.replace Transfer.id r.id (o.onto now) db.transfers.rows
  | none => db.transfers.rows ++ [o.row id now]

/-- The rows of an observation: the one it is of, and those that it leaves alone. -/
theorem mem_rows {o : Observed} {id : ℕ} {now : ℤ} {db : Db} {r : Transfer}
    (hr : r ∈ o.rows id now db) : r.rlnIdx = some o.rlnIdx ∨ r ∈ db.transfers.rows := by
  unfold Observed.rows at hr
  split at hr
  · obtain ⟨a, -, -, rfl⟩ | ⟨hold, -⟩ := Table.mem_replace.mp hr
    · exact Or.inl (rlnIdx_onto o now a)
    · exact Or.inr hold
  · obtain hold | hnew := List.mem_append.mp hr
    · exact Or.inr hold
    · rw [List.mem_singleton.mp hnew]
      exact Or.inl rfl

/-- What is announced by an observation of the transfer `id`. -/
def Observed.out (o : Observed) (db : Db) (id : ℕ) : List String :=
  match db.findObserved o with
  | some r => if id = r.id then r.status.out o.status else []
  | none => []

/-- A transfer that can be mirrored is. -/
theorem exec_mirrorTransfer (env : Env) {h : Host} {assetId : Option String} {t : RlnTransfer}
    (hfit : FitsColumn t.expirationTimestamp) (now : ℤ)
    (hm : h.db.Mirrorable (t.observed assetId)) :
    ∃ moved h', exec env (mirrorTransfer assetId t now) h = (.ok moved, h') ∧
      h'.db.transfers.rows = (t.observed assetId).rows h.nextUuid now h.db ∧
      (∀ id, h'.db.transferEvents id =
        h.db.transferEvents id ++ (t.observed assetId).out h.db id) ∧
      h'.db.assets = h.db.assets ∧ h'.db.payments = h.db.payments ∧
      h'.db.nodeState = h.db.nodeState := by
  obtain ⟨row, db₁, hup⟩ := (Db.upsertObserved_isOk_iff
    (fun r hr => Nat.ne_of_lt (Host.transfer_lt_nextUuid hr)) hfit now).mpr hm
  have hcommit : exec env (Fallible.mapErr SyncError.store
      (store (.upsertObserved (t.observed assetId) now))) h =
        (.ok row, { h.draw with db := db₁ }) :=
    exec_store_ok SyncError.store (Host.commit_eq_ok hup)
  obtain ⟨h', happly, hrows, hevents, hkept, hassets, hpayments, hnode, -⟩ :=
    exec_applyObserved env (h := { h.draw with db := db₁ }) (transfer?_upsertObserved hup)
      t.status now
  refine ⟨_, h', (Fallible.exec_bind_ok _ hcommit).trans happly, ?_⟩
  rcases Db.upsertObserved_ok hup with ⟨T, rfl, ⟨r, hr, rfl, hT⟩ | ⟨hnone, rfl, -, hT⟩⟩
  · refine ⟨?_, fun id => ?_, hassets, hpayments, hnode⟩
    · rw [hrows, Observed.rows, hr]
      have hT' : ({ h.draw with db := { h.db with transfers := T } } : Host).db.transfers.rows =
          Table.replace Transfer.id r.id ((t.observed assetId).merge now) h.db.transfers.rows := hT
      rw [hT']
      exact Table.replace_replace (f := (t.observed assetId).merge now) (k := r.id)
        (g := Transfer.apply t.status now) (fun _ => rfl) _
    · rw [hevents, Observed.out, hr]
      rfl
  · have hstay : ¬ TransferMove ((t.observed assetId).row h.nextUuid now).status t.status :=
      not_transferMove_self t.status
    have hh' := hkept hstay
    rw [hh', Observed.rows, hnone]
    refine ⟨hT, fun id => ?_, rfl, rfl, rfl⟩
    rw [Observed.out, hnone, List.append_nil]
    rfl

end Companion
