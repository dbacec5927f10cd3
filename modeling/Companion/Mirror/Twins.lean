import Companion.Lib.Alike
import Companion.Mirror.Chain

/-!
# Observes that look alike

Two syncs that make the same observations leave mirrors that differ only in what was
generated on the way: timestamps, and the identifiers of new rows and events.  A view
forgets these, and an observation takes mirrors that look alike to mirrors that do.

## Main definitions

* `Transfer.bare`, `Transfer.anon` — a row without timestamps, and without a generated
  identifier either.
* `View` — what a view of rows has to keep.
* `Twins` — databases that look alike.
* `Twins.mirror`, `Twins.mirrors` — an observation, and a chain of them, from twins.
-/

set_option autoImplicit false

namespace Companion
open Lib

/-! ## Views -/

/-- A row without its timestamps, except that they are there. -/
def Transfer.bare (r : Transfer) : Transfer :=
  { r with
    createdAt := 0
    updatedAt := 0
    lastSeenAt := r.lastSeenAt.map fun _ => 0
    settledAt := r.settledAt.map fun _ => 0 }

/-- A row without what may have been generated for it by a sync. -/
def Transfer.anon (r : Transfer) : Transfer :=
  { r.bare with id := if r.rlnIdx.isSome then 0 else r.id }

/-- A view keeps what observations look at, and tells the rows of a table apart. -/
structure View (v : Transfer → Transfer) : Prop where
  rlnIdx : ∀ r, (v r).rlnIdx = r.rlnIdx
  assetId : ∀ r, (v r).assetId = r.assetId
  status : ∀ r, (v r).status = r.status
  recipientId : ∀ r, (v r).recipientId = r.recipientId
  txid : ∀ r, (v r).txid = r.txid
  merge : ∀ (o : Observed) now now' r r', v r = v r' → v (o.merge now r) = v (o.merge now' r')
  apply : ∀ (s : TransferStatus) now now' r r', v r = v r' → v (r.apply s now) = v (r'.apply s now')
  inj : ∀ (db : Db), ∀ r ∈ db.transfers.rows, ∀ r' ∈ db.transfers.rows, v r = v r' → r = r'

theorem bare_advance {r r' : Transfer} (h : r.bare = r'.bare) (dst : TransferStatus)
    (now now' : ℤ) : (r.advance dst now).bare = (r'.advance dst now').bare := by
  simp only [Transfer.bare, Transfer.mk.injEq] at h
  by_cases hs : dst = .settled <;> simp [Transfer.bare, Transfer.advance, h, hs]

theorem anon_advance {r r' : Transfer} (h : r.anon = r'.anon) (dst : TransferStatus)
    (now now' : ℤ) : (r.advance dst now).anon = (r'.advance dst now').anon := by
  simp only [Transfer.anon, Transfer.bare, Transfer.mk.injEq] at h
  have hid := h.1
  rw [h.2.1] at hid
  by_cases hs : dst = .settled <;>
    simp [Transfer.anon, Transfer.bare, Transfer.advance, h, hid, hs]

theorem anon_of_bare {r r' : Transfer} (h : r.bare = r'.bare) : r.anon = r'.anon := by
  have hid : r.bare.id = r'.bare.id := by rw [h]
  have hidx : r.bare.rlnIdx = r'.bare.rlnIdx := by rw [h]
  replace hid : r.id = r'.id := hid
  replace hidx : r.rlnIdx = r'.rlnIdx := hidx
  rw [Transfer.anon, Transfer.anon, h, hid, hidx]

/-- A status is applied to rows that look alike with the same effect. -/
theorem apply_of_advance {v : Transfer → Transfer} {r r' : Transfer} {s : TransferStatus}
    {now now' : ℤ} (hstatus : r.status = r'.status) (h : v r = v r')
    (hadvance : v (r.advance s now) = v (r'.advance s now')) :
    v (r.apply s now) = v (r'.apply s now') := by
  unfold Transfer.apply
  rw [hstatus]
  split
  · exact hadvance
  · exact h

theorem bare_view : View Transfer.bare where
  rlnIdx _ := rfl
  assetId _ := rfl
  status _ := rfl
  recipientId _ := rfl
  txid _ := rfl
  merge o now now' r r' h := by
    simp only [Transfer.bare, Transfer.mk.injEq] at h
    simp [Transfer.bare, Observed.merge, h]
  apply s now now' r r' h := by
    have hstatus : r.bare.status = r'.bare.status := by rw [h]
    exact apply_of_advance hstatus h (bare_advance h s now now')
  inj db r hr r' hr' h := by
    have hid : r.bare.id = r'.bare.id := by rw [h]
    exact db.transfers.eq_of_clash hr hr' (Transfer.clash_of_id hid)

theorem anon_view : View Transfer.anon where
  rlnIdx _ := rfl
  assetId _ := rfl
  status _ := rfl
  recipientId _ := rfl
  txid _ := rfl
  merge o now now' r r' h := by
    simp only [Transfer.anon, Transfer.bare, Transfer.mk.injEq] at h
    simp [Transfer.anon, Transfer.bare, Observed.merge, h]
  apply s now now' r r' h := by
    have hstatus : r.anon.status = r'.anon.status := by rw [h]
    exact apply_of_advance hstatus h (anon_advance h s now now')
  inj db r hr r' hr' h := by
    have hidx : r.anon.rlnIdx = r'.anon.rlnIdx := by rw [h]
    cases hr₁ : r.rlnIdx with
    | some i => exact eq_of_bound hr hr' hr₁ (Eq.symm hidx |>.trans hr₁)
    | none =>
      have hid : r.anon.id = r'.anon.id := by rw [h]
      have hr₂ : r'.rlnIdx = none := Eq.symm hidx |>.trans hr₁
      simp only [Transfer.anon, hr₁, hr₂, Option.isSome_none, Bool.false_eq_true, if_false] at hid
      exact db.transfers.eq_of_clash hr hr' (Transfer.clash_of_id hid)

section Views
variable {v : Transfer → Transfer} (hv : View v)
include hv

theorem View.matches (o : Observed) (r : Transfer) :
    Db.matchesObserved o (v r) = Db.matchesObserved o r := by
  simp only [Db.matchesObserved, hv.rlnIdx, hv.recipientId, hv.txid, hv.assetId]

theorem View.rank (o : Observed) (r : Transfer) : Db.matchRank o (v r) = Db.matchRank o r := by
  simp only [Db.matchRank, hv.rlnIdx, hv.recipientId]

/-- The best match of an observation, in rows that look alike. -/
theorem View.find {l l' : List Transfer} (h : Alike v l l') (o : Observed) :
    ((l.filter (Db.matchesObserved o)).argmin (Db.matchRank o)).map v =
      ((l'.filter (Db.matchesObserved o)).argmin (Db.matchRank o)).map v := by
  have hmatch : (fun r => Db.matchesObserved o (v r)) = Db.matchesObserved o :=
    funext (hv.matches o)
  have hrank : (fun r => Db.matchRank o (v r)) = Db.matchRank o := funext (hv.rank o)
  have hfilter := h.filter (Db.matchesObserved o)
  rw [hmatch] at hfilter
  have hbest := hfilter.argmin (Db.matchRank o)
  rwa [hrank] at hbest

/-- One row is changed alike in tables that look alike. -/
theorem View.replace {db db' : Db} {l l' : List Transfer} {r r' : Transfer}
    {f g : Transfer → Transfer} (h : Alike v l l') (hl : ∀ a ∈ l, a ∈ db.transfers.rows)
    (hl' : ∀ a ∈ l', a ∈ db'.transfers.rows) (hr : r ∈ db.transfers.rows)
    (hr' : r' ∈ db'.transfers.rows) (hrr : v r = v r')
    (hfg : ∀ a a', v a = v a' → v (f a) = v (g a')) :
    Alike v (Table.replace Transfer.id r.id f l) (Table.replace Transfer.id r'.id g l') := by
  refine h.replace (fun a ha a' ha' haa => ?_) hfg
  constructor
  · intro hid
    have har : a = r := db.transfers.eq_of_clash (hl a ha) hr (Transfer.clash_of_id hid)
    rw [hv.inj db' a' (hl' a' ha') r' hr' (by rw [← haa, har, hrr])]
  · intro hid
    have har : a' = r' := db'.transfers.eq_of_clash (hl' a' ha') hr' (Transfer.clash_of_id hid)
    rw [hv.inj db a (hl a ha) r hr (by rw [haa, har, hrr])]

/-- A status is applied alike. -/
theorem View.applied {l l' : List Transfer} (h : Alike v l l') (idx : ℤ) (s : TransferStatus)
    (now now' : ℤ) :
    Alike v (l.map (Transfer.applied idx s now)) (l'.map (Transfer.applied idx s now')) := by
  refine h.carry fun a _ a' _ haa => ?_
  have hidx : a.rlnIdx = a'.rlnIdx := by rw [← hv.rlnIdx a, haa, hv.rlnIdx]
  unfold Transfer.applied
  rw [hidx]
  split
  · exact hv.apply s now now' a a' haa
  · exact haa

end Views

/-! ## Twins -/

/-- A payload without what was generated for its event. -/
def Payload.anon : Payload → Payload
  | .transfer p => .transfer { p with eventId := 0, transfer := p.transfer.anon, timestamp := 0 }
  | .payment p => .payment p

/-- A queued event without its identifier and times. -/
def OutboxRow.anon (e : OutboxRow) : OutboxRow :=
  { e with id := 0, payload := e.payload.anon, nextAttemptAt := 0 }

/-- What is mirrored of an asset, without the time. -/
def Asset.entry (a : Asset) : String × String × Option ℤ :=
  (a.assetId, a.schema, a.lastSyncedAt.map fun _ => 0)

/-- The databases hold the same rows and have queued the same events, up to what syncs
generate. -/
structure Twins (db db' : Db) : Prop where
  transfers : Alike Transfer.anon db.transfers.rows db'.transfers.rows
  assets : Alike Asset.entry db.assets.rows db'.assets.rows
  outbox : Alike OutboxRow.anon db.webhookOutbox.rows db'.webhookOutbox.rows
  payments : db'.payments = db.payments
  nodeState : db'.nodeState = db.nodeState

/-- Nothing has changed but the times at which rows and assets were last seen. -/
structure Unmoved (db db' : Db) : Prop where
  transfers : Alike Transfer.bare db.transfers.rows db'.transfers.rows
  assets : Alike Asset.entry db.assets.rows db'.assets.rows
  frame : db' = { db with transfers := db'.transfers, assets := db'.assets }

theorem Unmoved.twins {db db' : Db} (h : Unmoved db db') : Twins db db' := by
  refine ⟨h.transfers.mono fun _ _ => anon_of_bare, h.assets, ?_, ?_, ?_⟩
  · rw [h.frame]
    exact .refl _ _
  · rw [h.frame]
  · rw [h.frame]

section Twins
variable {env : Env} {o : Observed} {now : ℤ} {h h₁ g : Host} {row row' : Transfer}

/-- What can be mirrored in one of them can be in the other. -/
theorem Twins.mirrorable {db db' : Db} (ht : Twins db db') (hm : db.Mirrorable o) :
    db'.Mirrorable o := by
  rcases hm with ⟨r, hr, hmatch⟩ | hfree
  · obtain ⟨r', hr', hview⟩ := ht.transfers.exists_mem hr
    refine Or.inl ⟨r', hr', ?_⟩
    rw [← anon_view.matches, hview, anon_view.matches, hmatch]
  · refine Or.inr fun r' hr' => ?_
    obtain ⟨r, hr, hview⟩ := ht.transfers.symm.exists_mem hr'
    rw [← anon_view.recipientId, ← hview, anon_view.recipientId]
    exact hfree r hr

/-- The rows an upsert leaves. -/
theorem Twins.upserted {db db' : Db} (ht : Twins db db') (o : Observed) (id id' : ℕ)
    (now now' : ℤ) :
    Alike Transfer.anon (o.upserted id now db) (o.upserted id' now' db') := by
  have hfind : (db.findObserved o).map Transfer.anon = (db'.findObserved o).map Transfer.anon :=
    anon_view.find ht.transfers o
  unfold Observed.upserted
  cases hf : db.findObserved o with
  | none =>
    have hf' : db'.findObserved o = none := by simpa [hf, eq_comm] using hfind
    rw [hf']
    exact ht.transfers.append rfl
  | some r =>
    obtain ⟨r', hf', hrr⟩ : ∃ r', db'.findObserved o = some r' ∧ r'.anon = r.anon := by
      simpa [hf, eq_comm] using hfind
    rw [hf']
    exact anon_view.replace ht.transfers (fun _ ha => ha) (fun _ ha => ha)
      (Db.findObserved_some hf).1 (Db.findObserved_some hf').1 hrr.symm
      (anon_view.merge o now now')

/-- The rows bound to one index are twins. -/
theorem Twins.bound {db db' : Db} (ht : Twins db db') {idx : ℤ} (hrow : row ∈ db.transfers.rows)
    (hrow' : row' ∈ db'.transfers.rows) (hidx : row.rlnIdx = some idx)
    (hidx' : row'.rlnIdx = some idx) : row.anon = row'.anon := by
  obtain ⟨a, ha, hview⟩ := ht.transfers.exists_mem hrow
  have haidx : a.rlnIdx = some idx := by
    rw [← anon_view.rlnIdx, hview, anon_view.rlnIdx, hidx]
  rw [← hview, eq_of_bound ha hrow' haidx hidx']

/-- An upsert takes twins to twins. -/
theorem Twins.upsert (ht : Twins h.db g.db)
    (hp : (StoreOp.upsertObserved o now).perform h = (.ok row, h₁)) (now' : ℤ) :
    ∃ row' g₁, (StoreOp.upsertObserved o now').perform g = (.ok row', g₁) ∧ Twins h₁.db g₁.db := by
  have hu := upserts_of_perform hp
  obtain ⟨row', g₁, hp'⟩ := perform_upsert g hu.fits (ht.mirrorable (mirrorable_of_perform hp)) now'
  have hu' := upserts_of_perform hp'
  obtain ⟨id, hrows⟩ := hu.rows
  obtain ⟨id', hrows'⟩ := hu'.rows
  refine ⟨row', g₁, hp', ?_, ?_, ?_, ?_, ?_⟩
  · rw [hrows, hrows']
    exact ht.upserted o id id' now now'
  all_goals rw [hu.frame, hu'.frame]
  · exact ht.assets
  · exact ht.outbox
  · exact ht.payments
  · exact ht.nodeState

/-- What is queued of a move. -/
theorem announced_alike {outbox outbox' : Table OutboxRow OutboxRow.Clash}
    (hlen : outbox.rows.length = outbox'.rows.length) (hrow : row.anon = row'.anon)
    (eventId eventId' : ℕ) (observed : TransferStatus) (now now' : ℤ) :
    Alike OutboxRow.anon (row.announced outbox eventId observed now)
      (row'.announced outbox' eventId' observed now') := by
  have hstatus : row.anon.status = row'.anon.status := by rw [hrow]
  replace hstatus : row.status = row'.status := hstatus
  unfold Transfer.announced
  rw [hstatus]
  split
  · cases he : EventType.of observed with
    | none => rfl
    | some e =>
      have hadvance := anon_advance hrow observed now now'
      simp only [Transfer.advance] at hadvance
      simp [Alike, Db.eventRows, transitionEvent, Db.outboxRow, OutboxRow.anon, Payload.anon,
        eventPayload, hlen, hadvance]
  · rfl

/-- Applying a status takes twins to twins. -/
theorem Twins.applied {idx : ℤ} (ht : Twins h.db g.db) (hrow : row ∈ h.db.transfers.rows)
    (hrow' : row' ∈ g.db.transfers.rows) (hidx : row.rlnIdx = some idx)
    (hidx' : row'.rlnIdx = some idx) {observed : TransferStatus} {moved : Bool}
    (hok : exec env (applyObserved row observed now) h = (.ok moved, h₁)) (now' : ℤ) :
    ∃ g₁, exec env (applyObserved row' observed now') g = (.ok moved, g₁) ∧ Twins h₁.db g₁.db := by
  have hanon := ht.bound hrow hrow' hidx hidx'
  have hstatus : row.anon.status = row'.anon.status := by rw [hanon]
  replace hstatus : row.status = row'.status := hstatus
  obtain ⟨h₂, hok₂, ha⟩ := exec_applyObserved_bound env hrow hidx observed now
  cases hok.symm.trans hok₂
  obtain ⟨g₁, hok', ha'⟩ := exec_applyObserved_bound env hrow' hidx' observed now'
  obtain ⟨eventId, hout⟩ := ha.outbox
  obtain ⟨eventId', hout'⟩ := ha'.outbox
  rw [← hstatus] at hok'
  refine ⟨g₁, hok', ?_, ?_, ?_, ?_, ?_⟩
  · rw [ha.rows, ha'.rows]
    exact anon_view.applied ht.transfers idx observed now now'
  · rw [ha.assets, ha'.assets]
    exact ht.assets
  · rw [hout, hout']
    exact ht.outbox.append (announced_alike ht.outbox.length_eq hanon ..)
  · rw [ha.payments, ha'.payments, ht.payments]
  · rw [ha.nodeState, ha'.nodeState, ht.nodeState]

/-- An observation takes twins to twins. -/
theorem Twins.mirror (ht : Twins h.db g.db) {moved : Bool}
    (hok : exec env (o.mirror now) h = (.ok moved, h₁)) (now' : ℤ) :
    ∃ g₁, exec env (o.mirror now') g = (.ok moved, g₁) ∧ Twins h₁.db g₁.db := by
  obtain ⟨row, h₂, hp, happly⟩ := exec_mirror_ok_iff.mp hok
  obtain ⟨row', g₂, hp', ht₂⟩ := ht.upsert hp now'
  have hu := upserts_of_perform hp
  have hu' := upserts_of_perform hp'
  obtain ⟨g₁, happly', ht₁⟩ := ht₂.applied hu.mem hu'.mem hu.bound hu'.bound happly now'
  exact ⟨g₁, exec_mirror_ok_iff.mpr ⟨row', g₂, hp', happly'⟩, ht₁⟩

/-- A chain of observations takes twins to twins. -/
theorem Twins.mirrors {os : List Observed} {m : ℕ} (hs : Observes env now os m h h₁)
    (ht : Twins h.db g.db) (now' : ℤ) :
    ∃ g₁, Observes env now' os m g g₁ ∧ Twins h₁.db g₁.db := by
  induction hs generalizing g with
  | nil h => exact ⟨g, .nil g, ht⟩
  | cons hok _ ih =>
    obtain ⟨g₂, hok', ht₂⟩ := ht.mirror hok now'
    obtain ⟨g₁, hs', ht₁⟩ := ih ht₂
    exact ⟨g₁, .cons hok' hs', ht₁⟩

end Twins
end Companion
