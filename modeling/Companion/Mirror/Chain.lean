import Companion.Mirror.Observation

/-!
# A sync as a chain of observations

A sync that completes has made a list of observations, one after another, each of them
two writes: the upsert, and the transition planned from the row it returned.  What the
observations are is settled by the scope and the node, not by what was written on the
way, so two syncs over one listing make the same ones.

## Main definitions

* `Observed.mirror`, `Observes` — one observation, and a chain of them.
* `Shown` — the observations a sync makes.
* `exec_sync_ok_iff` — a sync completes exactly when the chain does.
* `Observed.upserted`, `Transfer.applied` — what the two writes leave.
-/

set_option autoImplicit false

namespace Companion
open Lib

/-! ## One observation -/

/-- `observe`, apart from its report. -/
def Observed.mirror (o : Observed) (now : ℤ) : Prog SyncError Bool := do
  let row ← Fallible.mapErr .store (store (.upsertObserved o now))
  applyObserved row o.status now

theorem mirrorTransfer_eq (assetId : Option String) (t : RlnTransfer) (now : ℤ) :
    mirrorTransfer assetId t now = (t.observed assetId).mirror now := rfl

section Observation
variable {env : Env} {o : Observed} {now : ℤ} {h h' : Host} {moved : Bool}

/-- An observation is its upsert and then its transition. -/
theorem exec_mirror_ok_iff :
    exec env (o.mirror now) h = (.ok moved, h') ↔
      ∃ (row : Transfer) (h₁ : Host), (StoreOp.upsertObserved o now).perform h = (.ok row, h₁) ∧
        exec env (applyObserved row o.status now) h₁ = (.ok moved, h') := by
  rcases hup : (StoreOp.upsertObserved o now).perform h with ⟨e | row, h₁⟩
  · have hexec : exec env (o.mirror now) h = (.error (.store e), h₁) :=
      Fallible.exec_bind_error _ (exec_store_error SyncError.store hup)
    simp [hexec]
  · have hexec : exec env (o.mirror now) h = exec env (applyObserved row o.status now) h₁ :=
      Fallible.exec_bind_ok _ (exec_store_ok SyncError.store hup)
    rw [hexec]
    constructor
    · exact fun hok => ⟨row, h₁, rfl, hok⟩
    · rintro ⟨row', h₁', heq, hok⟩
      cases heq
      exact hok

/-- The rows an upsert leaves, with the identifier a new row gets. -/
def Observed.upserted (o : Observed) (id : ℕ) (now : ℤ) (db : Db) : List Transfer :=
  match db.findObserved o with
  | some r => Table.replace Transfer.id r.id (o.merge now) db.transfers.rows
  | none => db.transfers.rows ++ [o.row id now]

/-- What an upsert leaves: its row is bound, and nothing but the transfers has changed. -/
structure Observed.Upserts (o : Observed) (now : ℤ) (db db' : Db) (row : Transfer) : Prop where
  fits : FitsColumn o.expirationTimestamp
  rows : ∃ id, db'.transfers.rows = o.upserted id now db
  mem : row ∈ db'.transfers.rows
  bound : row.rlnIdx = some o.rlnIdx
  frame : db' = { db with transfers := db'.transfers }

theorem upserts_of_perform {row : Transfer}
    (hp : (StoreOp.upsertObserved o now).perform h = (.ok row, h')) :
    o.Upserts now h.db h'.db row := by
  obtain ⟨db', hok, rfl⟩ := Host.commit_ok hp
  have hmem := (Db.transfer?_eq_some.mp (transfer?_upsertObserved hok)).1
  refine ⟨Db.fits_of_upsertObserved hok, ⟨h.nextUuid, ?_⟩, hmem, ?_, ?_⟩
  all_goals rcases Db.upsertObserved_ok hok with ⟨T, rfl, ⟨r, hr, rfl, hT⟩ | ⟨hnone, rfl, -, hT⟩⟩
  · rw [Observed.upserted, hr]
    exact hT
  · rw [Observed.upserted, hnone]
    exact hT
  all_goals rfl

/-- An upsert goes through whenever the transfer can be mirrored. -/
theorem perform_upsert (h : Host) (hfit : FitsColumn o.expirationTimestamp)
    (hm : h.db.Mirrorable o) (now : ℤ) :
    ∃ (row : Transfer) (h' : Host),
      (StoreOp.upsertObserved o now).perform h = (.ok row, h') := by
  obtain ⟨row, db', hok⟩ := (Db.upsertObserved_isOk_iff
    (fun r hr => Nat.ne_of_lt (Host.transfer_lt_nextUuid hr)) hfit now).mpr hm
  exact ⟨row, _, congrArg h.draw.commit hok⟩

/-- And only then. -/
theorem mirrorable_of_perform {row : Transfer}
    (hp : (StoreOp.upsertObserved o now).perform h = (.ok row, h')) : h.db.Mirrorable o := by
  obtain ⟨db', hok, -⟩ := Host.commit_ok hp
  exact (Db.upsertObserved_isOk_iff (fun r hr => Nat.ne_of_lt (Host.transfer_lt_nextUuid hr))
    (Db.fits_of_upsertObserved hok) now).mp ⟨row, db', hok⟩

/-- The rows after the status `observed` has been applied to the one bound to `idx`. -/
def Transfer.applied (idx : ℤ) (observed : TransferStatus) (now : ℤ) (r : Transfer) : Transfer :=
  if r.rlnIdx = some idx then r.apply observed now else r

/-- What applying a status to a bound row leaves. -/
structure Applies (row : Transfer) (idx : ℤ) (observed : TransferStatus) (now : ℤ) (db db' : Db) :
    Prop where
  rows : db'.transfers.rows = db.transfers.rows.map (Transfer.applied idx observed now)
  outbox : ∃ eventId, db'.webhookOutbox.rows = db.webhookOutbox.rows ++
    row.announced db.webhookOutbox eventId observed now
  events : ∀ id, db'.transferEvents id = db.transferEvents id ++
    if id = row.id then row.status.out observed else []
  assets : db'.assets = db.assets
  payments : db'.payments = db.payments
  nodeState : db'.nodeState = db.nodeState

/-- The one row with an index. -/
theorem eq_of_bound {db : Db} {a b : Transfer} {idx : ℤ} (ha : a ∈ db.transfers.rows)
    (hb : b ∈ db.transfers.rows) (hia : a.rlnIdx = some idx) (hib : b.rlnIdx = some idx) : a = b :=
  db.transfers.eq_of_clash ha hb (Or.inr (Or.inl (by simp [hia, hib])))

/-- A change of the row bound to an index, by its index instead of its identifier. -/
theorem replace_bound {db : Db} {row : Transfer} {idx : ℤ} (hmem : row ∈ db.transfers.rows)
    (hbound : row.rlnIdx = some idx) (f : Transfer → Transfer) :
    Table.replace Transfer.id row.id f db.transfers.rows =
      db.transfers.rows.map fun r => if r.rlnIdx = some idx then f r else r := by
  refine List.map_congr_left fun a ha => ?_
  by_cases hid : a.id = row.id
  · have hsame := db.transfers.eq_of_clash ha hmem (Transfer.clash_of_id hid)
    simp [hsame, hbound]
  · have hother : a.rlnIdx ≠ some idx := fun hia => hid (by rw [eq_of_bound ha hmem hia hbound])
    simp [hid, hother]

/-- A status is always applied to a row as it stands. -/
theorem exec_applyObserved_bound (env : Env) {row : Transfer} {idx : ℤ}
    (hmem : row ∈ h.db.transfers.rows) (hbound : row.rlnIdx = some idx)
    (observed : TransferStatus) (now : ℤ) :
    ∃ h', exec env (applyObserved row observed now) h =
        (.ok (decide (TransferMove row.status observed)), h') ∧
      Applies row idx observed now h.db h'.db := by
  obtain ⟨h', hexec, hrows, hevents, -, hassets, hpayments, hnode, hout⟩ :=
    exec_applyObserved env (Db.transfer?_eq_some.mpr ⟨hmem, rfl⟩) observed now
  refine ⟨h', hexec, ?_, hout, hevents, hassets, hpayments, hnode⟩
  rw [hrows]
  exact replace_bound hmem hbound _

end Observation

/-! ## Chains -/

/-- The observations go through one after another, `m` of them as moves. -/
inductive Observes (env : Env) (now : ℤ) : List Observed → ℕ → Host → Host → Prop
  | nil (h : Host) : Observes env now [] 0 h h
  | cons {o : Observed} {os : List Observed} {moved : Bool} {m : ℕ} {h h₁ h' : Host} :
      exec env (o.mirror now) h = (.ok moved, h₁) → Observes env now os m h₁ h' →
      Observes env now (o :: os) ((if moved then 1 else 0) + m) h h'

section Chains
variable {env : Env} {now : ℤ} {os os' : List Observed} {m n : ℕ} {h h₁ h' : Host}

theorem Observes.append (hs : Observes env now os m h h₁) (hs' : Observes env now os' n h₁ h') :
    Observes env now (os ++ os') (m + n) h h' := by
  induction hs with
  | nil => simpa using hs'
  | cons hok _ ih =>
    rw [Nat.add_assoc]
    exact .cons hok (ih hs')

theorem Observes.split (hs : Observes env now (os ++ os') m h h') :
    ∃ m₁ m₂ h₁, m = m₁ + m₂ ∧ Observes env now os m₁ h h₁ ∧ Observes env now os' m₂ h₁ h' := by
  induction os generalizing m h with
  | nil => exact ⟨0, m, h, by simp, .nil h, hs⟩
  | cons o os ih =>
    cases hs with
    | cons hok hs =>
      obtain ⟨m₁, m₂, h₁, rfl, hs₁, hs₂⟩ := ih hs
      exact ⟨_, m₂, h₁, (Nat.add_assoc ..).symm, .cons hok hs₁, hs₂⟩

/-- The report after `n` more transfers, `m` of them moved. -/
def SyncReport.after (report : SyncReport) (n m : ℕ) : SyncReport :=
  { report with transfers := report.transfers + n, transitions := report.transitions + m }

theorem SyncReport.after_after (report : SyncReport) (n n' m m' : ℕ) :
    (report.after n m).after n' m' = report.after (n + n') (m + m') := by
  simp only [SyncReport.after, SyncReport.mk.injEq, true_and]
  omega

/-- The body of the loop. -/
theorem exec_observe_ok_iff {assetId : Option String} {t : RlnTransfer}
    {report report' : SyncReport} :
    exec env (observe report assetId t now) h = (.ok report', h') ↔
      ∃ moved, exec env ((t.observed assetId).mirror now) h = (.ok moved, h') ∧
        report' = report.add moved := by
  rw [exec_observe, mirrorTransfer_eq]
  rcases exec env ((t.observed assetId).mirror now) h with ⟨e | moved, h₁⟩
  · simp [Except.map]
  · cases moved <;> simp [Except.map, eq_comm, and_comm]

/-- A call to the node. -/
theorem exec_node_ok_iff {c : NodeCall} {res : c.Res} :
    exec env (Fallible.mapErr SyncError.rln (node c)) h = (.ok res, h') ↔
      env.node c = .ok res ∧ h' = h := by
  rw [exec_node]
  cases env.node c <;> simp [Except.mapError, eq_comm]

/-- An operation of the store. -/
theorem exec_store_ok_iff {q : StoreOp} {res : q.Res} :
    exec env (Fallible.mapErr SyncError.store (store q)) h = (.ok res, h') ↔
      q.perform h = (.ok res, h') := by
  rw [exec_store]
  rcases q.perform h with ⟨e | a, h₁⟩ <;> simp [Except.mapError]

/-- The loop over one listing. -/
theorem exec_observeAll_ok_iff {assetId : Option String} {ts : List RlnTransfer}
    {report report' : SyncReport} :
    exec env (observeAll assetId now ts report) h = (.ok report', h') ↔
      ∃ m, Observes env now (ts.map (RlnTransfer.observed assetId)) m h h' ∧
        report' = report.after ts.length m := by
  induction ts generalizing report h with
  | nil =>
    simp only [observeAll, Fallible.exec_pure, List.map_nil, List.length_nil]
    constructor
    · intro hok
      cases hok
      exact ⟨0, .nil _, rfl⟩
    · rintro ⟨m, hs, rfl⟩
      cases hs
      rfl
  | cons t ts ih =>
    have hreport : ∀ moved m, (report.add moved).after ts.length m =
        report.after (ts.length + 1) ((if moved then 1 else 0) + m) := by
      intro moved m
      simp only [SyncReport.add, SyncReport.after, SyncReport.mk.injEq, true_and]
      omega
    refine (Fallible.exec_bind_eq_ok _).trans ?_
    simp only [exec_observe_ok_iff, ih, List.map_cons, List.length_cons]
    constructor
    · rintro ⟨_, h₁, ⟨moved, hok, rfl⟩, m, hs, rfl⟩
      exact ⟨_, .cons hok hs, hreport moved m⟩
    · rintro ⟨_, hs, rfl⟩
      cases hs with
      | @cons _ _ moved m _ h₁ _ hok hs =>
        exact ⟨_, h₁, ⟨moved, hok, rfl⟩, m, hs, (hreport moved m).symm⟩

end Chains

/-! ## What a chain keeps -/

/-- Rows keep their identifiers and their order, and rows and events are only added. -/
structure Extends (db db' : Db) : Prop where
  ids : db.transfers.rows.map Transfer.id <+: db'.transfers.rows.map Transfer.id
  outbox : db.webhookOutbox.rows <+: db'.webhookOutbox.rows

section Extends
variable {env : Env} {now : ℤ} {os : List Observed} {o : Observed} {m : ℕ} {h h' : Host}
  {moved : Bool}

theorem Extends.refl (db : Db) : Extends db db := ⟨List.prefix_refl _, List.prefix_refl _⟩

theorem Extends.trans {db db' db'' : Db} (h : Extends db db') (h' : Extends db' db'') :
    Extends db db'' :=
  ⟨h.ids.trans h'.ids, h.outbox.trans h'.outbox⟩

theorem Observed.Upserts.extends {db db' : Db} {row : Transfer} (hu : o.Upserts now db db' row) :
    Extends db db' := by
  obtain ⟨id, hrows⟩ := hu.rows
  refine ⟨?_, ?_⟩
  · rw [hrows, Observed.upserted]
    cases db.findObserved o with
    | none => simp
    | some r =>
      have hsame :
          (Table.replace Transfer.id r.id (o.merge now) db.transfers.rows).map Transfer.id =
            db.transfers.rows.map Transfer.id := by
        apply Table.map_replace
        intro a
        rfl
      simp [hsame]
  · have hkept : db'.webhookOutbox = db.webhookOutbox := by rw [hu.frame]
    simp [hkept]

theorem extends_mirror (hok : exec env (o.mirror now) h = (.ok moved, h')) :
    Extends h.db h'.db := by
  obtain ⟨row, h₁, hp, happly⟩ := exec_mirror_ok_iff.mp hok
  have hu := upserts_of_perform hp
  obtain ⟨h₂, hok₂, ha⟩ := exec_applyObserved_bound env hu.mem hu.bound o.status now
  cases happly.symm.trans hok₂
  refine hu.extends.trans ⟨?_, ?_⟩
  · have hid : ∀ r : Transfer, (r.applied o.rlnIdx o.status now).id = r.id := by
      intro r
      unfold Transfer.applied
      split <;> simp
    have hsame : h'.db.transfers.rows.map Transfer.id = h₁.db.transfers.rows.map Transfer.id := by
      rw [ha.rows, List.map_map]
      exact List.map_congr_left fun r _ => hid r
    simp [hsame]
  · obtain ⟨eventId, hout⟩ := ha.outbox
    rw [hout]
    exact List.prefix_append _ _

theorem extends_observes (hs : Observes env now os m h h') : Extends h.db h'.db := by
  induction hs with
  | nil => exact .refl _
  | cons hok _ ih => exact (extends_mirror hok).trans ih

theorem assets_mirror (hok : exec env (o.mirror now) h = (.ok moved, h')) :
    h'.db.assets = h.db.assets := by
  obtain ⟨row, h₂, hp, happly⟩ := exec_mirror_ok_iff.mp hok
  have hu := upserts_of_perform hp
  obtain ⟨h₃, hok₃, ha⟩ := exec_applyObserved_bound env hu.mem hu.bound o.status now
  cases happly.symm.trans hok₃
  rw [ha.assets, hu.frame]

theorem assets_observes (hs : Observes env now os m h h') : h'.db.assets = h.db.assets := by
  induction hs with
  | nil => rfl
  | cons hok _ ih => rw [ih, assets_mirror hok]

end Extends

/-! ## The observations of a sync -/

section Shown
variable {env : Env} {now : ℤ} {m : ℕ} {h h' : Host}

/-- The node lists these transfers of the assets `ids`, one asset after another. -/
inductive Listed (env : Env) (n : ℕ) : List String → List Observed → Prop
  | nil : Listed env n [] []
  | cons {id : String} {ids : List String} {ts : List RlnTransfer} {os : List Observed} :
      env.node (.listTransfers id n) = .ok ts → Listed env n ids os →
      Listed env n (id :: ids) (ts.map (RlnTransfer.observed (some id)) ++ os)

/-- The loop over the assets. -/
theorem exec_syncAssets_ok_iff {n : ℕ} {ids : List String} {report report' : SyncReport} :
    exec env (syncAssets n now ids report) h = (.ok report', h') ↔
      ∃ os m, Listed env n ids os ∧ Observes env now os m h h' ∧
        report' = report.after os.length m := by
  induction ids generalizing report h with
  | nil =>
    simp only [syncAssets, Fallible.exec_pure]
    constructor
    · intro hok
      cases hok
      exact ⟨[], 0, .nil, .nil _, rfl⟩
    · rintro ⟨os, m, hl, hs, rfl⟩
      cases hl
      cases hs
      rfl
  | cons id ids ih =>
    refine (Fallible.exec_bind_eq_ok _).trans ?_
    constructor
    · rintro ⟨(ts : List RlnTransfer), _, hcall, hok⟩
      obtain ⟨hnode, rfl⟩ := exec_node_ok_iff.mp hcall
      obtain ⟨_, h₁, hone, hrest⟩ := (Fallible.exec_bind_eq_ok _).mp hok
      obtain ⟨m, hs, rfl⟩ := exec_observeAll_ok_iff.mp hone
      obtain ⟨os, m', hl, hs', rfl⟩ := ih.mp hrest
      refine ⟨_, m + m', .cons hnode hl, hs.append hs', ?_⟩
      rw [SyncReport.after_after, List.length_append, List.length_map]
    · rintro ⟨_, m, hl, hs, rfl⟩
      cases hl with
      | @cons _ _ ts os hnode hl =>
        obtain ⟨m₁, m₂, h₁, rfl, hs₁, hs₂⟩ := hs.split
        refine ⟨ts, h, exec_node_ok_iff.mpr ⟨hnode, rfl⟩, (Fallible.exec_bind_eq_ok _).mpr ?_⟩
        refine ⟨_, h₁, exec_observeAll_ok_iff.mpr ⟨m₁, hs₁, rfl⟩, ih.mpr ⟨os, m₂, hl, hs₂, ?_⟩⟩
        rw [SyncReport.after_after, List.length_append, List.length_map]

/-- The transfers without an asset, when the scope has them listed. -/
inductive Opening (env : Env) (n : ℕ) : Bool → List Observed → Prop
  | skipped : Opening env n false []
  | listed {ts : List RlnTransfer} : env.node (.listAssetlessTransfers n) = .ok ts →
      Opening env n true (ts.map (RlnTransfer.observed none))

/-- The observations a sync makes, and the state it makes the first of them in. -/
def Shown (env : Env) (cfg : Config.Sync) (scope : Scope) (now : ℤ) (h : Host)
    (os : List Observed) (h₀ : Host) : Prop :=
  ∃ ids assetless os₁ os₂, exec env (scopeAssets scope now) h = (.ok (ids, assetless), h₀) ∧
    Opening env (cfg.pages scope) assetless os₁ ∧ Listed env (cfg.pages scope) ids os₂ ∧
    os = os₁ ++ os₂

/-- The assets are listed and written. -/
theorem exec_fetchAssets_ok {h₀ : Host} {listed : List String}
    (hok : exec env (fetchAssets now) h = (.ok listed, h₀)) :
    ∃ assets, env.node .listAssets = .ok assets ∧
      (StoreOp.upsertAssets assets now).perform h = (.ok (), h₀) ∧
      listed = assets.map Prod.fst := by
  obtain ⟨(assets : List (String × String)), _, hcall, hstore⟩ :=
    (Fallible.exec_bind_eq_ok _).mp hok
  obtain ⟨hnode, rfl⟩ := exec_node_ok_iff.mp hcall
  obtain ⟨u, h₂, hstore, hlisted⟩ := (Fallible.exec_bind_eq_ok _).mp hstore
  cases hlisted
  exact ⟨assets, hnode, exec_store_ok_iff.mp hstore, rfl⟩

/-- A full scope is all assets and the transfers without one. -/
theorem exec_scopeAssets_full {ids : List String} {assetless : Bool} {h₀ : Host}
    (hok : exec env (scopeAssets .full now) h = (.ok (ids, assetless), h₀)) :
    ∃ assets, env.node .listAssets = .ok assets ∧
      (StoreOp.upsertAssets assets now).perform h = (.ok (), h₀) ∧
      ids = btreeSet (assets.map Prod.fst) ∧ assetless = true := by
  obtain ⟨listed, h₁, hfetch, hpure⟩ := (Fallible.exec_bind_eq_ok _).mp hok
  cases hpure
  obtain ⟨assets, hnode, hstore, rfl⟩ := exec_fetchAssets_ok hfetch
  exact ⟨assets, hnode, hstore, rfl, rfl⟩

/-- The pending scope is the assets of the waiting rows; when one of them has none, it is
all assets as well, and the transfers without one. -/
theorem exec_scopeAssets_pending {ids : List String} {assetless : Bool} {h₀ : Host}
    (hok : exec env (scopeAssets .pending now) h = (.ok (ids, assetless), h₀)) :
    (h.db.pendingAssetIds.2 = false ∧ ids = btreeSet h.db.pendingAssetIds.1 ∧
        assetless = false ∧ h₀ = h) ∨
      (h.db.pendingAssetIds.2 = true ∧ assetless = true ∧
        ∃ assets, env.node .listAssets = .ok assets ∧
          (StoreOp.upsertAssets assets now).perform h = (.ok (), h₀) ∧
          ids = btreeSet (h.db.pendingAssetIds.1 ++ assets.map Prod.fst)) := by
  obtain ⟨pending, h₁, hread, hrest⟩ := (Fallible.exec_bind_eq_ok _).mp hok
  cases hread
  revert hrest
  rcases h.db.pendingAssetIds with ⟨ids₀, agnostic⟩
  cases agnostic with
  | false =>
    intro hrest
    cases hrest
    exact Or.inl ⟨rfl, rfl, rfl, rfl⟩
  | true =>
    intro hrest
    obtain ⟨listed, h₂, hfetch, hpure⟩ := (Fallible.exec_bind_eq_ok _).mp hrest
    cases hpure
    obtain ⟨assets, hnode, hstore, rfl⟩ := exec_fetchAssets_ok hfetch
    exact Or.inr ⟨rfl, rfl, assets, hnode, hstore, rfl⟩

/-- A sync completes exactly when its chain of observations does. -/
theorem exec_sync_ok_iff {cfg : Config.Sync} {scope : Scope} :
    (∃ report, exec env (sync cfg scope now) h = (.ok report, h') ∧ report.transitions = m) ↔
      ∃ os h₀, Shown env cfg scope now h os h₀ ∧ Observes env now os m h₀ h' := by
  constructor
  · rintro ⟨report, hsync, rfl⟩
    obtain ⟨⟨ids, assetless⟩, h₀, hscope, hok⟩ := (Fallible.exec_bind_eq_ok _).mp hsync
    cases assetless with
    | false =>
      obtain ⟨os, m, hl, hs, rfl⟩ := exec_syncAssets_ok_iff.mp hok
      refine ⟨os, h₀, ⟨ids, false, [], os, hscope, .skipped, hl, rfl⟩, ?_⟩
      simpa [SyncReport.after] using hs
    | true =>
      obtain ⟨(ts : List RlnTransfer), _, hcall, hopened⟩ := (Fallible.exec_bind_eq_ok _).mp hok
      obtain ⟨hnode, rfl⟩ := exec_node_ok_iff.mp hcall
      obtain ⟨_, h₁, hone, hrest⟩ := (Fallible.exec_bind_eq_ok _).mp hopened
      obtain ⟨m, hs, rfl⟩ := exec_observeAll_ok_iff.mp hone
      obtain ⟨os, m', hl, hs', rfl⟩ := exec_syncAssets_ok_iff.mp hrest
      refine ⟨_, _, ⟨ids, true, _, os, hscope, .listed hnode, hl, rfl⟩, ?_⟩
      simpa [SyncReport.after] using hs.append hs'
  · rintro ⟨os, h₀, ⟨ids, assetless, os₁, os₂, hscope, hopen, hl, rfl⟩, hs⟩
    obtain ⟨m₁, m₂, h₁, rfl, hs₁, hs₂⟩ := hs.split
    cases hopen with
    | skipped =>
      cases hs₁
      refine ⟨_, (Fallible.exec_bind_eq_ok _).mpr ⟨(ids, false), h₀, hscope,
        exec_syncAssets_ok_iff.mpr ⟨os₂, m₂, hl, hs₂, rfl⟩⟩, ?_⟩
      simp [SyncReport.after]
    | @listed ts hnode =>
      refine ⟨_, (Fallible.exec_bind_eq_ok _).mpr ⟨(ids, true), h₀, hscope,
        (Fallible.exec_bind_eq_ok _).mpr ⟨ts, h₀, exec_node_ok_iff.mpr ⟨hnode, rfl⟩,
          (Fallible.exec_bind_eq_ok _).mpr
            ⟨_, h₁, exec_observeAll_ok_iff.mpr ⟨m₁, hs₁, rfl⟩,
              exec_syncAssets_ok_iff.mpr ⟨os₂, m₂, hl, hs₂, rfl⟩⟩⟩⟩, ?_⟩
      simp [SyncReport.after]

end Shown
end Companion
