import Companion.Sync

/-!
# One sync over the transfers

A sync writes the listed transfers one after another, and the first write that
violates a constraint ends it.  `Db.Mirrorable` says when a write goes through;
here it is carried over to a whole sync, in which each transfer is written to the
mirror the transfers before it have left.

## Main definitions

* `mirrorAll`, `MirrorableAll` — what a listing does to the mirror, and when it can.
* `Listing` — what the node lists.
* `mirror_isOk_iff` — when one transfer is mirrored, and when a sync completes.
-/

set_option autoImplicit false

namespace Companion
open Lib

/-! ## One transfer -/

/-- What `observe` does to the store. -/
def mirrorTransfer (assetId : Option String) (t : RlnTransfer) (now : ℤ) :
    Prog SyncError Bool := do
  let row ← Fallible.mapErr .store (store (.upsertObserved (t.observed assetId) now))
  applyObserved row t.status now

/-- The report after one more transfer. -/
def SyncReport.add (report : SyncReport) (moved : Bool) : SyncReport :=
  { report with
    transfers := report.transfers + 1
    transitions := report.transitions + if moved then 1 else 0 }

/-- An observation is the two writes, and the count of them. -/
theorem observe_eq (report : SyncReport) (assetId : Option String) (t : RlnTransfer) (now : ℤ) :
    observe report assetId t now =
      mirrorTransfer assetId t now >>= fun moved => pure (report.add moved) := by
  rw [mirrorTransfer, bind_assoc]
  refine bind_congr fun row => bind_congr fun moved => ?_
  cases moved <;> rfl

theorem exec_observe (env : Env) (report : SyncReport) (assetId : Option String)
    (t : RlnTransfer) (now : ℤ) (h : Host) :
    exec env (observe report assetId t now) h =
      ((exec env (mirrorTransfer assetId t now) h).1.map report.add,
        (exec env (mirrorTransfer assetId t now) h).2) := by
  rw [observe_eq]
  rcases hmir : exec env (mirrorTransfer assetId t now) h with ⟨e | moved, h₁⟩
  · exact Fallible.exec_bind_error _ hmir
  · exact Fallible.exec_bind_ok _ hmir

/-- The row an observation returns is in the mirror. -/
theorem transfer?_upsertObserved {db db' : Db} {id : ℕ} {o : Observed} {now : ℤ}
    {row : Transfer} (h : db.upsertObserved id o now = .ok (row, db')) :
    db'.transfer? row.id = some row := by
  rcases Db.upsertObserved_ok h with ⟨T, rfl, ⟨r, hr, rfl, hT⟩ | ⟨-, rfl, -, hT⟩⟩
  · refine Db.transfer?_eq_some.mpr ⟨?_, rfl⟩
    have hrows : o.merge now r ∈ T.rows := by
      rw [hT, Table.mem_replace]
      exact Or.inl ⟨r, (Db.findObserved_some hr).1, rfl, rfl⟩
    exact hrows
  · refine Db.transfer?_eq_some.mpr ⟨?_, rfl⟩
    have hrows : o.row id now ∈ T.rows := by
      rw [hT]
      exact List.mem_append_right _ (List.mem_singleton_self _)
    exact hrows

/-- A transition of the row as it stands goes through: the identifier drawn for its event
is new. -/
theorem exec_applyTransition (env : Env) {h : Host} {row : Transfer}
    (hrow : h.db.transfer? row.id = some row) {observed : TransferStatus}
    (hne : row.status ≠ observed) (now : ℤ) :
    ∃ db', h.db.applyTransition row.id row.status observed (transitionEvent h.nextUuid row
        ⟨row.id, row.status, observed, EventType.of observed⟩ now) now = .ok (true, db') ∧
      exec env (do
        let eventId ← newUuid
        Fallible.mapErr .store (store (.applyTransition row.id row.status observed
          (transitionEvent eventId row ⟨row.id, row.status, observed, EventType.of observed⟩ now)
          now)) : Prog SyncError Bool) h = (.ok true, { h.draw with db := db' }) := by
  have hnew : ∀ e, transitionEvent h.nextUuid row ⟨row.id, row.status, observed,
      EventType.of observed⟩ now = some e → ∀ r ∈ h.db.webhookOutbox.rows, r.id ≠ e.id := by
    intro e he r hr
    obtain ⟨t, -, rfl⟩ := Option.map_eq_some_iff.mp he
    exact Nat.ne_of_lt (Host.outbox_lt_nextUuid hr)
  obtain ⟨db', hok⟩ := Db.applyTransition_isOk hrow hne hnew now
  have hq : (StoreOp.applyTransition row.id row.status observed (transitionEvent h.nextUuid row
      ⟨row.id, row.status, observed, EventType.of observed⟩ now) now).perform h.draw =
        (.ok true, { h.draw with db := db' }) := Host.commit_eq_ok hok
  exact ⟨db', hok, exec_store_ok SyncError.store hq⟩

/-- A transition planned from the row as it stands goes through. -/
theorem exec_applyObserved_isOk (env : Env) {h : Host} {row : Transfer}
    (hrow : h.db.transfer? row.id = some row) (observed : TransferStatus) (now : ℤ) :
    ∃ moved h', exec env (applyObserved row observed now) h = (.ok moved, h') := by
  rw [applyObserved]
  cases hp : planTransition row observed with
  | none => exact ⟨false, h, rfl⟩
  | some tr =>
      rcases planTransition_eq_some.mp hp with ⟨-, hrank, rfl⟩
      have hne : row.status ≠ observed := fun heq => by
        rw [heq] at hrank
        exact Nat.lt_irrefl _ hrank
      obtain ⟨db', -, hexec⟩ := exec_applyTransition env hrow hne now
      exact ⟨true, _, hexec⟩

/-- A listed transfer whose expiration fits is written exactly when it can be mirrored. -/
theorem exec_mirrorTransfer_isOk_iff (env : Env) (h : Host) {assetId : Option String}
    {t : RlnTransfer} (hfit : FitsColumn t.expirationTimestamp) (now : ℤ) :
    (∃ moved h', exec env (mirrorTransfer assetId t now) h = (.ok moved, h')) ↔
      h.db.Mirrorable (t.observed assetId) := by
  have hiff := @Db.upsertObserved_isOk_iff h.db h.nextUuid (t.observed assetId)
    (fun r hr => Nat.ne_of_lt (Host.transfer_lt_nextUuid hr)) hfit now
  cases hup : h.db.upsertObserved h.nextUuid (t.observed assetId) now with
  | ok out =>
      rcases out with ⟨row, db'⟩
      refine iff_of_true ?_ (hiff.mp ⟨row, db', hup⟩)
      have hcommit : exec env (Fallible.mapErr SyncError.store
          (store (.upsertObserved (t.observed assetId) now))) h =
            (.ok row, { h.draw with db := db' }) :=
        exec_store_ok SyncError.store (Host.commit_eq_ok hup)
      rcases exec_applyObserved_isOk env (h := { h.draw with db := db' })
        (transfer?_upsertObserved hup) t.status now with ⟨moved, h', happly⟩
      exact ⟨moved, h', (Fallible.exec_bind_ok _ hcommit).trans happly⟩
  | error e =>
      refine iff_of_false ?_ fun hm => ?_
      · have hcommit : exec env (Fallible.mapErr SyncError.store
            (store (.upsertObserved (t.observed assetId) now))) h = (.error (.store e), h.draw) :=
          exec_store_error SyncError.store (Host.commit_eq_error hup)
        rintro ⟨moved, h', hok⟩
        have hfail := (Fallible.exec_bind_error _ hcommit).symm.trans hok
        cases congrArg Prod.fst hfail
      · rcases hiff.mpr hm with ⟨row, db', hok⟩
        cases hup.symm.trans hok

/-! ## A whole listing -/

/-- What a listing leaves when each of its transfers is written. -/
def mirrorAll (env : Env) (now : ℤ) : List (Option String × RlnTransfer) → Host → Host
  | [], h => h
  | (assetId, t) :: ts, h => mirrorAll env now ts (exec env (mirrorTransfer assetId t now) h).2

/-- Each transfer can be mirrored when its turn comes. -/
def MirrorableAll (env : Env) (now : ℤ) : List (Option String × RlnTransfer) → Host → Prop
  | [], _ => True
  | (assetId, t) :: ts, h => h.db.Mirrorable (t.observed assetId) ∧
      MirrorableAll env now ts (exec env (mirrorTransfer assetId t now) h).2

theorem mirrorAll_append (env : Env) (now : ℤ) (xs ys : List (Option String × RlnTransfer))
    (h : Host) :
    mirrorAll env now (xs ++ ys) h = mirrorAll env now ys (mirrorAll env now xs h) := by
  induction xs generalizing h with
  | nil => rfl
  | cons x xs ih => exact ih _

theorem mirrorableAll_append (env : Env) (now : ℤ) (xs ys : List (Option String × RlnTransfer))
    (h : Host) : MirrorableAll env now (xs ++ ys) h ↔
      MirrorableAll env now xs h ∧ MirrorableAll env now ys (mirrorAll env now xs h) := by
  induction xs generalizing h with
  | nil => simp [MirrorableAll, mirrorAll]
  | cons x xs ih =>
    rw [List.cons_append, MirrorableAll, MirrorableAll, ih, and_assoc]
    rfl

/-- How a program that writes a listing ends: with the listing written, when all of
it can be, and with an error otherwise. -/
def Writes (env : Env) (now : ℤ) (ts : List (Option String × RlnTransfer))
    (p : Prog SyncError SyncReport) (h : Host) : Prop :=
  (MirrorableAll env now ts h → ∃ report, exec env p h = (.ok report, mirrorAll env now ts h)) ∧
    (¬ MirrorableAll env now ts h → ∃ e h', exec env p h = (.error e, h'))

theorem Writes.isOk_iff {env : Env} {now : ℤ} {ts : List (Option String × RlnTransfer)}
    {p : Prog SyncError SyncReport} {h : Host} (hw : Writes env now ts p h) :
    (∃ report h', exec env p h = (.ok report, h')) ↔ MirrorableAll env now ts h := by
  constructor
  · rintro ⟨report, h', hok⟩
    by_contra hno
    rcases hw.2 hno with ⟨e, h₁, hfail⟩
    cases congrArg Prod.fst (hfail.symm.trans hok)
  · intro hall
    rcases hw.1 hall with ⟨report, hok⟩
    exact ⟨report, _, hok⟩

theorem Writes.congr {env : Env} {now : ℤ} {ts : List (Option String × RlnTransfer)}
    {p p' : Prog SyncError SyncReport} {h : Host} (hp : exec env p h = exec env p' h)
    (hw : Writes env now ts p' h) : Writes env now ts p h := by
  rw [Writes, hp]
  exact hw

theorem writes_done (env : Env) (now : ℤ) (report : SyncReport) (h : Host) :
    Writes env now [] (pure report) h :=
  ⟨fun _ => ⟨report, rfl⟩, fun hno => absurd trivial hno⟩

/-- One listing after another. -/
theorem Writes.bind {env : Env} {now : ℤ} {xs ys : List (Option String × RlnTransfer)}
    {p : Prog SyncError SyncReport} {f : SyncReport → Prog SyncError SyncReport} {h : Host}
    (hp : Writes env now xs p h)
    (hf : ∀ report, Writes env now ys (f report) (mirrorAll env now xs h)) :
    Writes env now (xs ++ ys) (p >>= f) h := by
  rw [Writes, mirrorableAll_append, mirrorAll_append]
  constructor
  · rintro ⟨hxs, hys⟩
    rcases hp.1 hxs with ⟨report, hok⟩
    rcases (hf report).1 hys with ⟨report', hok'⟩
    exact ⟨report', (Fallible.exec_bind_ok _ hok).trans hok'⟩
  · intro hno
    by_cases hxs : MirrorableAll env now xs h
    · rcases hp.1 hxs with ⟨report, hok⟩
      rcases (hf report).2 fun hys => hno ⟨hxs, hys⟩ with ⟨e, h', hfail⟩
      exact ⟨e, h', (Fallible.exec_bind_ok _ hok).trans hfail⟩
    · rcases hp.2 hxs with ⟨e, h', hfail⟩
      exact ⟨e, h', Fallible.exec_bind_error _ hfail⟩

theorem writes_observe (env : Env) (report : SyncReport) (assetId : Option String)
    {t : RlnTransfer} (hfit : FitsColumn t.expirationTimestamp) (now : ℤ) (h : Host) :
    Writes env now [(assetId, t)] (observe report assetId t now) h := by
  have hiff := @exec_mirrorTransfer_isOk_iff env h assetId t hfit now
  rcases hmir : exec env (mirrorTransfer assetId t now) h with ⟨e | moved, h'⟩
  · have hno : ¬ h.db.Mirrorable (t.observed assetId) := fun hm => by
      rcases hiff.mpr hm with ⟨moved, h₁, hok⟩
      cases congrArg Prod.fst (hmir.symm.trans hok)
    refine ⟨fun hall => absurd hall.1 hno, fun _ => ⟨e, h', ?_⟩⟩
    rw [exec_observe, hmir]
    rfl
  · have hm := hiff.mp ⟨moved, h', hmir⟩
    refine ⟨fun _ => ⟨report.add moved, ?_⟩, fun hno => absurd ⟨hm, trivial⟩ hno⟩
    rw [exec_observe, hmir, mirrorAll, hmir]
    rfl

theorem writes_observeAll (env : Env) (assetId : Option String) (now : ℤ)
    {ts : List RlnTransfer} (hfit : ∀ t ∈ ts, FitsColumn t.expirationTimestamp)
    (report : SyncReport) (h : Host) :
    Writes env now (ts.map fun t => (assetId, t)) (observeAll assetId now ts report) h := by
  induction ts generalizing report h with
  | nil => exact writes_done env now report h
  | cons t ts ih =>
    rw [List.map_cons, ← List.singleton_append]
    refine Writes.bind (writes_observe env report assetId (hfit t (List.mem_cons_self ..)) now h) ?_
    exact fun report' => ih (fun t' ht' => hfit t' (List.mem_cons_of_mem _ ht')) report' _

/-! ## The sync -/

/-- What the node lists, for any page size. -/
structure Listing where
  assets : List (String × String)
  assetless : ℕ → List RlnTransfer
  transfers : String → ℕ → List RlnTransfer

/-- The node answers every listing. -/
structure Env.Lists (env : Env) (l : Listing) : Prop where
  assets : env.node .listAssets = .ok l.assets
  assetless : ∀ n, env.node (.listAssetlessTransfers n) = .ok (l.assetless n)
  transfers : ∀ id n, env.node (.listTransfers id n) = .ok (l.transfers id n)

/-- The expirations listed fit their column. -/
structure Listing.Fits (l : Listing) : Prop where
  assetless : ∀ n, ∀ t ∈ l.assetless n, FitsColumn t.expirationTimestamp
  transfers : ∀ id n, ∀ t ∈ l.transfers id n, FitsColumn t.expirationTimestamp

/-- The transfers a sync writes, in order. -/
def Listing.entries (l : Listing) (n : ℕ) (ids : List String) (assetless : Bool) :
    List (Option String × RlnTransfer) :=
  (if assetless then (l.assetless n).map fun t => (none, t) else []) ++
    ids.flatMap fun id => (l.transfers id n).map fun t => (some id, t)

/-- The page size of a sync. -/
def Config.Sync.pages (cfg : Config.Sync) (scope : Scope) : ℕ :=
  if scope = .full then max cfg.pageSize fullMinPageSize else cfg.pageSize

theorem writes_syncAssets {env : Env} {l : Listing} (hl : env.Lists l) (hfit : l.Fits) (n : ℕ)
    (now : ℤ) (ids : List String) (report : SyncReport) (h : Host) :
    Writes env now (ids.flatMap fun id => (l.transfers id n).map fun t => (some id, t))
      (syncAssets n now ids report) h := by
  induction ids generalizing report h with
  | nil => exact writes_done env now report h
  | cons id ids ih =>
    have hlist := exec_node_ok SyncError.rln (hl.transfers id n) h
    have hasset : exec env (syncAssets n now (id :: ids) report) h =
        exec env (observeAll (some id) now (l.transfers id n) report >>=
          fun report => syncAssets n now ids report) h := Fallible.exec_bind_ok _ hlist
    rw [List.flatMap_cons]
    refine Writes.congr hasset ?_
    exact Writes.bind (writes_observeAll env (some id) now (hfit.transfers id n) report h)
      fun report' => ih report' _

/-- The assets of a scope are always found. -/
theorem exec_scopeAssets {env : Env} {l : Listing} (hl : env.Lists l) (scope : Scope) (now : ℤ)
    (h : Host) : ∃ ids assetless h₀,
      exec env (scopeAssets scope now) h = (.ok (ids, assetless), h₀) ∧
        h₀.db.transfers = h.db.transfers := by
  rcases Db.upsertAssets_isOk h.db l.assets now with ⟨T, hT⟩
  have hcommit : exec env (Fallible.mapErr SyncError.store (store (.upsertAssets l.assets now)))
      h = (.ok (), { h with db := { h.db with assets := T } }) :=
    exec_store_ok SyncError.store (Host.commit_eq_ok (congrArg (Except.map fun db => ((), db)) hT))
  have hfetch : exec env (fetchAssets now) h =
      (.ok (l.assets.map Prod.fst), { h with db := { h.db with assets := T } }) :=
    (Fallible.exec_bind_ok _ (exec_node_ok SyncError.rln hl.assets h)).trans
      (Fallible.exec_bind_ok _ hcommit)
  cases scope with
  | full => exact ⟨_, _, _, Fallible.exec_bind_ok _ hfetch, rfl⟩
  | assets ids => exact ⟨_, _, _, rfl, rfl⟩
  | pending =>
    have hpending : exec env (Fallible.mapErr SyncError.store (store .pendingAssetIds)) h =
        (.ok h.db.pendingAssetIds, h) := rfl
    have hstart : exec env (scopeAssets .pending now) h = _ := Fallible.exec_bind_ok _ hpending
    rw [hstart]
    rcases h.db.pendingAssetIds with ⟨ids, agnostic⟩
    cases agnostic with
    | false => exact ⟨_, _, _, rfl, rfl⟩
    | true => exact ⟨_, _, _, Fallible.exec_bind_ok _ hfetch, rfl⟩

theorem writes_sync {env : Env} {l : Listing} (hl : env.Lists l) (hfit : l.Fits)
    (cfg : Config.Sync) (scope : Scope) (now : ℤ) {h h₀ : Host} {ids : List String}
    {assetless : Bool}
    (hscope : exec env (scopeAssets scope now) h = (.ok (ids, assetless), h₀)) :
    ∃ p, exec env (sync cfg scope now) h = exec env p h₀ ∧
      Writes env now (l.entries (cfg.pages scope) ids assetless) p h₀ := by
  refine ⟨_, Fallible.exec_bind_ok _ hscope, ?_⟩
  cases assetless with
  | false => exact writes_syncAssets hl hfit (cfg.pages scope) now ids _ h₀
  | true =>
    have hlist := exec_node_ok SyncError.rln (hl.assetless (cfg.pages scope)) h₀
    refine Writes.congr (Fallible.exec_bind_ok _ hlist) ?_
    exact Writes.bind (writes_observeAll env none now (hfit.assetless _) _ h₀)
      fun report => writes_syncAssets hl hfit (cfg.pages scope) now ids report _

/-- What keeps a transfer out of the mirror: its recipient is on a row that is bound
to another transfer. -/
theorem not_mirrorable_iff {db : Db} {o : Observed} :
    ¬ db.Mirrorable o ↔ (∀ r ∈ db.transfers.rows, Db.matchesObserved o r = false) ∧
      ∃ r ∈ db.transfers.rows, sqlEq r.recipientId o.recipientId = true ∧
        ∃ i, r.rlnIdx = some i ∧ i ≠ o.rlnIdx := by
  simp only [Db.Mirrorable, not_or, not_exists, not_and, not_forall, Bool.not_eq_true,
    Bool.not_eq_false, exists_prop]
  refine and_congr_right fun hno => exists_congr fun r => and_congr_right fun hr => ?_
  have hr' := hno r hr
  simp only [Db.matchesObserved, Bool.or_eq_false_iff, Bool.and_eq_false_iff] at hr'
  constructor
  · intro hrec
    refine ⟨hrec, ?_⟩
    cases hidx : r.rlnIdx with
    | none => simp [hidx, hrec] at hr'
    | some i =>
      refine ⟨i, rfl, fun heq => ?_⟩
      simp [hidx, heq, sqlEq] at hr'
  · exact fun h => h.1

/-- When mirroring goes through: an observation commits exactly when its transfer can
be mirrored, and a sync of answered listings completes exactly when each transfer
can be when its turn comes. -/
theorem mirror_isOk_iff (env : Env) (h : Host) :
    (∀ o now, FitsColumn o.expirationTimestamp →
      ((∃ row h', exec env (store (.upsertObserved o now)) h = (.ok row, h')) ↔
        h.db.Mirrorable o)) ∧
    ∀ l, env.Lists l → l.Fits → ∀ cfg scope now, ∃ ids assetless h₀,
      exec env (scopeAssets scope now) h = (.ok (ids, assetless), h₀) ∧
      h₀.db.transfers = h.db.transfers ∧
      ((∃ report h', exec env (sync cfg scope now) h = (.ok report, h')) ↔
        MirrorableAll env now (l.entries (cfg.pages scope) ids assetless) h₀) := by
  constructor
  · intro o now hfit
    rw [← Db.upsertObserved_isOk_iff (fun r hr => Nat.ne_of_lt (Host.transfer_lt_nextUuid hr))
      hfit now]
    constructor
    · rintro ⟨row, h', hok⟩
      rcases Host.commit_ok hok with ⟨db', hdb, -⟩
      exact ⟨row, db', hdb⟩
    · rintro ⟨row, db', hok⟩
      exact ⟨row, _, congrArg h.draw.commit hok⟩
  · intro l hl hfit cfg scope now
    rcases exec_scopeAssets hl scope now h with ⟨ids, assetless, h₀, hscope, hkept⟩
    rcases writes_sync hl hfit cfg scope now hscope with ⟨p, hp, hw⟩
    refine ⟨ids, assetless, h₀, hscope, hkept, ?_⟩
    rw [hp]
    exact hw.isOk_iff

/-- A node that answers with a listing and nothing else. -/
def Listing.env (l : Listing) : Env :=
  { Env.silent with
    node := fun
      | .listAssets => .ok l.assets
      | .listAssetlessTransfers n => .ok (l.assetless n)
      | .listTransfers id n => .ok (l.transfers id n)
      | _ => .error .transport }

theorem Listing.env_lists (l : Listing) : l.env.Lists l :=
  ⟨rfl, fun _ => rfl, fun _ _ => rfl⟩

/-- A payment to an invoice: the transfer that receives it, and the one that sends it
when the invoice is one's own. -/
def invoicePaid (self : Bool) : Listing where
  assets := [("A", "NIA")]
  assetless _ := []
  transfers _ _ :=
    ⟨1, .settled, "ReceiveBlind", some "r", some "tx", none⟩ ::
      if self then [⟨2, .settled, "Send", some "r", some "tx", none⟩] else []

theorem invoicePaid_fits (self : Bool) : (invoicePaid self).Fits := by
  refine ⟨fun _ _ ht => (List.not_mem_nil ht).elim, fun _ _ t ht => ?_⟩
  have hnone : t.expirationTimestamp = none := by
    cases self
    · rw [List.mem_singleton.mp ht]
    · rcases List.mem_pair.mp ht with rfl | rfl <;> rfl
  intro n hn
  rw [hnone] at hn
  cases hn

/-- Two invoices, of which the first has been paid and has its index. -/
def invoicesStored : Host :=
  let invoice (recipientId : String) : StoreOp :=
    .insertTransfer ⟨some "A", none, .waitingCounterparty, some recipientId, none, none,
      some "inv", none⟩ 0
  let paid := exec (invoicePaid false).env (sync {} .full 0) ((invoice "r").perform .fresh).2
  ((invoice "s").perform paid.2).2

/-- The second invoice is being paid as well, and the asset has been issued and sent. -/
def invoicesPaid : Listing where
  assets := [("A", "NIA")]
  assetless _ := [⟨4, .settled, "Issuance", none, some "tx₄", none⟩]
  transfers _ _ :=
    [⟨1, .settled, "ReceiveBlind", some "r", some "tx", none⟩,
      ⟨2, .waitingConfirmations, "ReceiveBlind", some "s", some "tx₂", none⟩,
      ⟨3, .settled, "Send", some "t", some "tx₃", none⟩]

theorem invoicesPaid_fits : invoicesPaid.Fits := by
  have hall : ∀ t ∈ invoicesPaid.assetless 0 ++ invoicesPaid.transfers "A" 0,
      t.expirationTimestamp = none := by decide
  constructor
  · intro _ t ht n hn
    rw [hall t (List.mem_append_left _ ht)] at hn
    cases hn
  · intro _ _ t ht n hn
    rw [hall t (List.mem_append_right _ ht)] at hn
    cases hn

/-- The transfers of two rows and two new ones are mirrored. -/
theorem mirror_invoicesPaid :
    invoicesStored.db.transfers.rows.map Transfer.rlnIdx = [some 1, none] ∧
      ∃ report h', exec invoicesPaid.env (sync {} .full 1) invoicesStored = (.ok report, h') := by
  refine ⟨rfl, ?_⟩
  rcases (mirror_isOk_iff invoicesPaid.env invoicesStored).2 _ (Listing.env_lists _)
    invoicesPaid_fits {} .full 1 with ⟨ids, assetless, h₀, hscope, -, hiff⟩
  cases hscope
  refine hiff.mpr ⟨Or.inr ?_, Or.inl ?_, Or.inl ?_, Or.inr ?_, trivial⟩ <;> decide

/-- A send to one's own invoice is listed twice with one recipient, and no sync completes. -/
theorem sync_fails_on_self_send :
    (invoicePaid true).env.Lists (invoicePaid true) ∧ (invoicePaid true).Fits ∧
      (exec (invoicePaid true).env (sync {} .full 0) .fresh).1 = .error (.store .db) ∧
      (exec (invoicePaid true).env (sync {} .full 1)
        (exec (invoicePaid true).env (sync {} .full 0) .fresh).2).1 = .error (.store .db) :=
  ⟨Listing.env_lists _, invoicePaid_fits _, rfl, rfl⟩

end Companion
