import Companion.Mirror.Replay

/-!
# Resuming an interrupted sync

A sync may stop before any of its operations, and the node may stop answering it at any
call.  Whatever it leaves, repeating it leaves the mirror of a sync that has never been
interrupted, and repeating it again leaves that mirror alone.

## Main definitions

* `Interrupted` — what a task leaves that is stopped, or not answered, on its way.
* `LeftAt` — the points at which a chain of observations can be interrupted.
* `Reruns` — any number of completed syncs, one after another.
* `sync_resumes` — an interrupted sync is repeated safely.
-/

set_option autoImplicit false

namespace Companion
open Lib

/-! ## Interruption -/

/-- The node can fail to answer; the store does not fail otherwise than it would. -/
def NodeFails : (o : Op) → o.Res → Prop
  | .node _, r => ∃ e, r = Except.error e
  | _, _ => False

/-- What a task may leave that stops before one of its operations, or goes on after
calls to which the node fails to answer. -/
def Interrupted {ε α : Type} (env : Env) (p : Prog ε α) (h h' : Host) : Prop :=
  Proc.Leaves (S := Effects) (perform env) NodeFails p.run h h'

/-- All a task may leave in the database is in `R`. -/
abbrev Through {ε α : Type} (env : Env) (R : Db → Prop) (p : Prog ε α) (h : Host) : Prop :=
  Proc.Along (S := Effects) (perform env) NodeFails (fun h => R h.db) p.run h

section Through
variable {env : Env} {R : Db → Prop} {ε ε' α β : Type} {h h' : Host}

theorem Through.interrupted {p : Prog ε α} (hp : Through env R p h)
    (hl : Interrupted env p h h') : R h'.db := hl.of_along hp

theorem through_store {q : StoreOp} {f : StoreError → ε} {g : q.Res → Prog ε β} {a : q.Res}
    (hok : q.perform h = (.ok a, h')) (hR : R h.db) (hg : Through env R (g a) h') :
    Through env R (Fallible.mapErr f (store q) >>= g) h := by
  refine ⟨hR, fun r hr => hr.elim, ?_⟩
  have hrun : perform env (.store q) h = (.ok a, h') := hok
  rw [hrun]
  exact hg

theorem through_node {c : NodeCall} {f : RlnError → ε} {g : c.Res → Prog ε β} {a : c.Res}
    (hres : env.node c = .ok a) (hR : R h.db) (hg : Through env R (g a) h) :
    Through env R (Fallible.mapErr f (node c) >>= g) h := by
  refine ⟨hR, ?_, ?_⟩
  · rintro r ⟨e, rfl⟩
    exact hR
  · have hrun : perform env (.node c) h = (.ok a, h) := congrArg (fun r => (r, h)) hres
    rw [hrun]
    exact hg

end Through

/-! ## The points of a chain -/

/-- What the observations leave when they stop: before one of them, or between the
upsert and the transition of one. -/
inductive LeftAt (env : Env) (now : ℤ) : List Observed → Host → Db → Prop
  | here (os : List Observed) (h : Host) : LeftAt env now os h h.db
  | upserted {o : Observed} {os : List Observed} {h h₁ : Host} {row : Transfer} :
      (StoreOp.upsertObserved o now).perform h = (.ok row, h₁) →
      LeftAt env now (o :: os) h h₁.db
  | past {o : Observed} {os : List Observed} {moved : Bool} {h h₁ : Host} {db : Db} :
      exec env (o.mirror now) h = (.ok moved, h₁) → LeftAt env now os h₁ db →
      LeftAt env now (o :: os) h db

section Points
variable {env : Env} {now : ℤ} {os os' : List Observed} {o : Observed} {m : ℕ} {h h₁ h' : Host}
  {db : Db} {R : Db → Prop} {β : Type}

theorem LeftAt.append_left (hl : LeftAt env now os h db) (os' : List Observed) :
    LeftAt env now (os ++ os') h db := by
  induction hl with
  | here os h => exact .here _ h
  | upserted hp => exact .upserted hp
  | past hok _ ih => exact .past hok ih

theorem LeftAt.append_right (hs : Observes env now os m h h₁) (hl : LeftAt env now os' h₁ db) :
    LeftAt env now (os ++ os') h db := by
  induction hs with
  | nil => exact hl
  | cons hok _ ih => exact .past hok (ih hl)

/-- The operations of one observation. -/
theorem through_mirror {g : Bool → Prog SyncError β} {moved : Bool}
    (hok : exec env (o.mirror now) h = (.ok moved, h')) (hR : ∀ db, LeftAt env now [o] h db → R db)
    (hg : Through env R (g moved) h') : Through env R (o.mirror now >>= g) h := by
  obtain ⟨row, h₁, hp, happly⟩ := exec_mirror_ok_iff.mp hok
  rw [Observed.mirror, bind_assoc]
  refine through_store hp (hR _ (.here _ h)) ?_
  rw [applyObserved, planTransition_eq] at happly ⊢
  by_cases hmove : TransferMove row.status o.status
  · rw [if_pos hmove] at happly ⊢
    -- the identifier of the event is drawn first, which the database does not show
    have hleft : R h₁.db := hR _ (.upserted hp)
    obtain ⟨eventId, h₂, hdraw, hstore⟩ := (Fallible.exec_bind_eq_ok _).mp happly
    cases hdraw
    exact ⟨hleft, fun r hr => hr.elim, through_store (exec_store_ok_iff.mp hstore) hleft hg⟩
  · rw [if_neg hmove] at happly ⊢
    cases happly
    exact hg

/-- The operations of the loop over one listing. -/
theorem through_observeAll {assetId : Option String} {ts : List RlnTransfer} {report : SyncReport}
    {g : SyncReport → Prog SyncError β}
    (hs : Observes env now (ts.map (RlnTransfer.observed assetId)) m h h')
    (hR : ∀ db, LeftAt env now (ts.map (RlnTransfer.observed assetId)) h db → R db)
    (hg : ∀ report, Through env R (g report) h') :
    Through env R (observeAll assetId now ts report >>= g) h := by
  induction ts generalizing report m h with
  | nil =>
    cases hs
    exact hg report
  | cons t ts ih =>
    cases hs with
    | cons hok hs =>
      rw [observeAll, observe_eq, bind_assoc, bind_assoc]
      refine through_mirror hok (fun db hl => hR db (hl.append_left _)) ?_
      rw [pure_bind]
      exact ih hs fun db hl => hR db (.past hok hl)

/-- The operations of the loop over the assets. -/
theorem through_syncAssets {n : ℕ} {ids : List String} {report : SyncReport}
    (hl : Listed env n ids os) (hs : Observes env now os m h h')
    (hR : ∀ db, LeftAt env now os h db → R db) :
    Through env R (syncAssets n now ids report) h := by
  induction hl generalizing report m h with
  | nil => exact hR _ (.here _ h)
  | cons hnode _ ih =>
    obtain ⟨m₁, m₂, h₁, rfl, hs₁, hs₂⟩ := hs.split
    refine through_node hnode (hR _ (.here _ h)) ?_
    refine through_observeAll hs₁ (fun db hl => hR db (hl.append_left _)) fun report => ?_
    exact ih hs₂ fun db hl => hR db (.append_right hs₁ hl)

/-- The operations after the assets are known. -/
theorem through_opened {n : ℕ} {ids : List String} {assetless : Bool} {os₁ os₂ : List Observed}
    (hopen : Opening env n assetless os₁) (hl : Listed env n ids os₂)
    (hs : Observes env now (os₁ ++ os₂) m h h')
    (hR : ∀ db, LeftAt env now (os₁ ++ os₂) h db → R db) (report : SyncReport) :
    Through env R (if assetless then do
        let transfers ← Fallible.mapErr .rln (node (.listAssetlessTransfers n))
        let report ← observeAll none now transfers report
        syncAssets n now ids report
      else syncAssets n now ids report) h := by
  cases hopen with
  | skipped => exact through_syncAssets hl hs hR
  | listed hnode =>
    obtain ⟨m₁, m₂, h₁, rfl, hs₁, hs₂⟩ := hs.split
    refine through_node hnode (hR _ (.here _ h)) ?_
    refine through_observeAll hs₁ (fun db hl => hR db (hl.append_left _)) fun report => ?_
    exact through_syncAssets hl hs₂ fun db hl => hR db (.append_right hs₁ hl)

/-- The operations of a sync. -/
theorem through_sync {cfg : Config.Sync} {scope : Scope} (hscope : scope ≠ .pending) {h₀ : Host}
    (hshown : Shown env cfg scope now h os h₀) (hs : Observes env now os m h₀ h')
    (hstart : R h.db) (hR : ∀ db, LeftAt env now os h₀ db → R db) :
    Through env R (sync cfg scope now) h := by
  obtain ⟨ids, assetless, os₁, os₂, hassets, hopen, hl, rfl⟩ := hshown
  have hrest := through_opened hopen hl hs hR { assets := ids.length }
  cases scope with
  | full =>
    obtain ⟨assets, hnode, hstore, rfl, rfl⟩ := exec_scopeAssets_full hassets
    rw [sync, scopeAssets, fetchAssets, bind_assoc, bind_assoc]
    refine through_node hnode hstart ?_
    rw [bind_assoc]
    exact through_store hstore hstart hrest
  | assets ids =>
    cases hassets
    exact hrest
  | pending => exact absurd rfl hscope

end Points

/-! ## Repeating the chain -/

section Resume
variable {env : Env} {now : ℤ} {os done : List Observed} {o : Observed} {m : ℕ}
  {h h₁ full g : Host} {db : Db}

/-- Where a chain has been left, it can be repeated from the start, and ends as it would
have. -/
theorem resume_left (hl : LeftAt env now os h db) (ha : Absorbed done h.db)
    (hs : Observes env now os m h full) (hg : g.db = { db with assets := g.db.assets })
    (hassets : Alike Asset.entry h.db.assets.rows g.db.assets.rows) (now' : ℤ) :
    ∃ m' again, Observes env now' (done ++ os) m' g again ∧ Twins full.db again.db := by
  induction hl generalizing done m with
  | here os h =>
    have hreached : Reached done g.db := by
      rw [hg]
      exact ha.reached
    obtain ⟨g₁, hs₁, hframe, hrows⟩ := @mirrors_replay env done g hreached now'
    have ht : Twins h.db g₁.db := by
      refine Unmoved.twins ⟨?_, ?_, ?_⟩
      · rw [hrows, hg]
        exact (ha.said.bare_relearn now').symm
      · rw [hframe]
        exact hassets
      · rw [hframe, hg]
    obtain ⟨again, hs₂, ht₂⟩ := ht.mirrors hs now'
    exact ⟨_, again, hs₁.append hs₂, ht₂⟩
  | @upserted o os h h₁ row hp =>
    cases hs with
    | @cons _ _ moved m _ h₂ _ hok hs =>
      obtain ⟨row', h₁', hp', happly⟩ := exec_mirror_ok_iff.mp hok
      cases hp.symm.trans hp'
      have hu := upserts_of_perform hp
      have hreached : Reached done g.db := by
        have hleft := ha.reached.upsert hu
        rw [hg]
        exact hleft
      obtain ⟨g₁, hs₁, hframe, hrows⟩ := @mirrors_replay env done g hreached now'
      -- the row of the interrupted observation is bound, so its upsert only repeats itself
      have hmem : row.relearn now' done ∈ g₁.db.transfers.rows := by
        rw [hrows, hg]
        exact List.mem_map_of_mem hu.mem
      have hbound : (row.relearn now' done).rlnIdx = some o.rlnIdx := by
        rw [rlnIdx_relearn, hu.bound]
      obtain ⟨row₂, g₂, hp₂, -, hrows₂⟩ := upsert_bound hu.fits hmem hbound now'
      have hu₂ := upserts_of_perform hp₂
      have ht : Twins h₁.db g₂.db := by
        refine Unmoved.twins ⟨?_, ?_, ?_⟩
        · have hrows₃ : g₂.db.transfers.rows =
              h₁.db.transfers.rows.map (Transfer.relearn now' (done ++ [o])) := by
            rw [hrows₂, hrows, hg, List.map_map]
            refine List.map_congr_left fun r _ => ?_
            rw [relearn_concat]
            rfl
          rw [hrows₃]
          exact ((ha.said_upsert hu).bare_relearn now').symm
        · rw [hu₂.frame, hframe, hu.frame]
          exact hassets
        · rw [hu₂.frame, hframe, hg]
      obtain ⟨g₃, happly₃, ht₃⟩ := ht.applied hu.mem hu₂.mem hu.bound hu₂.bound happly now'
      obtain ⟨again, hs₄, ht₄⟩ := ht₃.mirrors hs now'
      have hok₃ := exec_mirror_ok_iff.mpr ⟨row₂, g₂, hp₂, happly₃⟩
      exact ⟨_, again, hs₁.append (.cons hok₃ hs₄), ht₄⟩
  | @past o os moved h h₁ db hok _ ih =>
    cases hs with
    | cons hok' hs =>
      cases hok.symm.trans hok'
      have hrest := ih (ha.mirror hok) hs hg (assets_mirror hok ▸ hassets)
      rwa [List.append_assoc, List.singleton_append] at hrest

end Resume

/-! ## Repeating the sync -/

/-- The entries of a scope have been written among the assets, and nothing else. -/
def Entered (es : List (String × String × Option ℤ)) (db db' : Db) : Prop :=
  db' = { db with assets := db'.assets } ∧
    db'.assets.rows.map Asset.entry = puts es (db.assets.rows.map Asset.entry)

section Assets
variable {env : Env} {now : ℤ} {h h₀ : Host}

theorem entry_upsertAsset {T T' : Table Asset Asset.Clash} {a : String × String}
    (hok : Db.upsertAsset now T a = .ok T') :
    T'.rows.map Asset.entry = put (T.rows.map Asset.entry) (a.1, a.2, some 0) := by
  have hkeys : (∃ x ∈ T.rows.map Asset.entry, x.1 = a.1) ↔ ∃ r ∈ T.rows, r.assetId = a.1 := by
    simp [Asset.entry]
  cases hget : T.get? Asset.assetId a.1 with
  | some r =>
    have hex : ∃ r ∈ T.rows, r.assetId = a.1 :=
      ⟨r, Table.mem_of_get? hget, Table.key_of_get? hget⟩
    simp only [Db.upsertAsset, hget, Except.ok.injEq] at hok
    rw [← hok, Table.rows_modify, put, if_pos (hkeys.mpr hex)]
    simp only [Table.replace, List.map_map]
    refine List.map_congr_left fun r _ => ?_
    by_cases hid : r.assetId = a.1 <;> simp [Asset.entry, hid]
  | none =>
    have hno : ¬ ∃ r ∈ T.rows, r.assetId = a.1 := by
      rintro ⟨r, hr, hid⟩
      exact Table.get?_eq_none.mp hget r hr hid
    simp only [Db.upsertAsset, hget] at hok
    split at hok
    · next T₁ hT =>
      cases hok
      rw [put, if_neg fun hx => hno (hkeys.mp hx), (Table.insert?_eq_some.mp hT).2]
      simp [Asset.entry]
    · cases hok

/-- What a list of assets becomes. -/
def assetEntries (assets : List (String × String)) : List (String × String × Option ℤ) :=
  assets.map fun a => (a.1, a.2, some 0)

theorem entry_upsertAssets {assets : List (String × String)} {T T' : Table Asset Asset.Clash}
    (hok : assets.foldlM (Db.upsertAsset now) T = .ok T') :
    T'.rows.map Asset.entry = puts (assetEntries assets) (T.rows.map Asset.entry) := by
  induction assets generalizing T with
  | nil =>
    cases hok
    rfl
  | cons a assets ih =>
    rw [List.foldlM_cons] at hok
    cases ha : Db.upsertAsset now T a with
    | error e => simp [ha, bind, Except.bind] at hok
    | ok T₁ =>
      rw [ha] at hok
      rw [ih hok, entry_upsertAsset ha]
      rfl

theorem entered_upsertAssets {assets : List (String × String)}
    (hok : (StoreOp.upsertAssets assets now).perform h = (.ok (), h₀)) :
    Entered (assetEntries assets) h.db h₀.db := by
  obtain ⟨db', hdb, rfl⟩ := Host.commit_ok hok
  unfold Db.upsertAssets at hdb
  rcases hfold : assets.foldlM (Db.upsertAsset now) h.db.assets with e | T
  · simp [hfold, bind, Except.bind, Except.map] at hdb
  · simp only [hfold, bind, Except.bind, Except.map, pure, Except.pure, Except.ok.injEq] at hdb
    cases hdb
    exact ⟨rfl, entry_upsertAssets hfold⟩

/-- The assets can always be written. -/
theorem exec_scopeAssets_full_again {assets : List (String × String)}
    (hnode : env.node .listAssets = .ok assets) (g : Host) (now : ℤ) :
    ∃ g₀, exec env (scopeAssets .full now) g = (.ok (btreeSet (assets.map Prod.fst), true), g₀) ∧
      Entered (assetEntries assets) g.db g₀.db := by
  obtain ⟨T, hT⟩ := Db.upsertAssets_isOk g.db assets now
  have hstore : (StoreOp.upsertAssets assets now).perform g =
      (.ok (), { g with db := { g.db with assets := T } }) :=
    congrArg (fun r : Except StoreError Db => g.commit (r.map fun db => ((), db))) hT
  refine ⟨_, ?_, entered_upsertAssets hstore⟩
  refine (Fallible.exec_bind_eq_ok _).mpr ⟨_, _, (Fallible.exec_bind_eq_ok _).mpr ?_, rfl⟩
  refine ⟨assets, g, exec_node_ok_iff.mpr ⟨hnode, rfl⟩, ?_⟩
  exact (Fallible.exec_bind_eq_ok _).mpr ⟨(), _, exec_store_ok_iff.mpr hstore, rfl⟩

/-- What a sync makes of its scope does not depend on the mirror, unless it is the
pending transfers. -/
theorem Shown.again {cfg : Config.Sync} {scope : Scope} {os : List Observed}
    (hshown : Shown env cfg scope now h os h₀) (hscope : scope ≠ .pending) :
    ∃ es, Entered es h.db h₀.db ∧
      ∀ g now', ∃ g₀, Shown env cfg scope now' g os g₀ ∧ Entered es g.db g₀.db := by
  obtain ⟨ids, assetless, os₁, os₂, hassets, hopen, hl, rfl⟩ := hshown
  cases scope with
  | full =>
    obtain ⟨assets, hnode, hstore, rfl, rfl⟩ := exec_scopeAssets_full hassets
    refine ⟨assetEntries assets, entered_upsertAssets hstore, fun g now' => ?_⟩
    obtain ⟨g₀, hassets', hentered⟩ := exec_scopeAssets_full_again hnode g now'
    exact ⟨g₀, ⟨_, _, os₁, os₂, hassets', hopen, hl, rfl⟩, hentered⟩
  | assets ids =>
    cases hassets
    exact ⟨[], ⟨rfl, rfl⟩, fun g now' => ⟨g, ⟨_, _, os₁, os₂, rfl, hopen, hl, rfl⟩, rfl, rfl⟩⟩
  | pending => exact absurd rfl hscope

end Assets

/-! ## What is kept -/

section Extends
variable {env : Env} {now : ℤ} {os : List Observed} {h : Host} {db : Db}

theorem extends_leftAt (hl : LeftAt env now os h db) : Extends h.db db := by
  induction hl with
  | here => exact .refl _
  | upserted hp => exact (upserts_of_perform hp).extends
  | past hok _ ih => exact (extends_mirror hok).trans ih

theorem assets_leftAt (hl : LeftAt env now os h db) : db.assets = h.db.assets := by
  induction hl with
  | here => rfl
  | upserted hp => rw [(upserts_of_perform hp).frame]
  | past hok _ ih => rw [ih, assets_mirror hok]

theorem Entered.extends {es : List (String × String × Option ℤ)} {db db' : Db}
    (he : Entered es db db') : Extends db db' := by
  rw [he.1]
  exact ⟨List.prefix_refl _, List.prefix_refl _⟩

end Extends

/-! ## An interrupted sync -/

/-- Any number of completed syncs, one after another. -/
inductive Reruns (env : Env) (cfg : Config.Sync) (scope : Scope) : Host → Host → Prop
  | refl (g : Host) : Reruns env cfg scope g g
  | step {g g₁ g₂ : Host} {now : ℤ} {report : SyncReport} : Reruns env cfg scope g g₁ →
      exec env (sync cfg scope now) g₁ = (.ok report, g₂) → Reruns env cfg scope g g₂

section Sync
variable {env : Env} {cfg : Config.Sync} {scope : Scope} {now : ℤ} {h h₀ full cut g : Host}
  {os : List Observed} {m : ℕ}

/-- An interrupted sync has not begun to observe, or is at a point of its chain. -/
theorem left_of_interrupted (hscope : scope ≠ .pending) (hshown : Shown env cfg scope now h os h₀)
    (hs : Observes env now os m h₀ full) (hcut : Interrupted env (sync cfg scope now) h cut) :
    cut.db = h.db ∨ LeftAt env now os h₀ cut.db :=
  (through_sync (R := fun db => db = h.db ∨ LeftAt env now os h₀ db) hscope hshown hs (Or.inl rfl)
    fun _ => Or.inr).interrupted hcut

/-- The mirror and its assets have taken a listing in. -/
structure Synced (os : List Observed) (es : List (String × String × Option ℤ)) (db : Db) :
    Prop where
  absorbed : Absorbed os db
  entered : puts es (db.assets.rows.map Asset.entry) = db.assets.rows.map Asset.entry

theorem synced_of_observes {es : List (String × String × Option ℤ)}
    (hs : Observes env now os m h₀ full) (he : Entered es h.db h₀.db) : Synced os es full.db := by
  refine ⟨(absorbed_nil h₀.db).mirrors hs, ?_⟩
  rw [assets_observes hs, he.2, puts_puts]

/-- Once a sync has completed, another one completes and changes nothing but times. -/
theorem sync_again {es : List (String × String × Option ℤ)} (hg : Synced os es g.db) {g₀ : Host}
    (hshown : Shown env cfg scope now g os g₀) (he : Entered es g.db g₀.db) :
    ∃ report g', exec env (sync cfg scope now) g = (.ok report, g') ∧ report.transitions = 0 ∧
      Unmoved g.db g'.db ∧ Synced os es g'.db := by
  have hreached : Reached os g₀.db := by
    rw [he.1]
    exact hg.absorbed.reached
  obtain ⟨g', hs, hframe, hrows⟩ := @mirrors_replay env os g₀ hreached now
  obtain ⟨report, hok, hreport⟩ := exec_sync_ok_iff.mpr ⟨os, g₀, hshown, hs⟩
  refine ⟨report, g', hok, hreport, ⟨?_, ?_, ?_⟩, synced_of_observes hs he⟩
  · rw [hrows, he.1]
    exact (hg.absorbed.said.bare_relearn now).symm
  · rw [Alike, hframe, he.2, hg.entered]
  · rw [hframe, he.1]

/-- **Resumption.**  Let a sync of a full scope, or of a list of assets, complete when it
is not interrupted.  Whatever it leaves when it is, the next sync completes and leaves
what the uninterrupted one would have left, up to generated identifiers and times; and
after that every further sync completes and adds no row, no transition and no event. -/
theorem sync_resumes {report : SyncReport} (hscope : scope ≠ .pending)
    (hfull : exec env (sync cfg scope now) h = (.ok report, full))
    (hcut : Interrupted env (sync cfg scope now) h cut) (now' : ℤ) :
    ∃ report' again, exec env (sync cfg scope now') cut = (.ok report', again) ∧
      Twins full.db again.db ∧ Extends h.db full.db ∧ Extends h.db again.db ∧
      ∀ g, Reruns env cfg scope again g → ∀ now'', ∃ report'' g',
        exec env (sync cfg scope now'') g = (.ok report'', g') ∧ report''.transitions = 0 ∧
          Unmoved g.db g'.db := by
  obtain ⟨os, h₀, hshown, hs⟩ := exec_sync_ok_iff.mp ⟨report, hfull, rfl⟩
  obtain ⟨es, he, hagain⟩ := hshown.again hscope
  obtain ⟨g₀, hshown', he'⟩ := hagain cut now'
  -- where the interrupted sync stands, and what it has made of the assets
  have hleft : ∃ db, LeftAt env now os h₀ db ∧ g₀.db = { db with assets := g₀.db.assets } ∧
      Alike Asset.entry h₀.db.assets.rows g₀.db.assets.rows ∧ Extends h.db cut.db := by
    rcases left_of_interrupted hscope hshown hs hcut with hcut | hl
    · refine ⟨h₀.db, .here _ _, ?_, ?_, hcut ▸ .refl _⟩
      · rw [he'.1, he.1, hcut]
      · rw [Alike, he.2, he'.2, hcut]
    · refine ⟨cut.db, hl, he'.1, ?_, he.extends.trans (extends_leftAt hl)⟩
      rw [Alike, he'.2, assets_leftAt hl, he.2, puts_puts]
  obtain ⟨db, hl, hframe, hassets, hext⟩ := hleft
  obtain ⟨m', again, hs', ht⟩ := resume_left hl (absorbed_nil h₀.db) hs hframe hassets now'
  obtain ⟨report', hok', -⟩ := exec_sync_ok_iff.mpr ⟨os, g₀, hshown', hs'⟩
  refine ⟨report', again, hok', ht, he.extends.trans (extends_observes hs),
    hext.trans (he'.extends.trans (extends_observes hs')), fun g hg now'' => ?_⟩
  -- every completed sync leaves its listing taken in
  have hsynced : Synced os es g.db := by
    induction hg with
    | refl => exact synced_of_observes hs' he'
    | @step g₁ g₂ now report _ hok ih =>
      obtain ⟨g₃, hshown₃, he₃⟩ := hagain g₁ now
      obtain ⟨report₄, g₄, hok₄, -, -, hsynced⟩ := sync_again ih hshown₃ he₃
      cases hok.symm.trans hok₄
      exact hsynced
  obtain ⟨g₁, hshown₁, he₁⟩ := hagain g now''
  obtain ⟨report'', g', hok'', hnone, hunmoved, -⟩ := sync_again hsynced hshown₁ he₁
  exact ⟨report'', g', hok'', hnone, hunmoved⟩

end Sync
/-! ## A transfer that settles -/

/-- A node with one asset and one transfer of it. -/
def awaited (status : TransferStatus) : Listing where
  assets := [("A", "NIA")]
  assetless _ := []
  transfers _ _ := [⟨1, status, "ReceiveBlind", some "r", some "tx", none⟩]

/-- The mirror before the transfer settles. -/
def awaiting : Host := (exec (awaited .waitingConfirmations).env (sync {} .full 0) .fresh).2

/-- The companion crashes after the settled transfer has been upserted and before the
transition is applied: its row is still waiting, and the next sync announces it. -/
theorem awaited_resumes :
    ∃ report full cut, exec (awaited .settled).env (sync {} .full 1) awaiting = (.ok report, full) ∧
      Interrupted (awaited .settled).env (sync {} .full 1) awaiting cut ∧
      (cut.db.transfers.rows.map fun r => (r.status, r.lastSeenAt)) =
        [(.waitingConfirmations, some 1)] ∧
      cut.db.webhookOutbox.rows = [] ∧
      ∃ report' again, exec (awaited .settled).env (sync {} .full 2) cut = (.ok report', again) ∧
        Twins full.db again.db ∧ Extends awaiting.db full.db ∧ Extends awaiting.db again.db ∧
        ∀ g, Reruns (awaited .settled).env {} .full again g → ∀ now'', ∃ report'' g',
          exec (awaited .settled).env (sync {} .full now'') g = (.ok report'', g') ∧
            report''.transitions = 0 ∧ Unmoved g.db g'.db := by
  have hcut : Interrupted (awaited .settled).env (sync {} .full 1) awaiting _ :=
    .ask (.ask (.ask (.ask (.ask (.stop _ _)))))
  exact ⟨_, _, _, rfl, hcut, rfl, rfl, sync_resumes (by decide) rfl hcut 2⟩

end Companion
