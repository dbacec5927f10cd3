import Companion.Mirror.Lockstep
import Companion.Mirror.Resume
import Companion.Runs.Owner

/-!
# The pending scope

A sync of the pending transfers lists only the assets of waiting rows.  When the node
lists every transfer once, what else a full sync observes is of other rows: a row without
an index is known by its recipient or by its transaction, never by both, so two
observations that match it are of one asset, and the pending sync makes both of them or
neither.

## Main definitions

* `Host.HalfKnown` — what an unbound row is known by, in every reachable mirror.
* `Catalogue`, `Env.Keeps` — what a node lists while it does not change.
* `SameEnd` — a row ends the same in two mirrors.
* `pending_agrees` — the two scopes agree on the waiting rows.
-/

set_option autoImplicit false

namespace Companion
open Lib

/-! ## What an unbound row is known by -/

/-- A row without an index has its recipient or its transaction, not both. -/
def Host.HalfKnown (h : Host) : Prop :=
  ∀ k ∈ h.idents, k.rlnIdx = none → k.recipientId = none ∨ k.txid = none

section Known
variable {cfg : Config} {hist : List (Pool.Event Effects Host)} {c : Pool.Config Effects Host}

theorem halfKnown_event {e : Pool.Event Effects Host} (hhooked : e.Lawful (system cfg) Op.Hooked)
    (hk : e.pre.HalfKnown) : e.post.HalfKnown := by
  rcases idents_event hhooked with ⟨-, hsame⟩ | ⟨t, now, row, -, hins, hp⟩ | ⟨o, now, row, -, hp⟩
  · rw [Host.HalfKnown, hsame]
    exact hk
  · have ht : t.Hooked := by
      obtain ⟨i, now', row', hact⟩ := insertedBy_eq_some.mp hins
      obtain ⟨pre, label, post⟩ := e
      subst hact
      exact hhooked.1
    rcases idents_insertTransfer hp with ⟨hsame, -⟩ | ⟨-, hnew⟩
    · rw [Host.HalfKnown, hsame]
      exact hk
    · intro k hmem hfree
      rw [hnew] at hmem
      rcases List.mem_append.mp hmem with hold | hadded
      · exact hk k hold hfree
      · rw [List.mem_singleton.mp hadded]
        exact ht
  · rcases idents_upsertObserved hp with ⟨k₀, -, -, -, hmerged⟩ | ⟨-, hnew⟩
    · intro k hmem hfree
      rw [hmerged] at hmem
      obtain ⟨k', hk', rfl⟩ := List.mem_map.mp hmem
      split at hfree
      · simp [Ident.bound] at hfree
      · next hne =>
        rw [if_neg hne]
        exact hk k' hk' hfree
    · intro k hmem hfree
      rw [hnew] at hmem
      rcases List.mem_append.mp hmem with hold | hadded
      · exact hk k hold hfree
      · rw [List.mem_singleton.mp hadded] at hfree
        simp [Observed.ident] at hfree

theorem halfKnown_of_run (run : (system cfg).Run initial hist c) : c.shared.HalfKnown := by
  refine run.induct (fun _ h => h.HalfKnown) ?_ ?_
  · intro k hk
    simp [Host.idents, initial, Host.fresh, Db.migrated, Table.empty] at hk
  · intro past e he hk
    exact halfKnown_event (hooked_of_run run e he) hk

end Known

/-! ## What a node lists -/

section BTreeSet
variable {ids ids' : List String}

theorem mem_btreeSet {id : String} : id ∈ btreeSet ids ↔ id ∈ ids := by simp [btreeSet]

theorem pairwise_btreeSet (ids : List String) : (btreeSet ids).Pairwise (· < ·) := by
  have hle : (btreeSet ids).Pairwise (· ≤ ·) := List.pairwise_insertionSort _ _
  have hne : (btreeSet ids).Nodup :=
    (List.perm_insertionSort _ _).nodup_iff.mpr (List.nodup_dedup _)
  exact (hle.and hne).imp fun h => lt_of_le_of_ne h.1 h.2

theorem btreeSet_congr (h : ∀ id, id ∈ ids ↔ id ∈ ids') : btreeSet ids = btreeSet ids' := by
  apply (pairwise_btreeSet ids).eq_of_mem_iff (pairwise_btreeSet ids')
  intro id
  rw [mem_btreeSet, mem_btreeSet]
  exact h id

theorem filter_btreeSet (hsub : ∀ id ∈ ids, id ∈ ids') :
    (btreeSet ids').filter (· ∈ ids) = btreeSet ids := by
  apply ((pairwise_btreeSet ids').filter _).eq_of_mem_iff (pairwise_btreeSet ids)
  intro id
  simp only [List.mem_filter, mem_btreeSet, decide_eq_true_eq, and_iff_right_iff_imp]
  exact hsub id

end BTreeSet

/-- What a node lists as long as it does not change.  Every listing is read page by page
to its end, so the page size does not matter. -/
structure Catalogue where
  assets : List (String × String)
  assetless : List RlnTransfer
  transfers : String → List RlnTransfer

/-- The node keeps answering with the same listings. -/
structure Env.Keeps (env : Env) (l : Catalogue) : Prop where
  assets : env.node .listAssets = .ok l.assets
  assetless : ∀ n, env.node (.listAssetlessTransfers n) = .ok l.assetless
  transfers : ∀ id ∈ l.assets.map Prod.fst, ∀ n,
    env.node (.listTransfers id n) = .ok (l.transfers id)

namespace Catalogue

/-- The assets in the order they are synced. -/
def ids (l : Catalogue) : List String := btreeSet (l.assets.map Prod.fst)

/-- The observations made of the transfers listed under an asset. -/
def under (l : Catalogue) (id : String) : List Observed :=
  (l.transfers id).map (RlnTransfer.observed (some id))

/-- The observations made of all that is listed. -/
def observed (l : Catalogue) : List Observed :=
  l.assetless.map (RlnTransfer.observed none) ++ l.ids.flatMap l.under

/-- No two listed transfers have the same index or the same recipient. -/
structure Distinct (l : Catalogue) : Prop where
  rlnIdx : (l.observed.map Observed.rlnIdx).Nodup
  recipientId : l.observed.Pairwise fun o o' => sqlEq o.recipientId o'.recipientId = false

/-- The row is listed: under its asset, or, when it has none, anywhere. -/
def Lists (l : Catalogue) (r : Transfer) : Prop :=
  match r.assetId with
  | some id => id ∈ l.ids ∧ ∃ o ∈ l.under id, Db.matchesObserved o r = true
  | none => ∃ o ∈ l.observed, Db.matchesObserved o r = true

theorem assetId_of_under {l : Catalogue} {id : String} {o : Observed} (ho : o ∈ l.under id) :
    o.assetId = some id := by
  obtain ⟨t, -, rfl⟩ := List.mem_map.mp ho
  rfl

theorem observed_of_under {l : Catalogue} {id : String} {o : Observed} (hid : id ∈ l.ids)
    (ho : o ∈ l.under id) : o ∈ l.observed :=
  List.mem_append_right _ (List.mem_flatMap.mpr ⟨id, hid, ho⟩)

end Catalogue

/-! ## The observations of one row -/

section Match
variable {l : Catalogue} {r : Transfer} {o o' : Observed}

/-- A row without a recipient is matched by its transaction, and that within its asset. -/
theorem assetId_of_matches (hm : Db.matchesObserved o r = true) (hfree : r.rlnIdx = none)
    (hrec : r.recipientId = none) : o.assetId = r.assetId := by
  have hshared : (sqlEq r.txid o.txid && sqlEq r.assetId o.assetId) = true := by
    simpa [hrec] using shares_of_matches hm hfree
  obtain ⟨id, hrow, hobs⟩ := sqlEq_iff.mp (Bool.and_eq_true_iff.mp hshared).2
  rw [hrow, hobs]

/-- A row without a transaction is matched by its recipient. -/
theorem recipientId_of_matches (hm : Db.matchesObserved o r = true) (hfree : r.rlnIdx = none)
    (htx : r.txid = none) : sqlEq r.recipientId o.recipientId = true := by
  simpa [htx] using shares_of_matches hm hfree

/-- All that is listed of one row is of one asset. -/
theorem Catalogue.Distinct.one_asset (hd : l.Distinct)
    (hknown : r.rlnIdx = none → r.recipientId = none ∨ r.txid = none)
    (ho : o ∈ l.observed) (ho' : o' ∈ l.observed) (hm : Db.matchesObserved o r = true)
    (hm' : Db.matchesObserved o' r = true) : o.assetId = o'.assetId := by
  cases hidx : r.rlnIdx with
  | some i =>
    -- a bound row is matched by its index
    have hi : i = o.rlnIdx := Db.index_of_matches hm hidx
    have hi' : i = o'.rlnIdx := Db.index_of_matches hm' hidx
    rw [List.inj_on_of_nodup_map hd.rlnIdx ho ho' (hi.symm.trans hi')]
  | none =>
    rcases hknown hidx with hrec | htx
    · rw [assetId_of_matches hm hidx hrec, assetId_of_matches hm' hidx hrec]
    · obtain ⟨k, hk, hko⟩ := sqlEq_iff.mp (recipientId_of_matches hm hidx htx)
      obtain ⟨k', hk', hko'⟩ := sqlEq_iff.mp (recipientId_of_matches hm' hidx htx)
      have hsame : sqlEq o.recipientId o'.recipientId = true := by
        rw [hk] at hk'
        cases hk'
        exact sqlEq_iff.mpr ⟨k, hko, hko'⟩
      by_contra hne
      have hsymm : Std.Symm fun o o' : Observed => sqlEq o.recipientId o'.recipientId = false :=
        ⟨fun a b hab => by rwa [sqlEq_comm]⟩
      have hdiffer := hd.recipientId.forall ho ho' fun heq => hne (by rw [heq])
      simp [hsame] at hdiffer

end Match

/-! ## What the two scopes observe -/

section Scopes
variable {env : Env} {l : Catalogue} {cfg : Config.Sync} {now : ℤ} {h h₀ : Host}
  {os : List Observed}

/-- The observations a sync of the pending transfers makes. -/
def Db.pends (db : Db) (o : Observed) : Bool :=
  db.pendingAssetIds.2 || o.assetId.any fun id => id ∈ db.pendingAssetIds.1

/-- Whole groups are kept or left out. -/
theorem filter_flatMap_of {α β : Type} {as : List α} {f : α → List β} {p : β → Bool}
    {q : α → Bool} (h : ∀ a ∈ as, ∀ b ∈ f a, p b = q a) :
    (as.flatMap f).filter p = (as.filter q).flatMap f := by
  induction as with
  | nil => rfl
  | cons a as ih =>
    obtain ⟨hhead, hrest⟩ := List.forall_mem_cons.mp h
    rw [List.flatMap_cons, List.filter_append, ih hrest, List.filter_congr hhead]
    cases hq : q a <;> simp [hq]

theorem Env.Keeps.opening {n : ℕ} (hkeeps : env.Keeps l) (hopen : Opening env n true os) :
    os = l.assetless.map (RlnTransfer.observed none) := by
  cases hopen with
  | listed hnode =>
    cases (hkeeps.assetless n).symm.trans hnode
    rfl

theorem Env.Keeps.listed {n : ℕ} {ids : List String} (hkeeps : env.Keeps l)
    (hl : Listed env n ids os) (hids : ∀ id ∈ ids, id ∈ l.assets.map Prod.fst) :
    os = ids.flatMap l.under := by
  induction hl with
  | nil => rfl
  | @cons id ids ts os hnode _ ih =>
    obtain ⟨hid, hrest⟩ := List.forall_mem_cons.mp hids
    cases (hkeeps.transfers id hid n).symm.trans hnode
    rw [List.flatMap_cons, ← ih hrest]
    rfl

/-- A full sync observes all that is listed. -/
theorem shown_full (hkeeps : env.Keeps l) (hshown : Shown env cfg .full now h os h₀) :
    os = l.observed ∧ h₀.db = { h.db with assets := h₀.db.assets } := by
  obtain ⟨ids, assetless, os₁, os₂, hscope, hopen, hl, rfl⟩ := hshown
  obtain ⟨assets, hnode, hstore, rfl, rfl⟩ := exec_scopeAssets_full hscope
  cases hkeeps.assets.symm.trans hnode
  refine ⟨?_, (entered_upsertAssets hstore).1⟩
  rw [hkeeps.opening hopen, hkeeps.listed hl fun id hid => mem_btreeSet.mp hid]
  rfl

/-- A sync of the pending transfers observes what pends. -/
theorem shown_pending (hkeeps : env.Keeps l) (hshown : Shown env cfg .pending now h os h₀)
    (hsub : ∀ id ∈ h.db.pendingAssetIds.1, id ∈ l.assets.map Prod.fst) :
    os = l.observed.filter h.db.pends ∧ h₀.db = { h.db with assets := h₀.db.assets } := by
  obtain ⟨ids, assetless, os₁, os₂, hscope, hopen, hl, rfl⟩ := hshown
  rcases exec_scopeAssets_pending hscope with
    ⟨hagnostic, rfl, rfl, hsame⟩ | ⟨hagnostic, rfl, assets, hnode, hstore, rfl⟩
  · refine ⟨?_, by rw [hsame]⟩
    cases hopen
    have hnone : (l.assetless.map (RlnTransfer.observed none)).filter h.db.pends = [] := by
      simp [Db.pends, hagnostic, RlnTransfer.observed]
    have hpick : ∀ id ∈ l.ids, ∀ o ∈ l.under id,
        h.db.pends o = decide (id ∈ h.db.pendingAssetIds.1) := by
      intro id _ o ho
      simp [Db.pends, hagnostic, Catalogue.assetId_of_under ho]
    rw [hkeeps.listed hl fun id hid => hsub id (mem_btreeSet.mp hid), ← filter_btreeSet hsub,
      Catalogue.observed, List.filter_append, hnone, filter_flatMap_of hpick]
    rfl
  · cases hkeeps.assets.symm.trans hnode
    have hall : h.db.pends = fun _ => true := by
      funext o
      simp [Db.pends, hagnostic]
    have hids : ∀ id, id ∈ h.db.pendingAssetIds.1 ++ l.assets.map Prod.fst ↔
        id ∈ l.assets.map Prod.fst := by
      intro id
      rw [List.mem_append]
      exact ⟨fun hid => hid.elim (hsub id) fun hid => hid, Or.inr⟩
    refine ⟨?_, (entered_upsertAssets hstore).1⟩
    rw [btreeSet_congr hids] at hl
    rw [hall, List.filter_true, hkeeps.opening hopen,
      hkeeps.listed hl fun id hid => mem_btreeSet.mp hid]
    rfl

end Scopes

/-! ## The rows that both syncs make the same of -/

namespace Db
variable {db : Db} {r w : Transfer} {id : String}

theorem mem_pendingAssetIds : id ∈ db.pendingAssetIds.1 ↔
    ∃ r ∈ db.transfers.rows, r.status.waiting = true ∧ r.assetId = some id := by
  simp [pendingAssetIds, and_assoc]

theorem pendingAssetIds_agnostic : db.pendingAssetIds.2 = true ↔
    ∃ r ∈ db.transfers.rows, r.status.waiting = true ∧ r.assetId = none := by
  simp [pendingAssetIds]

/-- The identifiers of the rows that match nothing but what pends. -/
def reserved (db : Db) (os : List Observed) (id : ℕ) : Bool :=
  db.transfers.rows.any fun r =>
    r.id = id && os.all fun o => db.pends o || !matchesObserved o r

theorem reserved_iff {os : List Observed} (hr : r ∈ db.transfers.rows) :
    db.reserved os r.id = true ↔ ∀ o ∈ os, matchesObserved o r = true → db.pends o = true := by
  simp only [reserved, List.any_eq_true, Bool.and_eq_true, decide_eq_true_eq, List.all_eq_true,
    Bool.or_eq_true, Bool.not_eq_true']
  constructor
  · intro ⟨a, ha, hid, hall⟩ o ho hm
    have hsame := db.transfers.eq_of_clash ha hr (Transfer.clash_of_id hid)
    subst hsame
    rcases hall o ho with hpends | hno
    · exact hpends
    · simp [hm] at hno
  · intro hall
    refine ⟨r, hr, rfl, fun o ho => ?_⟩
    cases hm : matchesObserved o r with
    | false => exact Or.inr rfl
    | true => exact Or.inl (hall o ho hm)

end Db

section Sorting
variable {l : Catalogue} {db : Db} {r w : Transfer} {o : Observed}

/-- What pends is settled by the asset. -/
theorem pends_congr {o o' : Observed} (h : o.assetId = o'.assetId) : db.pends o = db.pends o' := by
  rw [Db.pends, Db.pends, h]

/-- A listed observation pends if and only if its rows are reserved. -/
theorem reserved_of_matches (hd : l.Distinct) (hr : r ∈ db.transfers.rows)
    (hknown : r.rlnIdx = none → r.recipientId = none ∨ r.txid = none)
    (ho : o ∈ l.observed) (hm : Db.matchesObserved o r = true) :
    db.reserved l.observed r.id = db.pends o := by
  have hiff : db.reserved l.observed r.id = true ↔ db.pends o = true := by
    rw [Db.reserved_iff hr]
    constructor
    · intro hall
      exact hall o ho hm
    · intro hpends o' ho' hm'
      rw [pends_congr (hd.one_asset hknown ho' ho hm' hm)]
      exact hpends
  exact Bool.eq_iff_iff.mpr hiff

/-- A listed row that waits is reserved. -/
theorem reserved_of_waiting (hd : l.Distinct) (hw : w ∈ db.transfers.rows)
    (hknown : w.rlnIdx = none → w.recipientId = none ∨ w.txid = none)
    (hwaiting : w.status.waiting = true) (hlists : l.Lists w) :
    db.reserved l.observed w.id = true := by
  rw [Db.reserved_iff hw]
  intro o ho hm
  cases hasset : w.assetId with
  | none =>
    have hagnostic := Db.pendingAssetIds_agnostic.mpr ⟨w, hw, hwaiting, hasset⟩
    simp [Db.pends, hagnostic]
  | some id =>
    have hpending := Db.mem_pendingAssetIds.mpr ⟨w, hw, hwaiting, hasset⟩
    simp only [Catalogue.Lists, hasset] at hlists
    obtain ⟨hid, o', ho', hm'⟩ := hlists
    have hobs := hd.one_asset hknown ho (Catalogue.observed_of_under hid ho') hm hm'
    rw [Catalogue.assetId_of_under ho'] at hobs
    simp [Db.pends, hobs, hpending]

end Sorting

/-! ## The two scopes -/

/-- The transfer `id` ends the same in both mirrors, and the same has been announced of it
since the start. -/
structure SameEnd (id : ℕ) (start db db' : Db) : Prop where
  row : ∃ r r', db.transfer? id = some r ∧ db'.transfer? id = some r' ∧
    r.status = r'.status ∧ r.rlnIdx = r'.rlnIdx ∧ r.assetId = r'.assetId ∧ r.kind = r'.kind ∧
    r.txid = r'.txid ∧ r.expirationTimestamp = r'.expirationTimestamp
  events : ∃ out, db.transferEvents id = start.transferEvents id ++ out ∧
    db'.transferEvents id = start.transferEvents id ++ out

theorem transferEvents_prefix {db db' : Db} (he : Extends db db') (id : ℕ) :
    db.transferEvents id <+: db'.transferEvents id :=
  he.outbox.filterMap _

/-- In lockstep to the end. -/
theorem Lockstep.sameEnd {S : ℕ → Bool} {rows₀ : List Transfer} {pend : Observed → Bool}
    {start db db' : Db} {id : ℕ} (hl : Lockstep S rows₀ pend [] db db') (hid : S id = true)
    (he : Extends start db) : SameEnd id start db' db := by
  obtain ⟨r, hr, hrid⟩ := List.mem_map.mp (hl.known id hid)
  have hpart : r ∈ db.part S := by
    rw [Db.part, List.mem_filter, hrid]
    exact ⟨hr, hid⟩
  obtain ⟨r', hr', hbare⟩ := hl.part.exists_mem hpart
  simp only [Transfer.bare, Transfer.mk.injEq] at hbare
  obtain ⟨out, hout⟩ := transferEvents_prefix he id
  refine ⟨⟨r', r, ?_, ?_, ?_⟩, out, ?_, hout.symm⟩
  · exact Db.transfer?_eq_some.mpr ⟨(List.mem_filter.mp hr').1, hbare.1.trans hrid⟩
  · exact Db.transfer?_eq_some.mpr ⟨hr, hrid⟩
  · simp [hbare]
  · rw [hl.events id hid, hout]

/-- **The pending scope.**  From a reachable mirror, and with a node that lists every
transfer once and does not change, let a sync of the pending transfers and a full sync
complete.  Then every row that was waiting, and each of these is listed, ends the same
under both, and the same has been announced of it. -/
theorem pending_agrees {cfg : Config} {hist : List (Pool.Event Effects Host)}
    {c : Pool.Config Effects Host} (run : (system cfg).Run initial hist c) {env : Env}
    {l : Catalogue} (hkeeps : env.Keeps l) (hdistinct : l.Distinct)
    (hlists : ∀ r ∈ c.shared.db.transfers.rows, r.status.waiting = true → l.Lists r)
    {scfg : Config.Sync} {now now' : ℤ} {report report' : SyncReport} {pending full : Host}
    (hpending : exec env (sync scfg .pending now) c.shared = (.ok report, pending))
    (hfull : exec env (sync scfg .full now') c.shared = (.ok report', full))
    {w : Transfer} (hw : w ∈ c.shared.db.transfers.rows) (hwaiting : w.status.waiting = true) :
    SameEnd w.id c.shared.db pending.db full.db := by
  have hknown : ∀ r ∈ c.shared.db.transfers.rows, r.rlnIdx = none →
      r.recipientId = none ∨ r.txid = none :=
    fun r hr => halfKnown_of_run run r.ident (List.mem_map_of_mem hr)
  have hsub : ∀ id ∈ c.shared.db.pendingAssetIds.1, id ∈ l.assets.map Prod.fst := by
    intro id hid
    obtain ⟨r, hr, hwait, hasset⟩ := Db.mem_pendingAssetIds.mp hid
    have hlisted := hlists r hr hwait
    simp only [Catalogue.Lists, hasset] at hlisted
    exact mem_btreeSet.mp hlisted.1
  -- the pending sync makes a part of the observations of the full one
  obtain ⟨os', g₀, hshown', hs'⟩ := exec_sync_ok_iff.mp ⟨report, hpending, rfl⟩
  obtain ⟨os, h₀, hshown, hs⟩ := exec_sync_ok_iff.mp ⟨report', hfull, rfl⟩
  obtain ⟨rfl, hframe'⟩ := shown_pending hkeeps hshown' hsub
  obtain ⟨rfl, hframe⟩ := shown_full hkeeps hshown
  have hrows : h₀.db.transfers.rows = c.shared.db.transfers.rows := by rw [hframe]
  have hrows' : g₀.db.transfers.rows = c.shared.db.transfers.rows := by rw [hframe']
  have hids : ∀ i, c.shared.db.reserved l.observed i = true →
      i ∈ c.shared.db.transfers.rows.map Transfer.id := by
    intro i hi
    obtain ⟨r, hr, hri⟩ := List.any_eq_true.mp hi
    rw [Bool.and_eq_true, decide_eq_true_eq] at hri
    exact List.mem_map.mpr ⟨r, hr, hri.1⟩
  have hstart : Lockstep (c.shared.db.reserved l.observed) c.shared.db.transfers.rows
      c.shared.db.pends l.observed h₀.db g₀.db := by
    refine ⟨?_, fun i _ => ?_, fun r hr o _ _ => hrows ▸ hr, fun r hr o _ _ => hrows' ▸ hr,
      fun i hi => ?_, fun i hi => ?_⟩
    · rw [Db.part, Db.part, hrows, hrows']
      exact .refl _ _
    · rw [hframe, hframe']
      rfl
    · rw [hrows]
      exact hids i hi
    · rw [hrows']
      exact hids i hi
  have hend := hstart.observes hs hs'
    (fun r hr o ho hm => reserved_of_matches hdistinct hr (hknown r hr) ho hm) hdistinct.rlnIdx
  refine hend.sameEnd
    (reserved_of_waiting hdistinct hw (hknown w hw) hwaiting (hlists w hw hwaiting)) ?_
  have hentered : Extends c.shared.db h₀.db := by
    rw [hframe]
    exact ⟨List.prefix_refl _, List.prefix_refl _⟩
  exact hentered.trans (extends_observes hs)

/-! ## An invoice that is paid -/

/-- The invoice has been paid, and a transfer without an asset is under way. -/
def paid : Catalogue where
  assets := [("A", "NIA")]
  assetless := [⟨2, .waitingConfirmations, "Issuance", none, some "tx", none⟩]
  transfers _ := [⟨1, .settled, "ReceiveBlind", some "r", some "tx'", none⟩]

/-- A node that lists it. -/
def Catalogue.env (l : Catalogue) : Env :=
  Listing.env ⟨l.assets, fun _ => l.assetless, fun id _ => l.transfers id⟩

/-- An invoice has been made. -/
def invoiced : List (Pool.Move (system defaults)) :=
  let invoice : World := .of (.answering .rgbinvoice ⟨"r", "invoice", none, 7⟩)
  [.start (rgbinvoice (some ⟨some "A", false⟩)), .act 0 invoice, .act 0 invoice, .act 0 invoice]

theorem invoiced_admitted : Pool.Admitted invoiced :=
  ⟨.rgbinvoice _, trivial, trivial, trivial, trivial⟩

theorem invoiced_plays : ((system defaults).play invoiced initial).isSome := rfl

/-- The mirror by then. -/
def invoicedHost : Host := (Option.get _ invoiced_plays).1.shared

/-- The pending sync is not shown the transfer without an asset, and both syncs settle the
row of the invoice. -/
theorem invoiced_agrees :
    ∃ w report report' pending full, w ∈ invoicedHost.db.transfers.rows ∧
      exec paid.env (sync {} .pending 1) invoicedHost = (.ok report, pending) ∧
      exec paid.env (sync {} .full 2) invoicedHost = (.ok report', full) ∧
      report.transfers = 1 ∧ report'.transfers = 2 ∧
      SameEnd w.id invoicedHost.db pending.db full.db := by
  have hkeeps : paid.env.Keeps paid := ⟨rfl, fun _ => rfl, fun _ _ _ => rfl⟩
  have hdistinct : paid.Distinct := ⟨by decide, by decide⟩
  obtain ⟨w, hrows, hwaiting, hlists⟩ : ∃ w, invoicedHost.db.transfers.rows = [w] ∧
      w.status.waiting = true ∧ paid.Lists w :=
    ⟨_, rfl, rfl, List.mem_singleton_self _, _, List.mem_singleton_self _, rfl⟩
  have hw : w ∈ invoicedHost.db.transfers.rows := by simp [hrows]
  obtain ⟨report, pending, hpending, hone⟩ : ∃ report pending,
      exec paid.env (sync {} .pending 1) invoicedHost = (.ok report, pending) ∧
        report.transfers = 1 := ⟨_, _, rfl, rfl⟩
  obtain ⟨report', full, hfull, htwo⟩ : ∃ report' full,
      exec paid.env (sync {} .full 2) invoicedHost = (.ok report', full) ∧
        report'.transfers = 2 := ⟨_, _, rfl, rfl⟩
  have hall : ∀ r ∈ invoicedHost.db.transfers.rows, r.status.waiting = true → paid.Lists r := by
    intro r hr _
    have hsame : r = w := by simpa [hrows] using hr
    rwa [hsame]
  exact ⟨w, report, report', pending, full, hw, hpending, hfull, hone, htwo,
    pending_agrees (Pool.run_of_isSome invoiced_admitted invoiced_plays) hkeeps hdistinct hall
      hpending hfull hw hwaiting⟩

end Companion
