import Companion.Mirror.Lockstep

/-!
# What a full sync leaves of a listing

Every listed transfer gets a row of its own.  An observation takes a row that is bound to
its index or to none, so with distinct indices it never takes the row of an observation
before it: the rows that are not yet taken are as they were at the start.

## Main definitions

* `Env.listed` — what a full sync is shown.
* `CarriedBy` — a row carries an observation, with the status it is to have.
* `Carried` — what holds on the way.
* `nothing_left_behind` — what holds at the end.
-/

set_option autoImplicit false

namespace Companion
open Lib

/-! ## The listing of a full sync -/

/-- What a call to the node lists; nothing if it fails. -/
def Env.transfers (env : Env) (assetId : Option String) (n : ℕ) : List RlnTransfer :=
  let answer : Except RlnError (List RlnTransfer) :=
    match assetId with
    | none => env.node (.listAssetlessTransfers n)
    | some id => env.node (.listTransfers id n)
  answer.toOption.getD []

/-- The assets the node lists, in the order they are synced. -/
def Env.assetIds (env : Env) : List String :=
  let answer : Except RlnError (List (String × String)) := env.node .listAssets
  btreeSet ((answer.toOption.getD []).map Prod.fst)

/-- The observations of all that is listed with pages of this size. -/
def Env.listed (env : Env) (n : ℕ) : List Observed :=
  (none :: env.assetIds.map some).flatMap fun assetId =>
    (env.transfers assetId n).map (RlnTransfer.observed assetId)

section Shown
variable {env : Env} {now : ℤ} {h h₀ : Host} {os : List Observed} {n : ℕ}

theorem Listed.eq_flatMap {ids : List String} (hl : Listed env n ids os) :
    os = ids.flatMap fun id =>
      (env.transfers (some id) n).map (RlnTransfer.observed (some id)) := by
  induction hl with
  | nil => rfl
  | @cons id ids ts os hnode _ ih =>
    have hts : env.transfers (some id) n = ts := by simp [Env.transfers, hnode, Except.toOption]
    rw [List.flatMap_cons, hts, ih]

/-- A full sync observes what is listed, and begins with the rows as they were. -/
theorem shown_listed {cfg : Config.Sync} (hshown : Shown env cfg .full now h os h₀) :
    os = env.listed (cfg.pages .full) ∧ h₀.db.transfers = h.db.transfers := by
  obtain ⟨ids, assetless, os₁, os₂, hscope, hopen, hl, rfl⟩ := hshown
  obtain ⟨assets, hnode, hstore, rfl, rfl⟩ := exec_scopeAssets_full hscope
  have hids : env.assetIds = btreeSet (assets.map Prod.fst) := by
    rw [Env.assetIds, hnode]
    rfl
  refine ⟨?_, (StoreOp.frame hstore).transfers (by simp [StoreOp.writes])⟩
  cases hopen with
  | @listed ts hts =>
    have hassetless : env.transfers none (cfg.pages .full) = ts := by
      simp [Env.transfers, hts, Except.toOption]
    rw [Env.listed, List.flatMap_cons, hassetless, hids, List.flatMap_map, hl.eq_flatMap]

end Shown

/-! ## One observation after another -/

/-- The row is bound to the observed index.  A new row has the observed status, and a row
of the start the one it had or, if that moves it, the observed one. -/
def CarriedBy (start : List Transfer) (o : Observed) (row : Transfer) : Prop :=
  row.rlnIdx = some o.rlnIdx ∧
    (((∀ old ∈ start, old.id ≠ row.id) ∧ row.status = o.status) ∨
      ∃ old ∈ start, old.id = row.id ∧
        row.status = if TransferMove old.status o.status then o.status else old.status)

/-- With `done` observed every one of them is carried, and what carries none of them is as
it was at the start. -/
structure Carried (start : List Transfer) (done : List Observed) (db : Db) : Prop where
  carries : ∀ o ∈ done, ∃ row ∈ db.transfers.rows, CarriedBy start o row
  others : ∀ row ∈ db.transfers.rows, (∀ o ∈ done, row.rlnIdx ≠ some o.rlnIdx) → row ∈ start
  stays : ∀ old ∈ start, ∃ row ∈ db.transfers.rows, row.id = old.id

section Step
variable {env : Env} {now : ℤ} {h h' : Host} {o : Observed} {os done : List Observed}
  {start : List Transfer} {moved : Bool} {m : ℕ}

theorem carried_start (db : Db) : Carried db.transfers.rows [] db where
  carries o ho := by simp at ho
  others row hrow _ := hrow
  stays old hold := ⟨old, hold, rfl⟩

/-- The row an observation takes was not taken before. -/
theorem Carried.found (hc : Carried start done h.db) (hnew : ∀ q ∈ done, q.rlnIdx ≠ o.rlnIdx)
    {r : Transfer} (hfound : h.db.findObserved o = some r) :
    r ∈ start ∧ ∀ q ∈ done, r.rlnIdx ≠ some q.rlnIdx := by
  obtain ⟨hr, hmatch, -⟩ := Db.findObserved_some hfound
  have hfree : ∀ q ∈ done, r.rlnIdx ≠ some q.rlnIdx := by
    intro q hq hidx
    exact hnew q hq (Db.index_of_matches hmatch hidx)
  exact ⟨hc.others r hr hfree, hfree⟩

/-- An observation merged into a row of the start. -/
theorem Carried.merged (hc : Carried start done h.db) (hnew : ∀ q ∈ done, q.rlnIdx ≠ o.rlnIdx)
    {r : Transfer} (hfound : h.db.findObserved o = some r)
    (hrows : h'.db.transfers.rows =
      Table.replace Transfer.id r.id (o.onto now) h.db.transfers.rows) :
    Carried start (done ++ [o]) h'.db := by
  obtain ⟨hstart, hfree⟩ := hc.found hnew hfound
  have hr := (Db.findObserved_some hfound).1
  have hmem : ∀ a : Transfer, a ∈ h'.db.transfers.rows ↔ a = o.onto now r ∨
      (a ∈ h.db.transfers.rows ∧ a.id ≠ r.id) := by
    intro a
    rw [hrows]
    exact Db.mem_replace_row hr
  constructor
  · intro q hq
    obtain hq | hq := List.mem_append.mp hq
    · obtain ⟨row, hrow, hcar⟩ := hc.carries q hq
      have hother : row.id ≠ r.id := by
        intro hid
        have hsame := h.db.transfers.eq_of_clash hrow hr (Transfer.clash_of_id hid)
        exact hfree q hq (hsame ▸ hcar.1)
      exact ⟨row, (hmem row).mpr (.inr ⟨hrow, hother⟩), hcar⟩
    · rw [List.mem_singleton.mp hq]
      refine ⟨o.onto now r, (hmem _).mpr (.inl rfl), rlnIdx_onto o now r, .inr ?_⟩
      exact ⟨r, hstart, (id_onto o now r).symm, Transfer.status_apply o.status now _⟩
  · intro row hrow hno
    obtain rfl | ⟨hold, -⟩ := (hmem row).mp hrow
    · exact absurd (rlnIdx_onto o now r) (hno o (by simp))
    · exact hc.others row hold fun q hq => hno q (List.mem_append_left _ hq)
  · intro old hold
    obtain ⟨row, hrow, hid⟩ := hc.stays old hold
    obtain ⟨row', hrow', hid'⟩ := Table.exists_key_replace (k := r.id) (id_onto o now) hrow
    exact ⟨row', hrows ▸ hrow', hid'.trans hid⟩

/-- An observation that gets a new row. -/
theorem Carried.inserted (hc : Carried start done h.db)
    (hrows : h'.db.transfers.rows = h.db.transfers.rows ++ [o.row h.nextUuid now]) :
    Carried start (done ++ [o]) h'.db := by
  have hfresh : ∀ old ∈ start, old.id ≠ h.nextUuid := by
    intro old hold
    obtain ⟨row, hrow, hid⟩ := hc.stays old hold
    have hlt := Host.transfer_lt_nextUuid hrow
    omega
  have hmem : ∀ a : Transfer, a ∈ h'.db.transfers.rows ↔
      a ∈ h.db.transfers.rows ∨ a = o.row h.nextUuid now := by
    intro a
    simp [hrows]
  constructor
  · intro q hq
    obtain hq | hq := List.mem_append.mp hq
    · obtain ⟨row, hrow, hcar⟩ := hc.carries q hq
      exact ⟨row, (hmem row).mpr (.inl hrow), hcar⟩
    · rw [List.mem_singleton.mp hq]
      exact ⟨_, (hmem _).mpr (.inr rfl), rfl, .inl ⟨hfresh, rfl⟩⟩
  · intro row hrow hno
    obtain hold | rfl := (hmem row).mp hrow
    · exact hc.others row hold fun q hq => hno q (List.mem_append_left _ hq)
    · exact absurd rfl (hno o (by simp))
  · intro old hold
    obtain ⟨row, hrow, hid⟩ := hc.stays old hold
    exact ⟨row, (hmem row).mpr (.inl hrow), hid⟩

/-- One observation of an index that was not observed before. -/
theorem Carried.mirror (hc : Carried start done h.db) (hnew : ∀ q ∈ done, q.rlnIdx ≠ o.rlnIdx)
    (hok : exec env (o.mirror now) h = (.ok moved, h')) : Carried start (done ++ [o]) h'.db := by
  have hrows := (exec_mirror_rows hok).1
  unfold Observed.rows at hrows
  cases hfound : h.db.findObserved o with
  | none =>
    rw [hfound] at hrows
    exact hc.inserted hrows
  | some r =>
    rw [hfound] at hrows
    exact hc.merged hnew hfound hrows

/-- A chain of observations of different indices. -/
theorem Carried.observes (hs : Observes env now os m h h')
    (hnodup : ((done ++ os).map Observed.rlnIdx).Nodup) (hc : Carried start done h.db) :
    Carried start (done ++ os) h'.db := by
  induction hs generalizing done with
  | nil => simpa using hc
  | @cons o os _ _ _ _ _ hok _ ih =>
    have hnew : ∀ q ∈ done, q.rlnIdx ≠ o.rlnIdx := by
      intro q hq heq
      simp only [List.map_append, List.map_cons, List.nodup_append] at hnodup
      exact hnodup.2.2 q.rlnIdx (List.mem_map_of_mem hq) o.rlnIdx (by simp) heq
    rw [List.append_cons] at hnodup ⊢
    exact ih hnodup (hc.mirror hnew hok)

end Step

/-! ## The sync -/

/-- **No listed transfer is left behind.**  After a full sync of a listing with distinct
indices every listed transfer is carried by one row with its index, no two by the same one,
and its status is the listed one if the row is new or is moved by it, and otherwise what it
was; the rows that carry nothing listed are as they were, and no row is gone. -/
theorem nothing_left_behind {env : Env} {cfg : Config.Sync} {now : ℤ} {h h' : Host}
    {report : SyncReport}
    (hdistinct : ((env.listed (cfg.pages .full)).map Observed.rlnIdx).Nodup)
    (hok : exec env (sync cfg .full now) h = (.ok report, h')) :
    (∀ o ∈ env.listed (cfg.pages .full), ∃ row ∈ h'.db.transfers.rows,
      CarriedBy h.db.transfers.rows o row ∧
      ∀ row' ∈ h'.db.transfers.rows, row'.rlnIdx = some o.rlnIdx → row' = row) ∧
    (∀ o ∈ env.listed (cfg.pages .full), ∀ o' ∈ env.listed (cfg.pages .full),
      ∀ row ∈ h'.db.transfers.rows, CarriedBy h.db.transfers.rows o row →
        CarriedBy h.db.transfers.rows o' row → o = o') ∧
    (∀ row ∈ h'.db.transfers.rows,
      (∀ o ∈ env.listed (cfg.pages .full), row.rlnIdx ≠ some o.rlnIdx) →
        row ∈ h.db.transfers.rows) ∧
    ∀ old ∈ h.db.transfers.rows, ∃ row ∈ h'.db.transfers.rows, row.id = old.id := by
  obtain ⟨os, h₀, hshown, hs⟩ := exec_sync_ok_iff.mp ⟨report, hok, rfl⟩
  obtain ⟨rfl, hrows⟩ := shown_listed hshown
  have hcarried : Carried h.db.transfers.rows (env.listed (cfg.pages .full)) h'.db := by
    have hstart := carried_start h₀.db
    rw [hrows] at hstart
    generalize env.listed (cfg.pages .full) = os at hs hdistinct
    have hall : Carried h.db.transfers.rows ([] ++ os) h'.db := hstart.observes hs hdistinct
    simpa using hall
  refine ⟨?_, ?_, hcarried.others, hcarried.stays⟩
  · intro o ho
    obtain ⟨row, hrow, hcar⟩ := hcarried.carries o ho
    refine ⟨row, hrow, hcar, ?_⟩
    intro row' hrow' hidx
    exact eq_of_bound hrow' hrow hidx hcar.1
  · intro o ho o' ho' row _ hcar hcar'
    have hidx : o.rlnIdx = o'.rlnIdx := Option.some.inj (hcar.1.symm.trans hcar'.1)
    exact List.inj_on_of_nodup_map hdistinct ho ho' hidx

/-! ## An invoice and an issuance -/

/-- The invoice has been paid, and a transfer without an asset is listed before it. -/
def invoiceListed : Listing where
  assets := [("A", "NIA")]
  assetless _ := [⟨2, .waitingConfirmations, "Issuance", none, some "tx", none⟩]
  transfers _ _ := [⟨1, .settled, "ReceiveBlind", some "r", some "tx", none⟩]

/-- The invoice is stored, without an index. -/
def invoiceStored : Host :=
  ((StoreOp.insertTransfer
    ⟨some "A", none, .waitingCounterparty, some "r", none, none, some "inv", none⟩ 0).perform
      .fresh).2

/-- The issuance gets a row of its own, and the invoice settles in the row it has. -/
theorem invoice_carried :
    ∃ report h', exec invoiceListed.env (sync {} .full 1) invoiceStored = (.ok report, h') ∧
      h'.db.transfers.rows.map (fun r => (r.rlnIdx, r.status, r.invoice)) =
        [(some 1, .settled, some "inv"), (some 2, .waitingConfirmations, none)] ∧
      ∀ o ∈ invoiceListed.env.listed 1000, ∃ row ∈ h'.db.transfers.rows,
        CarriedBy invoiceStored.db.transfers.rows o row ∧
        ∀ row' ∈ h'.db.transfers.rows, row'.rlnIdx = some o.rlnIdx → row' = row := by
  obtain ⟨report, h', hok, hrows⟩ : ∃ report h',
      exec invoiceListed.env (sync {} .full 1) invoiceStored = (.ok report, h') ∧
        h'.db.transfers.rows.map (fun r => (r.rlnIdx, r.status, r.invoice)) =
          [(some 1, .settled, some "inv"), (some 2, .waitingConfirmations, none)] :=
    ⟨_, _, rfl, rfl⟩
  exact ⟨report, h', hok, hrows, (nothing_left_behind (by decide) hok).1⟩

end Companion
