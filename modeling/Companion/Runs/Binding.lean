import Companion.System

/-!
# One transfer, one row

A transfer created through a hook gets a row from the hook and is seen by syncs, in
whatever order the tasks run.  `one_row_iff` says when the two end up in one row:
always for an invoice, whose recipient both sides give; for a send, which the hook
gives no recipient, only when the hook is first.

The argument needs nothing of a row but the columns it is recognised by, its
`Ident`, and nothing of the mirror but the rows that concern the transfer.

## Main definitions

* `Ident`, `concerning` — the rows that concern a transfer.
* `Hook` — the hooks that insert transfers.
* `OneRow` — the transfer has one row, and it is bound.
-/

set_option autoImplicit false

namespace Companion
open Lib

/-! ## What a row is recognised by -/

/-- The columns a row is recognised by. -/
structure Ident where
  id : ℕ
  rlnIdx : Option ℤ
  recipientId : Option String
  txid : Option String
  assetId : Option String
  deriving DecidableEq, Repr

def Transfer.ident (r : Transfer) : Ident := ⟨r.id, r.rlnIdx, r.recipientId, r.txid, r.assetId⟩

def NewTransfer.ident (t : NewTransfer) (id : ℕ) : Ident :=
  ⟨id, none, t.recipientId, t.txid, t.assetId⟩

def Observed.ident (o : Observed) (id : ℕ) : Ident :=
  ⟨id, some o.rlnIdx, o.recipientId, o.txid, o.assetId⟩

/-- What an observation makes of the row it is merged into. -/
def Ident.bound (o : Observed) (k : Ident) : Ident :=
  { k with
    rlnIdx := some o.rlnIdx
    assetId := o.assetId.or k.assetId
    txid := o.txid.or k.txid }

/-- `Db.matchesObserved`, of the columns it looks at. -/
def Ident.matched (o : Observed) (k : Ident) : Bool :=
  sqlEq k.rlnIdx (some o.rlnIdx) ||
    (k.rlnIdx.isNone &&
      (sqlEq k.recipientId o.recipientId || (sqlEq k.txid o.txid && sqlEq k.assetId o.assetId)))

theorem matched_ident (o : Observed) (r : Transfer) :
    r.ident.matched o = Db.matchesObserved o r := rfl

/-- The identifying columns of the mirror's rows. -/
def Host.idents (h : Host) : List Ident := h.db.transfers.rows.map Transfer.ident

theorem ident_unique {h : Host} {k k' : Ident} (hk : k ∈ h.idents) (hk' : k' ∈ h.idents)
    (hc : k.id = k'.id ∨ sqlEq k.rlnIdx k'.rlnIdx = true) : k = k' := by
  rcases List.mem_map.mp hk with ⟨r, hr, rfl⟩
  rcases List.mem_map.mp hk' with ⟨r', hr', rfl⟩
  have hclash : r.Clash r' := hc.imp id Or.inl
  rw [h.db.transfers.eq_of_clash hr hr' hclash]

/-- A write that leaves the identifying columns of the rows it touches. -/
theorem map_ident_replace {key : ℕ} {f : Transfer → Transfer} (hf : ∀ r, (f r).ident = r.ident)
    (rows : List Transfer) :
    (Table.replace Transfer.id key f rows).map Transfer.ident = rows.map Transfer.ident := by
  rw [Table.replace, List.map_map]
  refine List.map_congr_left fun r _ => ?_
  by_cases hid : r.id = key <;> simp [hid, hf]

theorem idents_insertTransfer {t : NewTransfer} {now : ℤ} {h h' : Host} {row : Transfer}
    (hp : (StoreOp.insertTransfer t now).perform h = (.ok row, h')) :
    (h'.idents = h.idents ∧ ∃ k ∈ h.idents, sqlEq k.recipientId t.recipientId = true) ∨
      ((∀ k ∈ h.idents, sqlEq k.recipientId t.recipientId = false) ∧
        h'.idents = h.idents ++ [t.ident h.nextUuid]) := by
  rcases Host.commit_ok hp with ⟨db', hok, rfl⟩
  rcases Db.insertTransfer_ok hok with ⟨T, rfl, ⟨r, hr, hrec, hT, -⟩ | ⟨hclash, hT, -⟩⟩
  · refine Or.inl ⟨?_, r.ident, List.mem_map_of_mem hr, hrec⟩
    change T.rows.map Transfer.ident = h.db.transfers.rows.map Transfer.ident
    rw [hT]
    exact map_ident_replace (f := t.merge now) (fun _ => rfl) _
  · refine Or.inr ⟨fun k hk => ?_, ?_⟩
    · rcases List.mem_map.mp hk with ⟨r, hr, rfl⟩
      by_contra hne
      have hrec : sqlEq r.recipientId t.recipientId = true := by simpa [Transfer.ident] using hne
      exact hclash r hr (Or.inr (Or.inr hrec))
    · change T.rows.map Transfer.ident = h.db.transfers.rows.map Transfer.ident ++ _
      rw [hT, List.map_append]
      rfl

theorem idents_upsertObserved {o : Observed} {now : ℤ} {h h' : Host} {row : Transfer}
    (hp : (StoreOp.upsertObserved o now).perform h = (.ok row, h')) :
    (∃ k ∈ h.idents, k.matched o = true ∧
        (∀ k' ∈ h.idents, k'.rlnIdx = some o.rlnIdx → k.rlnIdx = some o.rlnIdx) ∧
        h'.idents = h.idents.map fun k' => if k'.id = k.id then k'.bound o else k') ∨
      ((∀ k ∈ h.idents, k.matched o = false) ∧
        h'.idents = h.idents ++ [o.ident h.nextUuid]) := by
  rcases Host.commit_ok hp with ⟨db', hok, rfl⟩
  rcases Db.upsertObserved_ok hok with ⟨T, rfl, ⟨r, hr, -, hT⟩ | ⟨hnone, -, -, hT⟩⟩
  · rcases Db.findObserved_some hr with ⟨hmem, hmatch, hmin⟩
    refine Or.inl ⟨r.ident, List.mem_map_of_mem hmem, hmatch, fun k' hk' hidx => ?_, ?_⟩
    · rcases List.mem_map.mp hk' with ⟨r', hr', rfl⟩
      have hidx' : sqlEq r'.rlnIdx (some o.rlnIdx) = true := sqlEq_iff.mpr ⟨_, hidx, rfl⟩
      have hrank := hmin r' hr' (by simp [Db.matchesObserved, hidx'])
      rw [show Db.matchRank o r' = 0 from if_pos hidx'] at hrank
      by_contra hne
      have hno : sqlEq r.rlnIdx (some o.rlnIdx) ≠ true := fun h => by
        rcases sqlEq_iff.mp h with ⟨i, hi, ho⟩
        exact hne (hi.trans ho.symm)
      rw [Db.matchRank, if_neg hno] at hrank
      split at hrank <;> omega
    · change T.rows.map Transfer.ident = (h.db.transfers.rows.map Transfer.ident).map _
      rw [hT, Table.replace, List.map_map, List.map_map]
      refine List.map_congr_left fun r' _ => ?_
      by_cases hid : r'.id = r.id <;> simp [hid, Transfer.ident, Observed.merge, Ident.bound]
  · refine Or.inr ⟨fun k hk => ?_, ?_⟩
    · rcases List.mem_map.mp hk with ⟨r, hr, rfl⟩
      exact Db.findObserved_none.mp hnone r hr
    · change T.rows.map Transfer.ident = h.db.transfers.rows.map Transfer.ident ++ _
      rw [hT, List.map_append]
      rfl

/-- No other operation touches the identifying columns. -/
theorem idents_other {q : StoreOp} {r : Except StoreError q.Res} {h h' : Host}
    (hp : q.perform h = (r, h')) (hins : ∀ t now, q ≠ .insertTransfer t now)
    (hobs : ∀ o now, q ≠ .upsertObserved o now) : h'.idents = h.idents := by
  cases q with
  | insertTransfer t now => exact absurd rfl (hins t now)
  | upsertObserved o now => exact absurd rfl (hobs o now)
  | applyTransition id src dst event now =>
      rcases Host.commit_cases hp with rfl | ⟨b, db', hok, rfl⟩
      · rfl
      rcases Db.applyTransition_ok hok with ⟨-, rfl⟩ | ⟨-, -, r, T, O, -, -, rfl, hT, -⟩
      · rfl
      · change T.rows.map Transfer.ident = h.db.transfers.rows.map Transfer.ident
        rw [hT]
        exact map_ident_replace (f := Transfer.advance dst now) (fun _ => rfl) _
  | _ =>
      have hkept := (StoreOp.frame hp).transfers (by simp [StoreOp.writes])
      rw [Host.idents, hkept, Host.idents]

/-! ## A transfer and its hook -/

/-- A hook that inserts a transfer, for one of its assets. -/
inductive Hook
  | rgbinvoice (req : InvoiceRequest) (resp : InvoiceResponse)
  | sendrgb (req : SendRequest) (resp : SendResponse) (assetId : String)

/-- The row the hook inserts. -/
def Hook.row : Hook → NewTransfer
  | rgbinvoice req resp => req.transfer resp
  | sendrgb req resp assetId => req.transfer resp assetId

def Hook.invoice : Hook → Bool
  | rgbinvoice .. => true
  | sendrgb .. => false

/-- The transfer, as the node lists it once it knows all of it, agrees with the
request and the response. -/
def Hook.Agrees (x : Observed) : Hook → Prop
  | rgbinvoice _ resp => x.recipientId = some resp.recipientId
  | sendrgb _ resp assetId => x.txid = some resp.txid ∧ x.assetId = some assetId

/-- `o` lists the transfer `x`.  The transaction and the asset that will pay an
invoice may not be known yet. -/
def Hook.Lists (hook : Hook) (x o : Observed) : Prop :=
  o.rlnIdx = x.rlnIdx ∧ o.recipientId = x.recipientId ∧
    (o.txid = x.txid ∨ hook.invoice = true ∧ o.txid = none) ∧
    (o.assetId = x.assetId ∨ hook.invoice = true ∧ o.assetId = none)

/-- Columns that do not point at the transfer `x`. -/
def Apart (x : Observed) (recipientId txid assetId : Option String) : Prop :=
  sqlEq recipientId x.recipientId = false ∧ (sqlEq txid x.txid && sqlEq assetId x.assetId) = false

/-- `o` lists another transfer, with neither the recipient nor the transaction and
asset of `x`. -/
def Foreign (x o : Observed) : Prop :=
  o.rlnIdx ≠ x.rlnIdx ∧ Apart x o.recipientId o.txid o.assetId

/-- What an event has inserted. -/
def insertedBy : Pool.Label Effects → Option NewTransfer
  | .act _ (.store (.insertTransfer t _)) (.ok _) => some t
  | _ => none

theorem insertedBy_eq_some {label : Pool.Label Effects} {t : NewTransfer} :
    insertedBy label = some t ↔
      ∃ i now row, label = .act i (.store (.insertTransfer t now)) (.ok row) := by
  constructor
  · intro hins
    unfold insertedBy at hins
    split at hins
    · cases hins
      exact ⟨_, _, _, rfl⟩
    · cases hins
  · intro ⟨i, now, row, hact⟩
    rw [hact]
    rfl

/-- What an event has mirrored. -/
def mirroredBy : Pool.Label Effects → Option Observed
  | .act _ (.store (.upsertObserved o _)) (.ok _) => some o
  | _ => none

/-- The event mirrors the transfer `x`. -/
def Sees (x : Observed) (e : Pool.Event Effects Host) : Prop :=
  ∃ o ∈ mirroredBy e.label, o.rlnIdx = x.rlnIdx

/-- Apart from listing `x`, the event is about other transfers. -/
def Respects (hook : Hook) (x : Observed) (e : Pool.Event Effects Host) : Prop :=
  (∀ t ∈ insertedBy e.label, Apart x t.recipientId t.txid t.assetId) ∧
    ∀ o ∈ mirroredBy e.label, hook.Lists x o ∨ Foreign x o

instance (hook : Hook) (x : Observed) : DecidablePred (hook.Lists x) := fun o => by
  unfold Hook.Lists; infer_instance

instance (x : Observed) : DecidablePred (Foreign x) := fun o => by
  unfold Foreign Apart; infer_instance

instance (hook : Hook) (x : Observed) : DecidablePred (Respects hook x) := fun e => by
  unfold Respects Apart; infer_instance

instance (x : Observed) : DecidablePred (Sees x) := fun e => by unfold Sees; infer_instance

/-- The transfer has one row in the mirror, and it is bound. -/
def OneRow (x : Observed) (h : Host) : Prop :=
  ∃ r ∈ h.db.transfers.rows, r.rlnIdx = some x.rlnIdx ∧
    ∀ r' ∈ h.db.transfers.rows, Db.matchesObserved x r' = true → r' = r

/-! ## The rows that concern a transfer -/

/-- The row belongs to the transfer, or has its recipient. -/
def Ident.concerns (x : Observed) (k : Ident) : Bool :=
  k.matched x || sqlEq k.recipientId x.recipientId

def concerning (x : Observed) (h : Host) : List Ident := h.idents.filter (Ident.concerns x)

theorem mem_concerning {x : Observed} {h : Host} {k : Ident} :
    k ∈ concerning x h ↔ k ∈ h.idents ∧ k.concerns x = true := List.mem_filter

theorem idents_of_db {h h' : Host} (hdb : h'.db = h.db) : h'.idents = h.idents := by
  rw [Host.idents, hdb, Host.idents]

/-- A commit that fails leaves the mirror alone. -/
theorem db_of_commit_error {α : Type} {h h' : Host} {r : Except StoreError (α × Db)}
    {e : StoreError} (hc : h.commit r = (.error e, h')) : h'.db = h.db := by
  rcases r with e' | ⟨a, db⟩
  · exact congrArg (fun x => x.2.db) hc.symm
  · cases congrArg Prod.fst hc

/-- What an event does to the mirror, as far as rows are recognised. -/
theorem idents_event {cfg : Config} {U : Op → Prop} {e : Pool.Event Effects Host}
    (he : e.Lawful (system cfg) U) :
    (mirroredBy e.label = none ∧ e.post.idents = e.pre.idents) ∨
      (∃ t now row, mirroredBy e.label = none ∧ insertedBy e.label = some t ∧
        (StoreOp.insertTransfer t now).perform e.pre = (.ok row, e.post)) ∨
      ∃ o now row, mirroredBy e.label = some o ∧
        (StoreOp.upsertObserved o now).perform e.pre = (.ok row, e.post) := by
  obtain ⟨hdb, hno⟩ | ⟨i, q, r, hlabel, -, hq⟩ := lawful_inv he
  · refine Or.inl ⟨?_, idents_of_db hdb⟩
    unfold mirroredBy
    split
    · next i o now row hlabel => exact absurd hlabel (hno i (.upsertObserved o now) row)
    · rfl
  · rw [hlabel]
    cases q with
    | insertTransfer t now =>
        cases r with
        | ok row => exact Or.inr (Or.inl ⟨t, now, row, rfl, rfl, hq⟩)
        | error err => exact Or.inl ⟨rfl, idents_of_db (db_of_commit_error (h := e.pre.draw) hq)⟩
    | upsertObserved o now =>
        cases r with
        | ok row => exact Or.inr (Or.inr ⟨o, now, row, rfl, hq⟩)
        | error err => exact Or.inl ⟨rfl, idents_of_db (db_of_commit_error (h := e.pre.draw) hq)⟩
    | _ => exact Or.inl ⟨rfl, idents_other hq (by simp) (by simp)⟩

/-- The mirror after the identifier `key` has been merged with `o`. -/
def mergeAt (key : ℕ) (o : Observed) (ks : List Ident) : List Ident :=
  ks.map fun k => if k.id = key then k.bound o else k

/-- What mirroring `o` does to the rows that concern the transfer it lists. -/
def Mirrors (x o : Observed) (ks ks' : List Ident) : Prop :=
  (∃ k ∈ ks, k.matched o = true ∧
      (∀ k' ∈ ks, k'.rlnIdx = some x.rlnIdx → k.rlnIdx = some x.rlnIdx) ∧
      (∀ k' ∈ ks, k'.id = k.id → k' = k) ∧ ks' = mergeAt k.id o ks) ∨
    ((∀ k ∈ ks, k.matched o = false) ∧ ∃ id, ks' = ks ++ [o.ident id])

section Concerning
variable {hook : Hook} {x o : Observed} {h h' : Host}

/-- A row that is merged concerns the transfer afterwards exactly if it did before. -/
theorem concerning_merge {k : Ident} (hk : k ∈ h.idents)
    (hidents : h'.idents = mergeAt k.id o h.idents)
    (hsame : (k.bound o).concerns x = k.concerns x) :
    concerning x h' = mergeAt k.id o (concerning x h) := by
  rw [concerning, hidents, mergeAt, List.filter_map, mergeAt, concerning]
  congr 1
  refine List.filter_congr fun k' hk' => ?_
  by_cases hid : k'.id = k.id
  · have heq : k' = k := ident_unique hk' hk (Or.inl hid)
    subst heq
    simpa using hsame
  · simp [hid]

theorem mergeAt_of_ne {key : ℕ} {ks : List Ident} (h : ∀ k ∈ ks, k.id ≠ key) :
    mergeAt key o ks = ks := by
  have hsame : ∀ k ∈ ks, (if k.id = key then k.bound o else k) = k := fun k hk => if_neg (h k hk)
  rw [mergeAt, List.map_congr_left hsame]
  exact List.map_id' ks

theorem concerning_append {k : Ident} (hidents : h'.idents = h.idents ++ [k]) :
    concerning x h' = concerning x h ++ if k.concerns x then [k] else [] := by
  rw [concerning, hidents, List.filter_append, concerning]
  by_cases hc : k.concerns x = true <;> simp [hc]

theorem concerns_of_lists {k : Ident} (hl : hook.Lists x o) (hm : k.matched o = true) :
    k.concerns x = true := by
  rcases hl with ⟨hidx, hrec, htxid, hasset⟩
  have hmx : k.matched x = true := by
    simp only [Ident.matched, Bool.or_eq_true, Bool.and_eq_true] at hm ⊢
    rw [hidx, hrec] at hm
    rcases hm with hm | ⟨hnone, hm | ⟨htx, has⟩⟩
    · exact Or.inl hm
    · exact Or.inr ⟨hnone, Or.inl hm⟩
    · refine Or.inr ⟨hnone, Or.inr ⟨?_, ?_⟩⟩
      · rcases htxid with htxid | ⟨-, htxid⟩
        · rwa [htxid] at htx
        · rw [htxid, sqlEq_none_right] at htx
          cases htx
      · rcases hasset with hasset | ⟨-, hasset⟩
        · rwa [hasset] at has
        · rw [hasset, sqlEq_none_right] at has
          cases has
  simp [Ident.concerns, hmx]

/-- A listing of the transfer itself. -/
theorem mirrors_of_lists {now : ℤ} {row : Transfer} (hl : hook.Lists x o)
    (hp : (StoreOp.upsertObserved o now).perform h = (.ok row, h')) :
    Mirrors x o (concerning x h) (concerning x h') := by
  rcases idents_upsertObserved hp with ⟨k, hk, hm, hmin, hidents⟩ | ⟨hno, hidents⟩
  · have hc := concerns_of_lists hl hm
    refine Or.inl ⟨k, mem_concerning.mpr ⟨hk, hc⟩, hm, fun k' hk' hidx => ?_,
      fun k' hk' hid => ?_, ?_⟩
    · rw [← hl.1] at hidx ⊢
      exact hmin k' (mem_concerning.mp hk').1 hidx
    · exact ident_unique (mem_concerning.mp hk').1 hk (Or.inl hid)
    · refine concerning_merge hk hidents ?_
      rw [hc]
      simp [Ident.concerns, Ident.matched, Ident.bound, hl.1, sqlEq]
  · refine Or.inr ⟨fun k hk => hno k (mem_concerning.mp hk).1, h.nextUuid, ?_⟩
    have hc : (o.ident h.nextUuid).concerns x = true := by
      simp [Ident.concerns, Ident.matched, Observed.ident, hl.1, sqlEq]
    rw [concerning_append hidents, if_pos hc]

/-- A listing of another transfer. -/
theorem concerning_of_foreign {now : ℤ} {row : Transfer} (hfor : Foreign x o)
    (himm : ∀ k ∈ concerning x h, k.matched o = false)
    (hp : (StoreOp.upsertObserved o now).perform h = (.ok row, h')) :
    concerning x h' = concerning x h := by
  have hidx : sqlEq (some o.rlnIdx) (some x.rlnIdx) = false := by simp [sqlEq, hfor.1]
  rcases idents_upsertObserved hp with ⟨k, hk, hm, -, hidents⟩ | ⟨-, hidents⟩
  · have hc : k.concerns x = false := by
      by_contra hne
      rw [himm k (mem_concerning.mpr ⟨hk, by simpa using hne⟩)] at hm
      cases hm
    have hrec : sqlEq k.recipientId x.recipientId = false := by
      simp only [Ident.concerns, Bool.or_eq_false_iff] at hc
      exact hc.2
    have hsame : (k.bound o).concerns x = k.concerns x := by
      rw [hc]
      simp [Ident.concerns, Ident.matched, Ident.bound, hidx, hrec]
    rw [concerning_merge hk hidents hsame]
    refine mergeAt_of_ne fun k' hk' hid => ?_
    have heq := ident_unique (mem_concerning.mp hk').1 hk (Or.inl hid)
    have hc' := (mem_concerning.mp hk').2
    rw [heq, hc] at hc'
    cases hc'
  · have hc : (o.ident h.nextUuid).concerns x = false := by
      simp [Ident.concerns, Ident.matched, Observed.ident, hidx, hfor.2.1]
    rw [concerning_append hidents, hc]
    simp

/-- The insert of another transfer. -/
theorem concerning_of_apart {t : NewTransfer} {now : ℤ} {row : Transfer}
    (hapart : Apart x t.recipientId t.txid t.assetId)
    (hp : (StoreOp.insertTransfer t now).perform h = (.ok row, h')) :
    concerning x h' = concerning x h := by
  rcases idents_insertTransfer hp with ⟨hidents, -⟩ | ⟨-, hidents⟩
  · rw [concerning, hidents, concerning]
  · have hc : (t.ident h.nextUuid).concerns x = false := by
      simp [Ident.concerns, Ident.matched, NewTransfer.ident, hapart.1, hapart.2]
    rw [concerning_append hidents, hc]
    simp

/-- What an event of a run does to the rows that concern the transfer. -/
theorem concerning_event {cfg : Config} {U : Op → Prop} {e : Pool.Event Effects Host}
    (he : e.Lawful (system cfg) U) (hr : Respects hook x e)
    (himm : ∀ o, Foreign x o → ∀ k ∈ concerning x e.pre, k.matched o = false) :
    (¬ Sees x e ∧ concerning x e.post = concerning x e.pre) ∨
      (Sees x e ∧ ∃ o, hook.Lists x o ∧
        Mirrors x o (concerning x e.pre) (concerning x e.post)) := by
  have hunseen : mirroredBy e.label = none → ¬ Sees x e := by
    rintro hnone ⟨o, ho, -⟩
    rw [hnone] at ho
    cases ho
  rcases idents_event he with ⟨hnone, hsame⟩ | ⟨t, now, row, hnone, ht, hp⟩ | ⟨o, now, row, ho, hp⟩
  · exact Or.inl ⟨hunseen hnone, by rw [concerning, hsame, concerning]⟩
  · exact Or.inl ⟨hunseen hnone, concerning_of_apart (hr.1 t ht) hp⟩
  · rcases hr.2 o ho with hl | hfor
    · exact Or.inr ⟨⟨o, ho, hl.1⟩, o, hl, mirrors_of_lists hl hp⟩
    · refine Or.inl ⟨?_, concerning_of_foreign hfor (himm o hfor) hp⟩
      rintro ⟨o', ho', hidx⟩
      rw [ho] at ho'
      cases ho'
      exact hfor.1 hidx

end Concerning

/-! ## The stages of a transfer -/

/-- A sync has been first: the row is bound and has the recipient. -/
def Born (x : Observed) (ks : List Ident) : Prop :=
  ∃ k, ks = [k] ∧ k.rlnIdx = some x.rlnIdx ∧ k.recipientId = x.recipientId

/-- The transfer has one row, and it is bound. -/
def Held (x : Observed) (ks : List Ident) : Prop := ∃ k, ks = [k] ∧ k.rlnIdx = some x.rlnIdx

/-- The hook has inserted the row, and no sync has seen the transfer. -/
def Loose (hook : Hook) (ks : List Ident) : Prop := ∃ id, ks = [hook.row.ident id]

/-- A bound row, and the hook's besides. -/
def Split (hook : Hook) (x : Observed) (ks : List Ident) : Prop :=
  ∃ k id, ks = [k, hook.row.ident id] ∧ k.rlnIdx = some x.rlnIdx

section Stages
variable {hook : Hook} {x o : Observed} {ks ks' : List Ident}

theorem matched_of_bound {k : Ident} (hk : k.rlnIdx = some o.rlnIdx) : k.matched o = true := by
  simp [Ident.matched, hk, sqlEq]

/-- The hook's row is found by the listings of its transfer. -/
theorem matched_row (ha : hook.Agrees x) (hl : hook.Lists x o) (id : ℕ) :
    (hook.row.ident id).matched o = true := by
  rcases hl with ⟨-, hrec, htxid, hasset⟩
  cases hook with
  | rgbinvoice req resp =>
      have hr : o.recipientId = some resp.recipientId := hrec.trans ha
      simp [Ident.matched, NewTransfer.ident, Hook.row, InvoiceRequest.transfer, hr, sqlEq]
  | sendrgb req resp assetId =>
      have ht : o.txid = some resp.txid := by
        rcases htxid with h | ⟨h, -⟩
        · exact h.trans ha.1
        · cases h
      have has : o.assetId = some assetId := by
        rcases hasset with h | ⟨h, -⟩
        · exact h.trans ha.2
        · cases h
      simp [Ident.matched, NewTransfer.ident, Hook.row, SendRequest.transfer, ht, has, sqlEq]

/-- The rows of the transfer are not taken for those of another. -/
theorem immune_of_bound (hfor : Foreign x o) {k : Ident} (hk : k.rlnIdx = some x.rlnIdx) :
    k.matched o = false := by
  simp [Ident.matched, hk, sqlEq, Ne.symm hfor.1]

theorem immune_row (ha : hook.Agrees x) (hfor : Foreign x o) (id : ℕ) :
    (hook.row.ident id).matched o = false := by
  rcases hfor with ⟨-, hrec, htx⟩
  cases hook with
  | rgbinvoice req resp =>
      have hx : x.recipientId = some resp.recipientId := ha
      rw [hx, sqlEq_comm] at hrec
      simp [Ident.matched, NewTransfer.ident, Hook.row, InvoiceRequest.transfer, hrec]
  | sendrgb req resp assetId =>
      rw [ha.1, ha.2, sqlEq_comm, sqlEq_comm (x := o.assetId)] at htx
      simp only [Ident.matched, NewTransfer.ident, Hook.row, SendRequest.transfer,
        sqlEq_none_left, htx]
      rfl

theorem born_of_nil (hl : hook.Lists x o) (hm : Mirrors x o [] ks') : Born x ks' := by
  rcases hm with ⟨k, hk, -⟩ | ⟨-, id, rfl⟩
  · cases hk
  · exact ⟨o.ident id, rfl, congrArg some hl.1, hl.2.1⟩

/-- A row that is matched, and alone, is the one that is merged. -/
theorem merged_of_single {k : Ident} (hk : k.matched o = true) (hm : Mirrors x o [k] ks') :
    ks' = [k.bound o] := by
  rcases hm with ⟨k', hk', -, -, -, rfl⟩ | ⟨hno, -⟩
  · rw [List.mem_singleton.mp hk']
    simp [mergeAt]
  · rw [hno k (List.mem_singleton_self k)] at hk
    cases hk

theorem Born.mirrors (hl : hook.Lists x o) (hs : Born x ks) (hm : Mirrors x o ks ks') :
    Born x ks' := by
  rcases hs with ⟨k, rfl, hidx, hrec⟩
  rw [← hl.1] at hidx
  exact ⟨k.bound o, merged_of_single (matched_of_bound hidx) hm, congrArg some hl.1, hrec⟩

theorem Held.mirrors (hl : hook.Lists x o) (hs : Held x ks) (hm : Mirrors x o ks ks') :
    Held x ks' := by
  rcases hs with ⟨k, rfl, hidx⟩
  rw [← hl.1] at hidx
  exact ⟨k.bound o, merged_of_single (matched_of_bound hidx) hm, congrArg some hl.1⟩

theorem Loose.mirrors (ha : hook.Agrees x) (hl : hook.Lists x o) (hs : Loose hook ks)
    (hm : Mirrors x o ks ks') : Held x ks' := by
  rcases hs with ⟨id, rfl⟩
  exact ⟨_, merged_of_single (matched_row ha hl id) hm, congrArg some hl.1⟩

/-- Of two rows the bound one is merged, and the other stays as it is. -/
theorem Split.mirrors (hl : hook.Lists x o) (hs : Split hook x ks) (hm : Mirrors x o ks ks') :
    Split hook x ks' := by
  rcases hs with ⟨k, id, rfl, hidx⟩
  have hrow : (hook.row.ident id).rlnIdx = none := rfl
  rcases hm with ⟨k', hk', -, hmin, huniq, rfl⟩ | ⟨hno, -⟩
  · have hidx' := hmin k (List.mem_cons_self ..) hidx
    rcases List.mem_pair.mp hk' with rfl | rfl
    · have hne : (hook.row.ident id).id ≠ k'.id := fun hid => by
        have heq := huniq _ (List.mem_pair.mpr (Or.inr rfl)) hid
        rw [← heq, hrow] at hidx
        cases hidx
      refine ⟨k'.bound o, id, ?_, congrArg some hl.1⟩
      simp [mergeAt, hne]
    · rw [hrow] at hidx'
      cases hidx'
  · rw [← hl.1] at hidx
    have hm := matched_of_bound hidx
    rw [hno k (List.mem_cons_self ..)] at hm
    cases hm

/-! ### The insert of the hook -/

variable {h h' : Host} {now : ℤ} {row : Transfer}

/-- Nothing concerns the transfer: the hook's row is new. -/
theorem loose_of_insert (ha : hook.Agrees x) (hnone : concerning x h = [])
    (hp : (StoreOp.insertTransfer hook.row now).perform h = (.ok row, h')) :
    Loose hook (concerning x h') := by
  have hfull : hook.Lists x x := ⟨rfl, rfl, Or.inl rfl, Or.inl rfl⟩
  rcases idents_insertTransfer hp with ⟨-, k, hk, hrec⟩ | ⟨-, hidents⟩
  · -- a row with the hook's recipient would concern the transfer
    have hc : k.concerns x = true := by
      cases hook with
      | rgbinvoice req resp =>
          have hx : x.recipientId = some resp.recipientId := ha
          have hrec' : sqlEq k.recipientId (some resp.recipientId) = true := hrec
          simp [Ident.concerns, hx, hrec']
      | sendrgb req resp assetId =>
          have hrec' : sqlEq k.recipientId none = true := hrec
          simp at hrec'
    have hmem := mem_concerning.mpr ⟨hk, hc⟩
    rw [hnone] at hmem
    cases hmem
  · have hc := concerns_of_lists hfull (matched_row ha hfull h.nextUuid)
    refine ⟨h.nextUuid, ?_⟩
    rw [concerning_append hidents, hnone, if_pos hc]
    rfl

/-- A sync has been first: an invoice is merged, a send gets a second row. -/
theorem insert_of_born (ha : hook.Agrees x) (hborn : Born x (concerning x h))
    (hp : (StoreOp.insertTransfer hook.row now).perform h = (.ok row, h')) :
    if hook.invoice then Held x (concerning x h') else Split hook x (concerning x h') := by
  rcases hborn with ⟨k, hks, hidx, hrecx⟩
  have hkmem : k ∈ h.idents := by
    have hmem : k ∈ concerning x h := by rw [hks]; exact List.mem_singleton_self k
    exact (mem_concerning.mp hmem).1
  cases hook with
  | rgbinvoice req resp =>
      have hx : x.recipientId = some resp.recipientId := ha
      simp only [Hook.invoice, if_true]
      rcases idents_insertTransfer hp with ⟨hidents, -⟩ | ⟨hno, -⟩
      · rw [concerning, hidents]
        exact ⟨k, hks, hidx⟩
      · have hrec := hno k hkmem
        simp [hrecx, hx, Hook.row, InvoiceRequest.transfer, sqlEq] at hrec
  | sendrgb req resp assetId =>
      have hfull : Hook.Lists (.sendrgb req resp assetId) x x := ⟨rfl, rfl, Or.inl rfl, Or.inl rfl⟩
      simp only [Hook.invoice, Bool.false_eq_true, if_false]
      rcases idents_insertTransfer hp with ⟨-, k', -, hrec⟩ | ⟨-, hidents⟩
      · have hrec' : sqlEq k'.recipientId none = true := hrec
        simp at hrec'
      · have hc := concerns_of_lists hfull (matched_row ha hfull h.nextUuid)
        refine ⟨k, h.nextUuid, ?_, hidx⟩
        rw [concerning_append hidents, hks, if_pos hc]
        rfl

/-! ### What the stages say of the rows -/

theorem oneRow_of_held (hs : Held x (concerning x h)) : OneRow x h := by
  rcases hs with ⟨k, hks, hidx⟩
  have hmem : k ∈ concerning x h := by rw [hks]; exact List.mem_singleton_self k
  rcases List.mem_map.mp (mem_concerning.mp hmem).1 with ⟨r, hr, rfl⟩
  refine ⟨r, hr, hidx, fun r' hr' hm => ?_⟩
  have hc : r'.ident.concerns x = true := by simp [Ident.concerns, matched_ident, hm]
  have hmem' : r'.ident ∈ concerning x h := mem_concerning.mpr ⟨List.mem_map_of_mem hr', hc⟩
  rw [hks] at hmem'
  have hid : r'.id = r.id := congrArg Ident.id (List.mem_singleton.mp hmem')
  exact h.db.transfers.eq_of_clash hr' hr (Transfer.clash_of_id hid)

/-- An unbound row of the transfer is one too many. -/
theorem not_oneRow (ha : hook.Agrees x) {id : ℕ} (hmem : hook.row.ident id ∈ concerning x h) :
    ¬ OneRow x h := by
  rintro ⟨r, hr, hidx, huniq⟩
  have hfull : hook.Lists x x := ⟨rfl, rfl, Or.inl rfl, Or.inl rfl⟩
  rcases List.mem_map.mp (mem_concerning.mp hmem).1 with ⟨r', hr', hid⟩
  have hm : Db.matchesObserved x r' = true := by
    rw [← matched_ident, hid]
    exact matched_row ha hfull id
  have heq := huniq r' hr' hm
  have hnone : r'.rlnIdx = none := congrArg Ident.rlnIdx hid
  rw [heq, hidx] at hnone
  cases hnone

end Stages

/-! ## Runs -/

section Runs
variable {cfg : Config} {hook : Hook} {x : Observed} {hist : List (Pool.Event Effects Host)}
  {c₀ c : Pool.Config Effects Host} {U : Op → Prop} {S S' : List Ident → Prop}

/-- The stages along a run: the first until the transfer is seen, the second from
then on. -/
theorem stage_run (run : (system cfg).Run c₀ hist c)
    (hlaw : ∀ e ∈ hist, e.Lawful (system cfg) U) (hresp : ∀ e ∈ hist, Respects hook x e)
    (himm : ∀ o ks, Foreign x o → S ks ∨ S' ks → ∀ k ∈ ks, k.matched o = false)
    (hfirst : ∀ o ks ks', hook.Lists x o → S ks → Mirrors x o ks ks' → S' ks')
    (hmore : ∀ o ks ks', hook.Lists x o → S' ks → Mirrors x o ks ks' → S' ks')
    (h₀ : S (concerning x c₀.shared)) :
    ((∀ e ∈ hist, ¬ Sees x e) ∧ S (concerning x c.shared)) ∨
      ((∃ e ∈ hist, Sees x e) ∧ S' (concerning x c.shared)) := by
  refine run.induct (fun past h => ((∀ e ∈ past, ¬ Sees x e) ∧ S (concerning x h)) ∨
    ((∃ e ∈ past, Sees x e) ∧ S' (concerning x h))) (Or.inl ⟨by simp, h₀⟩) ?_
  intro past e he hpast
  have hstage : S (concerning x e.pre) ∨ S' (concerning x e.pre) := hpast.imp And.right And.right
  rcases concerning_event (hlaw e he) (hresp e he) fun o hfor => himm o _ hfor hstage with
    ⟨hunseen, hsame⟩ | ⟨hsees, o, hl, hm⟩
  · rw [hsame]
    rcases hpast with ⟨hno, hs⟩ | ⟨⟨e', he', hsees⟩, hs⟩
    · refine Or.inl ⟨fun e' he' => ?_, hs⟩
      rcases List.mem_append.mp he' with he' | he'
      · exact hno e' he'
      · rw [List.mem_singleton.mp he']
        exact hunseen
    · exact Or.inr ⟨⟨e', List.mem_append_left _ he', hsees⟩, hs⟩
  · refine Or.inr ⟨⟨e, List.mem_append_right _ (List.mem_singleton_self e), hsees⟩, ?_⟩
    rcases hpast with ⟨-, hs⟩ | ⟨-, hs⟩
    · exact hfirst o _ _ hl hs hm
    · exact hmore o _ _ hl hs hm

/-- Before the hook: nothing, or the row a sync has inserted. -/
theorem born_run (run : (system cfg).Run c₀ hist c)
    (hlaw : ∀ e ∈ hist, e.Lawful (system cfg) U) (hresp : ∀ e ∈ hist, Respects hook x e)
    (h₀ : concerning x c₀.shared = []) :
    ((∀ e ∈ hist, ¬ Sees x e) ∧ concerning x c.shared = []) ∨
      ((∃ e ∈ hist, Sees x e) ∧ Born x (concerning x c.shared)) := by
  refine stage_run (S := fun ks => ks = []) run hlaw hresp ?_ ?_ ?_ h₀
  · rintro o ks hfor (rfl | ⟨k, rfl, hidx, -⟩) k' hk'
    · cases hk'
    · rw [List.mem_singleton.mp hk']
      exact immune_of_bound hfor hidx
  · rintro o ks ks' hl rfl hm
    exact born_of_nil hl hm
  · intro o ks ks' hl hs hm
    exact hs.mirrors hl hm

/-- After the hook: its row, until a sync binds it. -/
theorem loose_run (ha : hook.Agrees x) (run : (system cfg).Run c₀ hist c)
    (hlaw : ∀ e ∈ hist, e.Lawful (system cfg) U) (hresp : ∀ e ∈ hist, Respects hook x e)
    (h₀ : Loose hook (concerning x c₀.shared)) :
    ((∀ e ∈ hist, ¬ Sees x e) ∧ Loose hook (concerning x c.shared)) ∨
      ((∃ e ∈ hist, Sees x e) ∧ Held x (concerning x c.shared)) := by
  refine stage_run run hlaw hresp ?_ ?_ ?_ h₀
  · rintro o ks hfor (⟨id, rfl⟩ | ⟨k, rfl, hidx⟩) k' hk'
    · rw [List.mem_singleton.mp hk']
      exact immune_row ha hfor id
    · rw [List.mem_singleton.mp hk']
      exact immune_of_bound hfor hidx
  · intro o ks ks' hl hs hm
    exact hs.mirrors ha hl hm
  · intro o ks ks' hl hs hm
    exact hs.mirrors hl hm

/-- One bound row stays one bound row. -/
theorem held_run (run : (system cfg).Run c₀ hist c)
    (hlaw : ∀ e ∈ hist, e.Lawful (system cfg) U) (hresp : ∀ e ∈ hist, Respects hook x e)
    (h₀ : Held x (concerning x c₀.shared)) : Held x (concerning x c.shared) := by
  refine (stage_run run hlaw hresp ?_ ?_ ?_ h₀).elim And.right And.right
  · intro o ks hfor hs k' hk'
    rcases hs.elim id id with ⟨k, rfl, hidx⟩
    rw [List.mem_singleton.mp hk']
    exact immune_of_bound hfor hidx
  all_goals
    intro o ks ks' hl hs hm
    exact hs.mirrors hl hm

/-- Two rows stay two rows. -/
theorem split_run (ha : hook.Agrees x) (run : (system cfg).Run c₀ hist c)
    (hlaw : ∀ e ∈ hist, e.Lawful (system cfg) U) (hresp : ∀ e ∈ hist, Respects hook x e)
    (h₀ : Split hook x (concerning x c₀.shared)) : Split hook x (concerning x c.shared) := by
  refine (stage_run run hlaw hresp ?_ ?_ ?_ h₀).elim And.right And.right
  · intro o ks hfor hs k' hk'
    rcases hs.elim id id with ⟨k, id, rfl, hidx⟩
    rcases List.mem_pair.mp hk' with rfl | rfl
    · exact immune_of_bound hfor hidx
    · exact immune_row ha hfor id
  all_goals
    intro o ks ks' hl hs hm
    exact hs.mirrors hl hm

/-- A store operation of a step that reports success has been performed. -/
theorem performed {c₁ c₂ : Pool.Config Effects Host} {i : ℕ} {q : StoreOp} {r : q.Res}
    (hs : Pool.Step (system cfg) c₁ (.act i (.store q) (.ok r)) c₂) :
    q.perform c₁.shared = (.ok r, c₂.shared) := by
  cases hs with
  | act w _ hp =>
    rcases perform_store hp with ⟨herr, -⟩ | hq
    · cases herr
    · exact hq

/-- **One transfer, one row.**  Whatever other tasks do about other transfers, and
however often the transfer is listed, it ends with one row, bound to its index,
exactly when it is an invoice or its hook comes before every sync that lists it. -/
theorem one_row_iff (ha : hook.Agrees x) {before after : List (Pool.Event Effects Host)}
    {c₁ c₂ : Pool.Config Effects Host} {i : ℕ} {now : ℤ} {row : Transfer}
    (run₁ : (system cfg).Run initial before c₁)
    (insert : Pool.Step (system cfg) c₁
      (.act i (.store (.insertTransfer hook.row now)) (.ok row)) c₂)
    (run₂ : (system cfg).Run c₂ after c)
    (hresp : ∀ e ∈ before ++ after, Respects hook x e) (hseen : ∃ e ∈ before ++ after, Sees x e) :
    OneRow x c.shared ↔ hook.invoice = true ∨ ∀ e ∈ before, ¬ Sees x e := by
  have hlaw₁ := lawful_of_run run₁
  have hlaw := lawful_of_run ((run₁.append (.single insert)).append run₂)
  have hlaw₂ := fun e he => hlaw e (List.mem_append_right _ he)
  have hresp₁ := fun e he => hresp e (List.mem_append_left after he)
  have hresp₂ := fun e he => hresp e (List.mem_append_right before he)
  have hp := performed insert
  rcases born_run run₁ hlaw₁ hresp₁ rfl with ⟨hunseen, hnone⟩ | ⟨hsees, hborn⟩
  · -- the hook is first
    refine iff_of_true ?_ (Or.inr hunseen)
    have hloose := loose_of_insert ha hnone hp
    rcases loose_run ha run₂ hlaw₂ hresp₂ hloose with ⟨hunseen₂, -⟩ | ⟨-, hheld⟩
    · rcases hseen with ⟨e, he, hsees⟩
      rcases List.mem_append.mp he with he | he
      · exact absurd hsees (hunseen e he)
      · exact absurd hsees (hunseen₂ e he)
    · exact oneRow_of_held hheld
  · -- a sync is first
    have hins := insert_of_born ha hborn hp
    cases hinv : hook.invoice with
    | true =>
        rw [if_pos hinv] at hins
        have hheld := held_run run₂ hlaw₂ hresp₂ hins
        exact iff_of_true (oneRow_of_held hheld) (Or.inl rfl)
    | false =>
        rw [if_neg (by simp [hinv])] at hins
        rcases split_run ha run₂ hlaw₂ hresp₂ hins with ⟨k, id, hks, -⟩
        have hrow : hook.row.ident id ∈ concerning x c.shared := by rw [hks]; simp
        refine iff_of_false (not_oneRow ha hrow) ?_
        rintro (h | hunseen)
        · cases h
        · rcases hsees with ⟨e, he, hsees⟩
          exact hunseen e he hsees

end Runs

/-! ## A sync in the middle of a hook -/

/-- The node answers the request, a sync lists the transfer, and the hook is about to
insert its row. -/
def overtaken (cfg : Config) (p : Proc Effects Unit) (answer listed : World) :
    List (Pool.Move (system cfg)) :=
  [.start p, .act 0 answer, .start (assetSync cfg ["A"]), .act 1 listed, .act 1 listed,
    .act 1 listed, .act 1 listed, .act 1 listed, .act 0 answer]

theorem overtaken_admitted {cfg : Config} {p : Proc Effects Unit} (hp : Task cfg p)
    (answer listed : World) : Pool.Admitted (overtaken cfg p answer listed) := by
  simp only [overtaken, Pool.Admitted, Pool.Move.Admitted, true_and, and_true]
  exact ⟨hp, .assetSync _⟩

def paidInvoice : Observed :=
  ⟨7, some "A", "ReceiveBlind", .waitingCounterparty, some "r", none, none⟩

def invoiceHook : Hook := .rgbinvoice ⟨some "A", false⟩ ⟨"r", "invoice", none, 7⟩

theorem invoice_overtaken_plays :
    ((system ⟨⟨none⟩, {}, {}, {}⟩).play (overtaken _ (rgbinvoice (some ⟨some "A", false⟩))
      (.of (.answering .rgbinvoice ⟨"r", "invoice", none, 7⟩))
      (.of (.listing (.listTransfers "A" 100)
        [⟨7, .waitingCounterparty, "ReceiveBlind", some "r", none, none⟩]))) initial).isSome := rfl

/-- A sync mirrors the transfer of an invoice before the hook inserts it: one row. -/
theorem one_row_invoice :
    ∃ hist c, (system ⟨⟨none⟩, {}, {}, {}⟩).Run initial hist c ∧ OneRow paidInvoice c.shared := by
  have run := Pool.run_of_isSome (overtaken_admitted (.rgbinvoice _) _ _) invoice_overtaken_plays
  have insert : Pool.Step (system ⟨⟨none⟩, {}, {}, {}⟩)
      (Option.get _ invoice_overtaken_plays).1
      (.act 0 (.store (.insertTransfer invoiceHook.row 0)) (.ok _)) _ :=
    Pool.step_of_move (m := .act 0 (World.of .silent)) trivial rfl
  have agrees : invoiceHook.Agrees paidInvoice := rfl
  refine ⟨_, _, run.append (.single insert), ?_⟩
  exact (one_row_iff agrees run insert .nil (by decide +kernel) (by decide +kernel)).mpr
    (Or.inl rfl)

def sentTransfer : Observed :=
  ⟨7, some "A", "Send", .waitingCounterparty, some "r", some "tx", none⟩

def sendHook : Hook := .sendrgb ⟨false, none, ["A"]⟩ ⟨"tx"⟩ "A"

theorem send_overtaken_plays :
    ((system ⟨⟨none⟩, {}, {}, {}⟩).play (overtaken _ (sendrgb (some ⟨false, none, ["A"]⟩))
      (.of (.answering .sendrgb ⟨"tx"⟩))
      (.of (.listing (.listTransfers "A" 100)
        [⟨7, .waitingCounterparty, "Send", some "r", some "tx", none⟩]))) initial).isSome := rfl

/-- A sync mirrors a send before its hook inserts it: the hook's row is a second one,
waiting, and never bound. -/
theorem two_rows_send :
    ∃ before c₁ c₂ row, (system ⟨⟨none⟩, {}, {}, {}⟩).Run initial before c₁ ∧
      Pool.Step (system ⟨⟨none⟩, {}, {}, {}⟩) c₁
        (.act 0 (.store (.insertTransfer sendHook.row 0)) (.ok row)) c₂ ∧
      sendHook.Agrees sentTransfer ∧ (∀ e ∈ before, Respects sendHook sentTransfer e) ∧
      (∃ e ∈ before, Sees sentTransfer e) ∧
      c₂.shared.db.transfers.rows.map (fun r => (r.rlnIdx, r.txid, r.status)) =
        [(some 7, some "tx", .waitingCounterparty), (none, some "tx", .waitingCounterparty)] ∧
      ¬ OneRow sentTransfer c₂.shared := by
  have run := Pool.run_of_isSome (overtaken_admitted (.sendrgb _) _ _) send_overtaken_plays
  have insert : Pool.Step (system ⟨⟨none⟩, {}, {}, {}⟩)
      (Option.get _ send_overtaken_plays).1
      (.act 0 (.store (.insertTransfer sendHook.row 0)) (.ok _)) _ :=
    Pool.step_of_move (m := .act 0 (World.of .silent)) trivial rfl
  have agrees : sendHook.Agrees sentTransfer := ⟨rfl, rfl⟩
  refine ⟨_, _, _, _, run, insert, agrees, by decide +kernel, by decide +kernel, rfl, ?_⟩
  exact not_oneRow agrees
    (by decide +kernel : sendHook.row.ident 1 ∈ concerning sentTransfer _)

end Companion
