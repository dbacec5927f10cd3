import Companion.Runs.Binding

/-!
# Whose row it is

A hook's row waits, unbound, for the transfer it was created for.  An observation takes
the row with its recipient, or else one with its transaction and asset, and does not
look at the kind.  When the node pays one of its own invoices, the send and the receive
share all three, and each can take the row of the other.

## Main definitions

* `Hook.Owns` — the transfers a hook's row is for.
* `CreatedBy` — the row was created by the hook.
* `Db.Unmixed` — no row waits where a transfer of the other kind would take it.
* `binds_own_iff` — a hook's row is bound to its own transfer exactly then.
-/

set_option autoImplicit false

namespace Companion
open Lib

/-! ## Rows and their transfers -/

/-- The node lists the transfer as a receive. -/
def Observed.Receives (o : Observed) : Prop := o.kind = "ReceiveBlind" ∨ o.kind = "ReceiveWitness"

/-- The row of the hook is for the listed transfer. -/
def Hook.Owns (o : Observed) : Hook → Prop
  | rgbinvoice _ resp => o.Receives ∧ o.recipientId = some resp.recipientId
  | sendrgb _ resp assetId => o.kind = "Send" ∧ o.txid = some resp.txid ∧ o.assetId = some assetId

/-- In this history, the row `id` was created by the hook. -/
def CreatedBy (hook : Hook) (id : ℕ) (hist : List (Pool.Event Effects Host)) : Prop :=
  ∃ e ∈ hist, ∃ i now row, e.label = .act i (.store (.insertTransfer hook.row now)) (.ok row) ∧
    row.id = id ∧ e.pre.db.transfer? id = none

/-- An unbound row has the recipient of the listed transfer. -/
def Db.WaitsByRecipient (db : Db) (o : Observed) : Prop :=
  ∃ r ∈ db.transfers.rows, r.rlnIdx = none ∧ sqlEq r.recipientId o.recipientId = true

/-- An unbound row has the transaction and the asset of the listed transfer. -/
def Db.WaitsByTxid (db : Db) (o : Observed) : Prop :=
  ∃ r ∈ db.transfers.rows, r.rlnIdx = none ∧
    (sqlEq r.txid o.txid && sqlEq r.assetId o.assetId) = true

/-- No row waits under the recipient of a transfer that is not a receive, and none under
the transaction and asset of one that is not a send, unless its recipient comes first. -/
def Db.Unmixed (db : Db) (o : Observed) : Prop :=
  (¬ o.Receives → ¬ db.WaitsByRecipient o) ∧
    (o.kind ≠ "Send" → db.WaitsByTxid o → db.WaitsByRecipient o)

/-! ## What a row keeps until it is bound -/

section Runs
open Pool
variable {cfg : Config} {hist : List (Event Effects Host)} {c : Pool.Config Effects Host}

/-- A row with this identifier is bound, or is as the hook inserted it. -/
def KeptFor (hook : Hook) (id : ℕ) (ks : List Ident) : Prop :=
  ∃ k ∈ ks, k.id = id ∧ (k.rlnIdx = none → k = hook.row.ident id)

theorem KeptFor.append {hook : Hook} {id : ℕ} {ks : List Ident} (h : KeptFor hook id ks)
    (ks' : List Ident) : KeptFor hook id (ks ++ ks') := by
  obtain ⟨k, hk, hid, hkept⟩ := h
  exact ⟨k, List.mem_append_left _ hk, hid, hkept⟩

theorem KeptFor.merge {hook : Hook} {id : ℕ} {ks : List Ident} (h : KeptFor hook id ks)
    (key : ℕ) (o : Observed) :
    KeptFor hook id (ks.map fun k => if k.id = key then k.bound o else k) := by
  obtain ⟨k, hk, hid, hkept⟩ := h
  refine ⟨_, List.mem_map_of_mem hk, ?_, ?_⟩
  · split <;> exact hid
  · split
    · intro hnone
      simp [Ident.bound] at hnone
    · exact hkept

/-- No event takes a hook's row away. -/
theorem keptFor_event {hook : Hook} {id : ℕ} {U : Op → Prop} {e : Event Effects Host}
    (he : e.Lawful (system cfg) U) (h : KeptFor hook id e.pre.idents) :
    KeptFor hook id e.post.idents := by
  rcases idents_event he with ⟨-, hsame⟩ | ⟨t, now, row, -, -, hp⟩ | ⟨o, now, row, -, hp⟩
  · rw [hsame]
    exact h
  · rcases idents_insertTransfer hp with ⟨hsame, -⟩ | ⟨-, happend⟩
    · rw [hsame]
      exact h
    · rw [happend]
      exact h.append _
  · rcases idents_upsertObserved hp with ⟨k, -, -, -, hmerge⟩ | ⟨-, happend⟩
    · rw [hmerge]
      exact h.merge k.id o
    · rw [happend]
      exact h.append _

/-- A row that an insert creates is as the hook gave it. -/
theorem keptFor_insert {hook : Hook} {now : ℤ} {h h' : Host} {row : Transfer}
    (hp : (StoreOp.insertTransfer hook.row now).perform h = (.ok row, h'))
    (hnew : h.db.transfer? row.id = none) : KeptFor hook row.id h'.idents := by
  obtain ⟨db', hok, rfl⟩ := Host.commit_ok hp
  rcases Db.insertTransfer_ok hok with ⟨T, rfl, ⟨r, hr, -, -, rfl⟩ | ⟨-, hT, rfl⟩⟩
  · have hget := Db.transfer?_eq_some.mpr ⟨hr, rfl⟩
    have hid : (hook.row.merge now r).id = r.id := rfl
    rw [hid, hget] at hnew
    cases hnew
  · refine ⟨hook.row.ident h.nextUuid, ?_, rfl, fun _ => rfl⟩
    have hmem : hook.row.row h.nextUuid now ∈ T.rows := by simp [hT]
    exact List.mem_map_of_mem hmem

/-- What a hook has created is there, bound or as the hook gave it. -/
theorem keptFor_of_run (run : (system cfg).Run initial hist c) {hook : Hook} {id : ℕ}
    (hcreated : CreatedBy hook id hist) : KeptFor hook id c.shared.idents := by
  refine run.induct (fun past h => CreatedBy hook id past → KeptFor hook id h.idents) ?_ ?_ hcreated
  · intro ⟨e, he, _⟩
    cases he
  · intro past e he ih ⟨e₀, hmem, i, now, row, hact, hid, hnew⟩
    rcases List.mem_append.mp hmem with hmem | hmem
    · exact keptFor_event (lawful_of_run run e he) (ih ⟨e₀, hmem, i, now, row, hact, hid, hnew⟩)
    · rw [List.mem_singleton.mp hmem] at hact hnew
      subst hid
      exact keptFor_insert (performed_of_run run he hact) hnew

end Runs

/-! ## The match -/

section Match
variable {db : Db} {o : Observed} {r : Transfer}

/-- An unbound row that is taken shares the recipient, or the transaction and asset. -/
theorem shares_of_matches (hm : Db.matchesObserved o r = true) (hfree : r.rlnIdx = none) :
    sqlEq r.recipientId o.recipientId = true ∨
      (sqlEq r.txid o.txid && sqlEq r.assetId o.assetId) = true := by
  simpa [Db.matchesObserved, hfree] using hm

/-- A row with the recipient comes before a row without it. -/
theorem not_waits_of_found (hf : db.findObserved o = some r) (hfree : r.rlnIdx = none)
    (hrec : sqlEq r.recipientId o.recipientId = false) : ¬ db.WaitsByRecipient o := by
  intro ⟨r', hr', hfree', hrec'⟩
  have hmatch : Db.matchesObserved o r' = true := by simp [Db.matchesObserved, hfree', hrec']
  have hrank := (Db.findObserved_some hf).2.2 r' hr' hmatch
  have hfirst : Db.matchRank o r' = 1 := by simp [Db.matchRank, hfree', hrec']
  have hsecond : Db.matchRank o r = 2 := by simp [Db.matchRank, hfree, hrec]
  omega

/-- The row of an invoice is taken by its recipient, so rightly unless by no receive. -/
theorem owns_invoice_iff {req : InvoiceRequest} {resp : InvoiceResponse}
    (hf : db.findObserved o = some r)
    (hident : r.ident = (req.transfer resp).ident r.id) :
    (Hook.rgbinvoice req resp).Owns o ↔ db.Unmixed o := by
  obtain ⟨hr, hmatch, -⟩ := Db.findObserved_some hf
  have hfree : r.rlnIdx = none := congrArg Ident.rlnIdx hident
  have hrid : r.recipientId = some resp.recipientId := congrArg Ident.recipientId hident
  have htx : r.txid = none := congrArg Ident.txid hident
  have hrec : sqlEq r.recipientId o.recipientId = true := by
    simpa [htx] using shares_of_matches hmatch hfree
  have hwaits : db.WaitsByRecipient o := ⟨r, hr, hfree, hrec⟩
  have howned : o.recipientId = some resp.recipientId := by
    obtain ⟨rid, hrow, hobs⟩ := sqlEq_iff.mp hrec
    rw [hobs, ← hrow, hrid]
  constructor
  · intro ⟨hreceives, _⟩
    exact ⟨fun hno => absurd hreceives hno, fun _ _ => hwaits⟩
  · intro ⟨hreceives, _⟩
    exact ⟨not_not.mp fun hno => hreceives hno hwaits, howned⟩

/-- The row of a send is taken by its transaction and asset, so rightly unless by no
send. -/
theorem owns_send_iff {req : SendRequest} {resp : SendResponse} {assetId : String}
    (hf : db.findObserved o = some r)
    (hident : r.ident = (req.transfer resp assetId).ident r.id) :
    (Hook.sendrgb req resp assetId).Owns o ↔ db.Unmixed o := by
  obtain ⟨hr, hmatch, -⟩ := Db.findObserved_some hf
  have hfree : r.rlnIdx = none := congrArg Ident.rlnIdx hident
  have hrid : r.recipientId = none := congrArg Ident.recipientId hident
  have htx : r.txid = some resp.txid := congrArg Ident.txid hident
  have hasset : r.assetId = some assetId := congrArg Ident.assetId hident
  have hshared : (sqlEq r.txid o.txid && sqlEq r.assetId o.assetId) = true := by
    simpa [hrid] using shares_of_matches hmatch hfree
  have hnone : ¬ db.WaitsByRecipient o := not_waits_of_found hf hfree (by simp [hrid])
  have howned : o.txid = some resp.txid ∧ o.assetId = some assetId := by
    obtain ⟨htxid, hassetId⟩ := Bool.and_eq_true_iff.mp hshared
    obtain ⟨tx, hrow, hobs⟩ := sqlEq_iff.mp htxid
    obtain ⟨asset, hrow', hobs'⟩ := sqlEq_iff.mp hassetId
    rw [hobs, hobs', ← hrow, ← hrow', htx, hasset]
    exact ⟨rfl, rfl⟩
  constructor
  · intro ⟨hsend, _⟩
    exact ⟨fun _ => hnone, fun hno => absurd hsend hno⟩
  · intro ⟨_, hsend⟩
    exact ⟨not_not.mp fun hno => hnone (hsend hno ⟨r, hr, hfree, hshared⟩), howned⟩

end Match

/-- **Whose row it is.**  Whenever an observation binds the row that a hook has created,
in any run, the observed transfer is the one the row is for if and only if no row waited
where a transfer of the other kind would take it. -/
theorem binds_own_iff {cfg : Config} {hist before after : List (Pool.Event Effects Host)}
    {c : Pool.Config Effects Host} (run : (system cfg).Run initial hist c)
    {e : Pool.Event Effects Host} (hhist : hist = before ++ e :: after) {i : ℕ} {o : Observed}
    {now : ℤ} {row r : Transfer}
    (he : e.label = .act i (.store (.upsertObserved o now)) (.ok row))
    (hr : e.pre.db.transfer? row.id = some r) (hfree : r.rlnIdx = none) {hook : Hook}
    (hcreated : CreatedBy hook row.id before) : hook.Owns o ↔ e.pre.db.Unmixed o := by
  obtain ⟨c₁, -, run₁, -, hc₁, -⟩ := run.split hhist
  obtain ⟨db', hok, -⟩ := Host.commit_ok (performed_of_run run (by simp [hhist]) he)
  -- the row that is taken is the hook's, as the hook gave it
  have hf : e.pre.db.findObserved o = some r := by
    rcases Db.upsertObserved_ok hok with ⟨T, -, ⟨a, ha, rfl, -⟩ | ⟨-, rfl, hclash, -⟩⟩
    · have hget := Db.transfer?_eq_some.mpr ⟨(Db.findObserved_some ha).1, rfl⟩
      have hid : (o.merge now a).id = a.id := rfl
      rw [hid, hget] at hr
      rw [ha, hr]
    · rw [Db.transfer?_eq_none hclash] at hr
      cases hr
  have hident : r.ident = hook.row.ident r.id := by
    obtain ⟨hmem, hid⟩ := Db.transfer?_eq_some.mp hr
    obtain ⟨k, hk, hkid, hkept⟩ := keptFor_of_run run₁ hcreated
    rw [hc₁] at hk
    have hsame : k = r.ident := by
      refine ident_unique hk (List.mem_map_of_mem hmem) (Or.inl ?_)
      rw [hkid, ← hid]
      rfl
    rw [hsame] at hkept
    rw [hid]
    exact hkept hfree
  cases hook with
  | rgbinvoice req resp => exact owns_invoice_iff hf hident
  | sendrgb req resp assetId => exact owns_send_iff hf hident

/-! ## A payment to oneself -/

/-- The two transfers of a payment to oneself, in one order or the other. -/
def selfPayment (sendFirst : Bool) : List RlnTransfer :=
  let receive : RlnTransfer :=
    ⟨2, .waitingCounterparty, "ReceiveBlind", some "r", some "tx", none⟩
  let send : RlnTransfer := ⟨1, .waitingCounterparty, "Send", some "r", some "tx", none⟩
  if sendFirst then [send, receive] else [receive, send]

def ownInvoice : Hook := .rgbinvoice ⟨some "A", false⟩ ⟨"r", "invoice", none, 7⟩

def ownSend : Hook := .sendrgb ⟨false, none, ["A"]⟩ ⟨"tx"⟩ "A"

def listingSelf (sendFirst : Bool) : World :=
  .of (.listing (.listTransfers "A" 100) (selfPayment sendFirst))

/-- An invoice is made, and paid; a sync has got the two transfers. -/
def paidToSelf (sendFirst : Bool) : List (Pool.Move (system defaults)) :=
  let invoice : World := .of (.answering .rgbinvoice ⟨"r", "invoice", none, 7⟩)
  let sent : World := .of (.answering .sendrgb ⟨"tx"⟩)
  [.start (rgbinvoice (some ⟨some "A", false⟩)), .act 0 invoice, .act 0 invoice, .act 0 invoice,
    .start (sendrgb (some ⟨false, none, ["A"]⟩)), .act 1 sent, .act 1 sent, .act 1 sent,
    .start (assetSync defaults ["A"])] ++ List.replicate 3 (.act 2 (listingSelf sendFirst))

theorem paidToSelf_admitted (sendFirst : Bool) : Pool.Admitted (paidToSelf sendFirst) := by
  refine Pool.admitted_append.mpr ⟨?_, Pool.admitted_replicate trivial⟩
  exact ⟨.rgbinvoice _, trivial, trivial, trivial, .sendrgb _, trivial, trivial, trivial,
    .assetSync _, trivial⟩

theorem paidToSelf_plays (sendFirst : Bool) :
    ((system defaults).play (paidToSelf sendFirst) initial).isSome := by
  cases sendFirst <;> rfl

/-- What has happened by then. -/
def selfHistory (sendFirst : Bool) : List (Pool.Event Effects Host) :=
  (Option.get _ (paidToSelf_plays sendFirst)).2

theorem createdBy_ownInvoice (sendFirst : Bool) :
    CreatedBy ownInvoice 0 (selfHistory sendFirst) := by
  cases sendFirst
  · exact ⟨_, List.mem_of_getElem? (i := 3) rfl, 0, 0, _, rfl, rfl, rfl⟩
  · exact ⟨_, List.mem_of_getElem? (i := 3) rfl, 0, 0, _, rfl, rfl, rfl⟩

theorem createdBy_ownSend (sendFirst : Bool) : CreatedBy ownSend 1 (selfHistory sendFirst) := by
  cases sendFirst
  · exact ⟨_, List.mem_of_getElem? (i := 7) rfl, 1, 0, _, rfl, rfl, rfl⟩
  · exact ⟨_, List.mem_of_getElem? (i := 7) rfl, 1, 0, _, rfl, rfl, rfl⟩

/-- The sync observes the first of them. -/
def observeFirst (sendFirst : Bool) : Pool.Move (system defaults) :=
  .act 2 (listingSelf sendFirst)

/-- The receive first: it takes the row of the invoice. -/
theorem invoice_owns_receive :
    ∃ before e c o row, (system defaults).Run initial (before ++ [e]) c ∧
      e.label = .act 2 (.store (.upsertObserved o 0)) (.ok row) ∧
      CreatedBy ownInvoice row.id before ∧ ownInvoice.Owns o := by
  have run := Pool.run_of_isSome (paidToSelf_admitted false) (paidToSelf_plays false)
  have hstep := run.snoc (Pool.step_of_move (m := observeFirst false) trivial rfl)
  refine ⟨selfHistory false, _, _, _, _, hstep, rfl, createdBy_ownInvoice false, ?_⟩
  refine (binds_own_iff hstep rfl rfl rfl rfl (createdBy_ownInvoice false)).mpr
    ⟨fun hno => ?_, fun _ _ => ?_⟩
  · exact absurd (Or.inl rfl) hno
  · exact ⟨_, List.mem_cons_self .., rfl, rfl⟩

/-- The send first: it takes the row of the invoice, and the receive that of the send. -/
theorem self_payment_swaps :
    ∃ before e₁ e₂ c o₁ o₂ row₁ row₂,
      (system defaults).Run initial (before ++ [e₁] ++ [e₂]) c ∧
      e₁.label = .act 2 (.store (.upsertObserved o₁ 0)) (.ok row₁) ∧
      (e₁.pre.db.transfer? row₁.id).map Transfer.rlnIdx = some none ∧
      CreatedBy ownInvoice row₁.id before ∧ o₁.kind = "Send" ∧ ¬ ownInvoice.Owns o₁ ∧
      e₂.label = .act 2 (.store (.upsertObserved o₂ 0)) (.ok row₂) ∧
      (e₂.pre.db.transfer? row₂.id).map Transfer.rlnIdx = some none ∧
      CreatedBy ownSend row₂.id before ∧ o₂.Receives ∧ ¬ ownSend.Owns o₂ := by
  have run := Pool.run_of_isSome (paidToSelf_admitted true) (paidToSelf_plays true)
  have hfirst := run.snoc (Pool.step_of_move (m := observeFirst true) trivial rfl)
  have hsecond := hfirst.snoc (Pool.step_of_move (m := observeFirst true) trivial rfl)
  refine ⟨selfHistory true, _, _, _, _, _, _, _, hsecond, rfl, rfl, createdBy_ownInvoice true,
    rfl, ?_, rfl, rfl, createdBy_ownSend true, Or.inl rfl, ?_⟩
  · intro ⟨hreceives, _⟩
    have hkind : "Send" = "ReceiveBlind" ∨ "Send" = "ReceiveWitness" := hreceives
    simp at hkind
  · intro ⟨hsend, _⟩
    have hkind : "ReceiveBlind" = "Send" := hsend
    simp at hkind

end Companion
