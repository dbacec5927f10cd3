import Companion.Announce

/-!
# What the mirror takes over

An observation inserts a row with all that is observed, or is merged into the row it
matches.  Merging takes over what is given and keeps the rest, but for the recipient: the
update does not write it.  A row matched by its recipient has it already, a row matched by
its transaction need not.

## Main definitions

* `Transfer.Reflects`, `Transfer.Keeps` — what the row is to take over, and to keep.
* `Db.TakesRecipient` — the row that is matched has the observed recipient.
* `reflects_iff` — when the row says what was observed.
-/

set_option autoImplicit false

namespace Companion
open Lib

/-! ## What is asked of the row -/

/-- The row has everything the observation gives. -/
structure Transfer.Reflects (row : Transfer) (o : Observed) : Prop where
  rlnIdx : row.rlnIdx = some o.rlnIdx
  kind : row.kind = some o.kind
  assetId : ∀ v, o.assetId = some v → row.assetId = some v
  recipientId : ∀ v, o.recipientId = some v → row.recipientId = some v
  txid : ∀ v, o.txid = some v → row.txid = some v
  expirationTimestamp : ∀ v, o.expirationTimestamp = some v → row.expirationTimestamp = some v

/-- The row has everything the observation leaves out from the row it was merged into. -/
structure Transfer.Keeps (row old : Transfer) (o : Observed) : Prop where
  id : row.id = old.id
  status : row.status = old.status
  invoice : row.invoice = old.invoice
  batchTransferIdx : row.batchTransferIdx = old.batchTransferIdx
  createdAt : row.createdAt = old.createdAt
  settledAt : row.settledAt = old.settledAt
  assetId : o.assetId = none → row.assetId = old.assetId
  recipientId : o.recipientId = none → row.recipientId = old.recipientId
  txid : o.txid = none → row.txid = old.txid
  expirationTimestamp : o.expirationTimestamp = none →
    row.expirationTimestamp = old.expirationTimestamp

/-- The row reflects the observation, keeps what it was merged into, and is the only one
that is new or changed. -/
structure Db.Reflected (db db' : Db) (o : Observed) (row : Transfer) : Prop where
  mem : row ∈ db'.transfers.rows
  reflects : row.Reflects o
  keeps : ∀ old ∈ db.transfers.rows, old.id = row.id → row.Keeps old o
  others : ∀ r : Transfer, r.id ≠ row.id → (r ∈ db'.transfers.rows ↔ r ∈ db.transfers.rows)

/-- The row that takes the observation over has the observed recipient: the one bound to
its index, or if there is none an unbound one with this recipient; or no row takes it over. -/
def Db.TakesRecipient (db : Db) (o : Observed) : Prop :=
  ∀ v, o.recipientId = some v →
    (∀ r ∈ db.transfers.rows, r.rlnIdx = some o.rlnIdx → r.recipientId = some v) ∧
    ((∀ r ∈ db.transfers.rows, r.rlnIdx ≠ some o.rlnIdx) →
      (∃ r ∈ db.transfers.rows, r.rlnIdx = none ∧ r.recipientId = some v) ∨
      ∀ r ∈ db.transfers.rows, r.rlnIdx = none →
        ¬ (sqlEq r.txid o.txid = true ∧ sqlEq r.assetId o.assetId = true))

/-! ## Merging -/

section Merge
variable {db : Db} {o : Observed} {r : Transfer} {now : ℤ}

/-- A merged row has what is given, if the row before had the recipient. -/
theorem reflects_merge : (o.merge now r).Reflects o ↔
    ∀ v, o.recipientId = some v → r.recipientId = some v := by
  constructor
  · intro h
    exact h.recipientId
  · intro h
    constructor
    · rfl
    · rfl
    · intro v hv
      simp [Observed.merge, hv]
    · exact h
    · intro v hv
      simp [Observed.merge, hv]
    · intro v hv
      simp [Observed.merge, hv]

theorem keeps_merge : (o.merge now r).Keeps r o := by
  constructor
  case assetId | txid | expirationTimestamp =>
    intro hnone
    simp [Observed.merge, hnone]
  all_goals simp [Observed.merge]

theorem reflects_row (id : ℕ) : (o.row id now).Reflects o := by
  constructor <;> simp [Observed.row]

/-- An unbound row that is found before one with the recipient has the recipient. -/
theorem recipient_of_rank {a : Transfer} (hr : r.rlnIdx = none) (ha : a.rlnIdx = none)
    (hrank : Db.matchRank o r ≤ Db.matchRank o a)
    (hrec : sqlEq a.recipientId o.recipientId = true) :
    sqlEq r.recipientId o.recipientId = true := by
  by_contra hno
  simp [Db.matchRank, hr, ha, hrec, hno] at hrank

/-- Whether the matched row has the observed recipient can be told from the rows. -/
theorem takesRecipient_found (h : db.findObserved o = some r) :
    db.TakesRecipient o ↔ ∀ v, o.recipientId = some v → r.recipientId = some v := by
  obtain ⟨hr, hmatch, hmin⟩ := Db.findObserved_some h
  refine forall_congr' fun v => imp_congr_right fun hv => ?_
  obtain hbound | hfree := Db.rlnIdx_of_matches hmatch
  · -- the row bound to the index is the one that is found
    constructor
    · intro htakes
      exact htakes.1 r hr hbound
    · intro hrec
      refine ⟨?_, fun hnone => absurd hbound (hnone r hr)⟩
      intro a ha hidx
      rw [← Db.eq_of_found h ha hidx, hrec]
  · have hnone := Db.unbound_of_found h hfree
    constructor
    · rintro ⟨-, htakes⟩
      have hrec : sqlEq r.recipientId o.recipientId = true := by
        obtain ⟨a, ha, hidx, harec⟩ | hnot := htakes hnone
        · apply recipient_of_rank hfree hidx (hmin a ha _)
          · simp [harec, hv, sqlEq]
          · simp [Db.matchesObserved, hidx, harec, hv, sqlEq]
        · simpa [Db.matchesObserved, hfree, hnot r hr hfree] using hmatch
      rw [hv] at hrec
      exact sqlEq_some_right.mp hrec
    · intro hrec
      exact ⟨fun a ha hidx => absurd hidx (hnone a ha), fun _ => .inl ⟨r, hr, hfree, hrec⟩⟩

/-- Where no row is matched there is none to take the observation over. -/
theorem takesRecipient_none (h : db.findObserved o = none) : db.TakesRecipient o := by
  have hno := Db.findObserved_none.mp h
  intro v hv
  constructor
  · intro r hr hidx
    have := hno r hr
    simp [Db.matchesObserved, hidx, sqlEq] at this
  · intro _
    right
    rintro r hr hidx ⟨htxid, hasset⟩
    have := hno r hr
    simp [Db.matchesObserved, hidx, htxid, hasset] at this

end Merge

/-- **What the mirror says of an observation.**  A row that is returned reflects what was
observed, keeps what was not, and nothing else changes, if and only if the row that takes
the observation over has the observed recipient. -/
theorem reflects_iff {o : Observed} {now : ℤ} {h h' : Host} {row : Transfer}
    (hok : (StoreOp.upsertObserved o now).perform h = (.ok row, h')) :
    h.db.Reflected h'.db o row ↔ h.db.TakesRecipient o := by
  obtain ⟨db', hup, rfl⟩ := Host.commit_ok hok
  obtain ⟨T, rfl, ⟨r, hfound, rfl, hrows⟩ | ⟨hnone, rfl, hclash, hrows⟩⟩ :=
    Db.upsertObserved_ok hup
  · obtain ⟨hr, -, -⟩ := Db.findObserved_some hfound
    rw [takesRecipient_found hfound]
    constructor
    · intro hreflected
      exact reflects_merge.mp hreflected.reflects
    · intro hrec
      have hmem : ∀ a : Transfer, a ∈ T.rows ↔ a = o.merge now r ∨
          (a ∈ h.db.transfers.rows ∧ a.id ≠ r.id) := by
        intro a
        rw [hrows]
        exact Db.mem_replace_row hr
      refine ⟨(hmem _).mpr (.inl rfl), reflects_merge.mpr hrec, ?_, ?_⟩
      · intro old hold hid
        rw [h.db.transfers.eq_of_clash hold hr (Transfer.clash_of_id hid)]
        exact keeps_merge
      · intro a hne
        have hother : a ≠ o.merge now r := fun heq => hne (congrArg Transfer.id heq)
        have hid : a.id ≠ r.id := hne
        simp [hmem, hother, hid]
  · refine iff_of_true ⟨?_, reflects_row _, ?_, ?_⟩ (takesRecipient_none hnone)
    · simp [hrows]
    · intro old hold hid
      exact absurd (Transfer.clash_of_id hid) (hclash old hold)
    · intro r hne
      have hother : r ≠ o.row h.nextUuid now := fun heq => hne (congrArg Transfer.id heq)
      simp [hrows, hother]

/-- One intercepted request, up to its insert. -/
def hookedRequest (cfg : Config) (p : Proc Effects Unit) (w : World) :
    List (Pool.Move (system cfg)) :=
  [.start p, .act 0 w, .act 0 w, .act 0 w]

theorem hookedRequest_admitted {cfg : Config} {p : Proc Effects Unit} (hp : Task cfg p)
    (w : World) : Pool.Admitted (hookedRequest cfg p w) := by
  simp only [hookedRequest, Pool.Admitted, Pool.Move.Admitted, and_true]
  exact hp

theorem receive_plays : ((system ⟨⟨none⟩, {}, {}, {}⟩).play (hookedRequest _
    (rgbinvoice (some ⟨some "A", false⟩)) (.of (.answering .rgbinvoice ⟨"r", "inv", none, 3⟩)))
    initial).isSome := rfl

/-- A receive: its recipient is known from the invoice. -/
theorem reflects_receive : ∃ hist c row h', (system ⟨⟨none⟩, {}, {}, {}⟩).Run initial hist c ∧
    (StoreOp.upsertObserved
      ⟨9, none, "ReceiveBlind", .settled, some "r", some "tx", none⟩ 5).perform
        c.shared = (.ok row, h') ∧
    c.shared.db.Reflected h'.db
      ⟨9, none, "ReceiveBlind", .settled, some "r", some "tx", none⟩ row := by
  have run := Pool.run_of_isSome (hookedRequest_admitted (.rgbinvoice _) _) receive_plays
  refine ⟨_, _, _, _, run, rfl, (reflects_iff rfl).mpr ?_⟩
  intro v hv
  cases hv
  constructor
  · intro r hr hidx
    cases List.mem_singleton.mp hr
    cases hidx
  · intro _
    exact .inl ⟨_, List.mem_singleton_self _, rfl, rfl⟩

theorem send_plays : ((system ⟨⟨none⟩, {}, {}, {}⟩).play (hookedRequest _
    (sendrgb (some ⟨true, none, ["A"]⟩)) (.of (.answering .sendrgb ⟨"tx"⟩))) initial).isSome := rfl

/-- A send: only its transaction is known, and its recipient is never taken over. -/
theorem recipient_left_out : ∃ hist c row h',
    (system ⟨⟨none⟩, {}, {}, {}⟩).Run initial hist c ∧
    (StoreOp.upsertObserved ⟨7, some "A", "Send", .settled, some "r", some "tx", none⟩ 5).perform
      c.shared = (.ok row, h') ∧
    row.rlnIdx = some 7 ∧ row.recipientId = none ∧
    ¬ c.shared.db.Reflected h'.db ⟨7, some "A", "Send", .settled, some "r", some "tx", none⟩
      row := by
  have run := Pool.run_of_isSome (hookedRequest_admitted (.sendrgb _) _) send_plays
  refine ⟨_, _, _, _, run, rfl, rfl, rfl, ?_⟩
  intro hreflected
  cases hreflected.reflects.recipientId "r" rfl

end Companion
