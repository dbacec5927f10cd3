import Companion.Mirror.TransferPass
import Companion.Runs.Transfers

/-!
# What a webhook says of its row

The body of an event is built in memory, from a row the task has read before; the row
itself is moved by the transaction that enqueues the event.  In between, others may
write to the row without moving it, and then the body is not the row that has been
committed.  A task carries what it last read through its operations, so the condition
can be stated of any run: the row has not been written to since it was read, its
`updated_at` apart.

## Main definitions

* `LastRead`, `LastRead.note` — what a task has last read, and how it comes to it.
* `Commits` — the steps that commit an event.
* `Payload.Describes` — the body is the row as it stands.
* `LastRead.Stands` — the row is still as the task has read it.
* `payload_iff` — the body is the committed row exactly then.
-/

set_option autoImplicit false

namespace Companion
open Lib

/-! ## What a task has read -/

/-- The rows a task has last read to plan from. -/
structure LastRead where
  transfers : List Transfer := []
  payment : Option Payment := none

/-- Three operations return rows that are planned from. -/
def LastRead.note (m : LastRead) : (o : Op) → o.Res → LastRead
  | .store (.upsertObserved _ _), .ok row => { m with transfers := [row] }
  | .store (.expiredFallible _), .ok rows => { m with transfers := rows }
  | .store (.upsertPayment _ _ _), .ok row => { m with payment := some row }
  | _, _ => m

/-- A transition is planned from a row that was read, and so is the event it carries. -/
def Op.Grounded (m : LastRead) : Op → Prop
  | .store (.applyTransition id src dst event now) =>
      src.terminal = false ∧ ∃ row ∈ m.transfers, row.id = id ∧ row.status = src ∧
        ∃ eventId, event = transitionEvent eventId row ⟨id, src, dst, EventType.of dst⟩ now
  | .store (.applyPaymentTransition hash src dst event now) =>
      ∃ row, m.payment = some row ∧ row.paymentHash = hash ∧ row.status = src ∧
        ∃ eventId announced,
          event = paymentTransitionEvent eventId row ⟨hash, src, dst, announced⟩ now
  | _ => True

/-- An operation that is grounded and leaves what was read as it is. -/
def Op.Settled (m : LastRead) (o : Op) : Prop := o.Grounded m ∧ ∀ r, m.note o r = m

theorem usesAfter_of_settled {α : Type} {m : LastRead} {p : Proc Effects α}
    (h : p.Uses (Op.Settled m)) : p.UsesAfter LastRead.note Op.Grounded m := by
  refine Proc.usesAfter_of_uses (I := fun m' => m' = m) h ?_ rfl
  rintro m' o ho rfl
  exact ho

section Blocks
open Fallible

/-- A store operation whose errors end the program, and what it leaves for the rest. -/
theorem usesAfter_store {ε β : Type} {f : StoreError → ε} {q : StoreOp}
    {k : q.Res → Prog ε β} {m : LastRead} (hq : Op.Grounded m (.store q))
    (hk : ∀ a, (k a).run.UsesAfter LastRead.note Op.Grounded (m.note (.store q) (.ok a))) :
    (mapErr f (store q) >>= k).run.UsesAfter LastRead.note Op.Grounded m := by
  refine ⟨hq, fun r => ?_⟩
  cases r with
  | ok a => exact hk a
  | error e => trivial

theorem applyObserved_settled {m : LastRead} {row : Transfer} (hrow : row ∈ m.transfers)
    (observed : TransferStatus) (now : ℤ) :
    (applyObserved row observed now).run.Uses (Op.Settled m) := by
  rw [applyObserved]
  cases hp : planTransition row observed with
  | none => trivial
  | some tr =>
    obtain ⟨hterm, -, rfl⟩ := planTransition_eq_some.mp hp
    have huuid : Op.Settled m .uuid := ⟨trivial, fun _ => rfl⟩
    refine Fallible.uses_bind (uses_lift (Proc.uses_perform huuid)) fun eventId => ?_
    exact uses_mapErr (uses_store ⟨⟨hterm, row, hrow, rfl, rfl, eventId, rfl⟩, fun _ => rfl⟩)

theorem applyPaymentObserved_settled {m : LastRead} {row : Payment} (hrow : m.payment = some row)
    (observed : PaymentStatus) (now : ℤ) :
    (applyPaymentObserved row observed now).run.Uses (Op.Settled m) := by
  rw [applyPaymentObserved]
  cases hp : planPaymentTransition row observed with
  | none => trivial
  | some tr =>
    obtain ⟨hash, src, dst, announced⟩ := tr
    obtain ⟨rfl, rfl, rfl, -⟩ := planPaymentTransition_eq_some hp
    have huuid : Op.Settled m .uuid := ⟨trivial, fun _ => rfl⟩
    refine Fallible.uses_bind (uses_lift (Proc.uses_perform huuid)) fun eventId => ?_
    exact uses_mapErr (uses_store
      ⟨⟨row, hrow, rfl, rfl, eventId, announced, rfl⟩, fun _ => rfl⟩)

theorem reapAll_settled {m : LastRead} (now : ℤ) {ts : List Transfer}
    (hts : ∀ t ∈ ts, t ∈ m.transfers) (failed : ℕ) :
    (reapAll now ts failed).run.Uses (Op.Settled m) := by
  induction ts generalizing failed with
  | nil => trivial
  | cons t ts ih =>
    have ih' := ih fun t' ht' => hts t' (List.mem_cons_of_mem _ ht')
    rw [reapAll]
    split
    · exact ih' failed
    refine Fallible.uses_bind (uses_attempt (uses_node ⟨trivial, fun _ => rfl⟩)) fun outcome => ?_
    split
    · have happly := applyObserved_settled (hts t (List.mem_cons_self ..)) .failed now
      exact Fallible.uses_bind (uses_mapErr happly) fun _ => ih' _
    · exact ih' failed
    · refine Fallible.uses_bind (setNodeState_uses ?_ ?_ ?_ _) fun _ => trivial
      · exact ⟨trivial, fun _ => rfl⟩
      · exact ⟨trivial, fun _ => rfl⟩
      · exact fun _ _ => ⟨trivial, fun _ => rfl⟩
    · trivial
    · trivial

/-- A block plans from what it has just read, whatever was read before. -/
theorem Block.grounded {α : Type} {p : Proc Effects α} (h : Block α p) (m : LastRead) :
    p.UsesAfter LastRead.note Op.Grounded m := by
  cases h with
  | @op o ho =>
    refine ⟨?_, fun _ => trivial⟩
    cases o with
    | store q => cases q <;> trivial
    | node _ | forward _ | post _ | clock | uuid | lock | unlock => trivial
  | observe report assetId t now =>
    refine usesAfter_store trivial fun row => usesAfter_of_settled ?_
    have happly := applyObserved_settled (m := { m with transfers := [row] })
      (List.mem_singleton_self row) t.status now
    refine Fallible.uses_bind happly fun moved => ?_
    cases moved <;> trivial
  | reap now =>
    refine usesAfter_store trivial fun rows => usesAfter_of_settled ?_
    exact reapAll_settled (m := { m with transfers := rows }) now (fun _ ht => ht) 0
  | observePayment baseline now report p =>
    refine usesAfter_store trivial fun row => usesAfter_of_settled ?_
    have happly := applyPaymentObserved_settled (m := { m with payment := some row }) rfl
      p.status now
    refine Fallible.uses_bind happly fun moved => ?_
    cases moved <;> trivial
  | recordOutboundPayment resp assetId assetAmount amtMsat payeePubkey =>
    rw [Companion.recordOutboundPayment]
    split
    · trivial
    refine ⟨trivial, fun t => ?_⟩
    refine usesAfter_store trivial fun row => usesAfter_of_settled ?_
    have happly := applyPaymentObserved_settled (m := { m with payment := some row }) rfl
      resp.status t
    exact Fallible.uses_bind (uses_mapErr happly) fun _ => trivial

end Blocks

/-! ## In a run -/

/-- What thread `i` has last read, at the end of a history. -/
def lastRead (i : ℕ) (hist : List (Pool.Event Effects Host)) : LastRead :=
  Pool.memory LastRead.note {} i hist

/-- Rows that were read together are distinct, and one that is not settled has no
settlement date. -/
structure LastRead.Sound (m : LastRead) : Prop where
  inj : ∀ r ∈ m.transfers, ∀ r' ∈ m.transfers, r.id = r'.id → r = r'
  settledAt : ∀ r ∈ m.transfers, r.settledAt ≠ none → r.status = .settled

section Runs
open Pool
variable {cfg : Config} {hist : List (Event Effects Host)} {c : Pool.Config Effects Host}

/-- Every operation of a run is planned from what its thread has last read. -/
theorem grounded_of_run (run : (system cfg).Run initial hist c)
    {before after : List (Event Effects Host)} {e : Event Effects Host}
    (hhist : hist = before ++ e :: after) {i : ℕ} {o : Op} {r : o.Res}
    (he : e.label = .act i o r) : o.Grounded (lastRead i before) := by
  have hdispatch : ∀ passes m, (dispatcher cfg.webhook passes).UsesAfter LastRead.note
      Op.Grounded m := by
    intro passes m
    refine Proc.usesAfter_of_uses (I := fun _ => True) (dispatcher_uses _ passes) ?_ trivial
    intro m o ho _
    refine ⟨?_, fun _ => trivial⟩
    cases o with
    | store q => cases q <;> trivial
    | node _ | forward _ | post _ | clock | uuid | lock | unlock => trivial
  refine Run.usesAfter ?_ ?_ (by simp [initial]) run hhist he
  · rintro ps ⟨attempts, passes, rfl⟩ p hp
    rcases List.mem_pair.mp hp with rfl | rfl
    · exact hdispatch passes {}
    · exact (built_startup cfg attempts).usesAfter (fun _ _ hq => hq.grounded) {}
  · intro p hp
    exact (Task.built hp).usesAfter (fun _ _ hq => hq.grounded) {}

/-- A read of sound accounts is sound. -/
theorem sound_note {q : StoreOp} {h h' : Host} {a : q.Res} (hp : q.perform h = (.ok a, h'))
    (hs : ∀ id, TransferSound (transferAccount id h'))
    {m : LastRead} (hm : m.Sound) : (m.note (.store q) (.ok a)).Sound := by
  have hsettled : ∀ r ∈ h'.db.transfers.rows, r.settledAt ≠ none → r.status = .settled :=
    fun r hr => (hs r.id).settledAt r (Db.transfer?_eq_some.mpr ⟨hr, rfl⟩)
  cases q with
  | upsertObserved o now =>
    obtain ⟨db', hok, rfl⟩ := Host.commit_ok hp
    have hrow := (Db.transfer?_eq_some.mp (transfer?_upsertObserved hok)).1
    refine ⟨fun r hr r' hr' _ => ?_, fun r hr => ?_⟩
    · rw [List.mem_singleton.mp hr, List.mem_singleton.mp hr']
    · rw [List.mem_singleton.mp hr]
      exact hsettled a hrow
  | expiredFallible now =>
    cases hp
    have hrows : ∀ r ∈ h.db.expiredFallible now, r ∈ h.db.transfers.rows :=
      fun r hr => (Db.mem_expiredFallible.mp hr).1
    refine ⟨fun r hr r' hr' hid => ?_, fun r hr => hsettled r (hrows r hr)⟩
    exact h.db.transfers.eq_of_clash (hrows r hr) (hrows r' hr') (Transfer.clash_of_id hid)
  | upsertPayment p lastSeenAt now => exact ⟨hm.inj, hm.settledAt⟩
  | insertTransfer _ _ | pendingTransfers | pendingAssetIds | applyTransition _ _ _ _ _
  | applyPaymentTransition _ _ _ _ _ | upsertAssets _ _ | nodeState | setNodeState _ _
  | setLastFullSyncAt _ | paymentsBaselineAt | setPaymentsBaselineAt _ | undeliveredEvents _
  | recordAttempt _ _ | markDelivered _ _ => exact hm

/-- In a run, what a thread has last read is sound. -/
theorem sound_lastRead (run : (system cfg).Run initial hist c) (i : ℕ) :
    (lastRead i hist).Sound := by
  have hempty : LastRead.Sound {} := ⟨by simp, by simp⟩
  refine (run.induct (fun past h => (∀ id, TransferSound (transferAccount id h)) ∧
    (lastRead i past).Sound) ⟨fun id => @transfer_sound cfg _ _ .nil id, hempty⟩ ?_).2
  rintro past e he ⟨hsound, hmem⟩
  have hsound' : ∀ id, TransferSound (transferAccount id e.post) :=
    fun id => transferSound_step (transfer_steps run id e he) (hsound id)
  refine ⟨hsound', ?_⟩
  rw [lastRead, memory_append]
  cases hl : e.label with
  | boot ps => exact hempty
  | start p => exact hmem
  | drift => exact hmem
  | act j o r =>
    simp only
    split
    · cases o with
      | store q =>
        cases r with
        | ok a => exact sound_note (performed_of_run run he hl) hsound' hmem
        | error e => cases q <;> exact hmem
      | node _ | forward _ | post _ | clock | uuid | lock | unlock => exact hmem
    · exact hmem

/-! ## The body and the row -/

/-- What an event is about. -/
inductive Subject
  | transfer (id : ℕ)
  | payment (paymentHash : String)

/-- A step by which thread `i` commits the event `ev`, about a transfer or a payment. -/
inductive Commits : Label Effects → ℕ → Subject → NewEvent → Prop
  | transfer {i id : ℕ} {src dst : TransferStatus} {ev : NewEvent} {now : ℤ} :
      Commits (.act i (.store (.applyTransition id src dst (some ev) now)) (.ok true)) i
        (.transfer id) ev
  | payment {i : ℕ} {hash : String} {src dst : PaymentStatus} {ev : NewEvent} {now : ℤ} :
      Commits (.act i (.store (.applyPaymentTransition hash src dst (some ev) now)) (.ok true)) i
        (.payment hash) ev

/-- The object in the body is, field by field, the row as it stands. -/
def Payload.Describes (db : Db) : Subject → Payload → Prop
  | .transfer id, .transfer p => db.transfer? id = some p.transfer
  | .payment hash, .payment p => db.payment? hash = some p.payment
  | _, _ => False

/-- The row is still as it was last read, `updated_at` apart. -/
def LastRead.Stands (m : LastRead) (db : Db) : Subject → Prop
  | .transfer id => ∃ row ∈ m.transfers, row.id = id ∧
      ∃ cur, db.transfer? id = some cur ∧ { cur with updatedAt := row.updatedAt } = row
  | .payment hash => ∃ row, m.payment = some row ∧
      ∃ cur, db.payment? hash = some cur ∧ { cur with updatedAt := row.updatedAt } = row

theorem advance_eq_iff {cur row : Transfer} (hstatus : cur.status = row.status)
    (hsettled : cur.settledAt = row.settledAt) (dst : TransferStatus) (now : ℤ) :
    cur.advance dst now = row.advance dst now ↔ { cur with updatedAt := row.updatedAt } = row := by
  obtain ⟨⟩ := cur
  obtain ⟨⟩ := row
  simp only at hstatus hsettled
  subst hstatus hsettled
  simp [Transfer.advance]

theorem payment_advance_eq_iff {cur row : Payment} (hstatus : cur.status = row.status)
    (dst : PaymentStatus) (now : ℤ) :
    cur.advance dst now = row.advance dst now ↔ { cur with updatedAt := row.updatedAt } = row := by
  obtain ⟨⟩ := cur
  obtain ⟨⟩ := row
  simp only at hstatus
  subst hstatus
  simp [Payment.advance]

/-- The body of a transfer's event is the committed row exactly if the row was still as
it had been read. -/
theorem transfer_payload (run : (system cfg).Run initial hist c)
    {before after : List (Event Effects Host)} {e : Event Effects Host}
    (hhist : hist = before ++ e :: after) {i id : ℕ} {src dst : TransferStatus} {ev : NewEvent}
    {now : ℤ}
    (he : e.label = .act i (.store (.applyTransition id src dst (some ev) now)) (.ok true)) :
    ev.payload.Describes e.post.db (.transfer id) ↔
      (lastRead i before).Stands e.pre.db (.transfer id) := by
  obtain ⟨hterm, row, hread, hid, hsrc, eventId, hevent⟩ := grounded_of_run run hhist he
  obtain ⟨c₁, -, run₁, -, hc₁, -⟩ := run.split hhist
  have hsound := sound_lastRead run₁ i
  -- the body is made from the row that was read
  have hbody : ∃ p, ev.payload = .transfer p ∧ p.transfer = row.advance dst now := by
    obtain ⟨t, -, rfl⟩ := Option.map_eq_some_iff.mp hevent.symm
    exact ⟨_, rfl, rfl⟩
  obtain ⟨p, hp, hpt⟩ := hbody
  -- the transition moves the row as it stands
  obtain ⟨db', hok, hpost⟩ := Host.commit_ok (performed_of_run run (by simp [hhist]) he)
  rcases Db.applyTransition_ok hok with ⟨hfalse, -⟩ | ⟨-, -, cur, T, O, hcur, hst, rfl, hT, -⟩
  · cases hfalse
  have hafter : e.post.db.transfer? id = some (cur.advance dst now) := by
    rw [hpost]
    exact Table.get?_replace_self hT (fun _ => rfl) hcur
  -- neither row has a settlement date yet
  have hopen : ∀ r : Transfer, r.status = src → (r.settledAt ≠ none → r.status = .settled) →
      r.settledAt = none := by
    intro r hr hset
    by_contra hne
    rw [← hr, hset hne] at hterm
    cases hterm
  have hcurSet : cur.settledAt = none :=
    hopen cur hst ((transfer_sound run₁ id).settledAt cur (hc₁ ▸ hcur))
  have hrowSet : row.settledAt = none := hopen row hsrc (hsound.settledAt row hread)
  have hiff := advance_eq_iff (hst.trans hsrc.symm) (hcurSet.trans hrowSet.symm) dst now
  rw [hp]
  simp only [Payload.Describes, LastRead.Stands, hafter, hpt, Option.some.injEq, hiff]
  constructor
  · intro hsame
    exact ⟨row, hread, hid, cur, hcur, hsame⟩
  · rintro ⟨row', hread', hid', cur', hcur', hsame⟩
    rw [hsound.inj row hread row' hread' (hid.trans hid'.symm)]
    rw [hcur] at hcur'
    cases hcur'
    exact hsame

/-- The body of a payment's event is the committed row exactly if the row was still as
it had been read. -/
theorem payment_payload (run : (system cfg).Run initial hist c)
    {before after : List (Event Effects Host)} {e : Event Effects Host}
    (hhist : hist = before ++ e :: after) {i : ℕ} {hash : String} {src dst : PaymentStatus}
    {ev : NewEvent} {now : ℤ} (he : e.label =
      .act i (.store (.applyPaymentTransition hash src dst (some ev) now)) (.ok true)) :
    ev.payload.Describes e.post.db (.payment hash) ↔
      (lastRead i before).Stands e.pre.db (.payment hash) := by
  obtain ⟨row, hread, hhash, hsrc, eventId, announced, hevent⟩ := grounded_of_run run hhist he
  have hbody : ∃ p, ev.payload = .payment p ∧ p.payment = row.advance dst now := by
    obtain ⟨t, -, rfl⟩ := Option.map_eq_some_iff.mp hevent.symm
    exact ⟨_, rfl, rfl⟩
  obtain ⟨p, hp, hpt⟩ := hbody
  obtain ⟨db', hok, hpost⟩ := Host.commit_ok (performed_of_run run (by simp [hhist]) he)
  rcases Db.applyPaymentTransition_ok hok with
    ⟨hfalse, -⟩ | ⟨-, -, cur, T, O, hcur, hst, rfl, hT, -⟩
  · cases hfalse
  have hafter : e.post.db.payment? hash = some (cur.advance dst now) := by
    rw [hpost]
    exact Table.get?_replace_self hT (fun _ => rfl) hcur
  have hiff := payment_advance_eq_iff (hst.trans hsrc.symm) dst now
  rw [hp]
  simp only [Payload.Describes, LastRead.Stands, hafter, hpt, Option.some.injEq, hiff, hread,
    hcur]
  simp

/-- **What a webhook says.**  Whenever a task commits an event, in any run, the object in
its body is the row as it stands right after if and only if, right before, the row was
still as the task had last read it, its `updated_at` apart. -/
theorem payload_iff (run : (system cfg).Run initial hist c)
    {before after : List (Event Effects Host)} {e : Event Effects Host}
    (hhist : hist = before ++ e :: after) {i : ℕ} {subject : Subject} {ev : NewEvent}
    (he : Commits e.label i subject ev) :
    ev.payload.Describes e.post.db subject ↔ (lastRead i before).Stands e.pre.db subject := by
  generalize hl : e.label = l at he
  cases he with
  | transfer => exact transfer_payload run hhist hl
  | payment => exact payment_payload run hhist hl

end Runs

/-! ## A hook between a read and its commit -/

/-- The node listing the transfer that pays an invoice. -/
def listingReceive (status : TransferStatus) : World :=
  .of (.listing (.listTransfers "A" 100)
    [⟨1, status, "ReceiveBlind", some "r", some "tx", none⟩])

/-- The node answering the request for the invoice. -/
def answeringInvoice : World := .of (.answering .rgbinvoice ⟨"r", "invoice", none, 7⟩)

/-- The answer to an invoice request is in, but its hook has not run; one sync has
mirrored the transfer, and a second one has read its row and planned the transition. -/
def planned : List (Pool.Move (system defaults)) :=
  [.start (rgbinvoice (some ⟨some "A", false⟩)), .act 0 answeringInvoice,
    .start (assetSync defaults ["A"])] ++
  List.replicate 5 (.act 1 (listingReceive .waitingCounterparty)) ++
  .start (assetSync defaults ["A"]) ::
    List.replicate 5 (.act 2 (listingReceive .waitingConfirmations))

theorem planned_admitted : Pool.Admitted planned := by
  refine Pool.admitted_append.mpr ⟨?_, .assetSync _, Pool.admitted_replicate trivial⟩
  refine Pool.admitted_append.mpr ⟨?_, Pool.admitted_replicate trivial⟩
  exact ⟨.rgbinvoice _, trivial, .assetSync _, trivial⟩

theorem planned_plays : ((system defaults).play planned initial).isSome := rfl

/-- Then the hook runs. -/
def overwritten : List (Pool.Move (system defaults)) :=
  planned ++ [.act 0 answeringInvoice, .act 0 answeringInvoice]

theorem overwritten_admitted : Pool.Admitted overwritten :=
  Pool.admitted_append.mpr ⟨planned_admitted, trivial, trivial, trivial⟩

theorem overwritten_plays : ((system defaults).play overwritten initial).isSome := rfl

/-- The second sync commits its transition. -/
def commit : Pool.Move (system defaults) := .act 2 (listingReceive .waitingConfirmations)

/-- When it commits right away, the body is the row. -/
theorem payload_undisturbed :
    ∃ before e c subject ev, (system defaults).Run initial (before ++ [e]) c ∧
      Commits e.label 2 subject ev ∧ ev.payload.Describes e.post.db subject := by
  have run := Pool.run_of_isSome planned_admitted planned_plays
  have hstep := run.snoc (Pool.step_of_move (m := commit) trivial rfl)
  refine ⟨_, _, _, .transfer 0, _, hstep, .transfer, ?_⟩
  exact (payload_iff hstep rfl .transfer).mpr ⟨_, List.mem_singleton_self _, rfl, _, rfl, rfl⟩

/-- When the hook has run in between, the row has the invoice and the body has not. -/
theorem payload_without_invoice :
    ∃ before e c subject ev, (system defaults).Run initial (before ++ [e]) c ∧
      Commits e.label 2 subject ev ∧ ev.eventType = "transfer.confirmed_pending" ∧
      (e.post.db.transfer? 0).map Transfer.invoice = some (some "invoice") ∧
      (∀ p, ev.payload = .transfer p → p.transfer.id = 0 ∧ p.transfer.invoice = none) ∧
      ¬ ev.payload.Describes e.post.db subject := by
  have run := Pool.run_of_isSome overwritten_admitted overwritten_plays
  have hstep := run.snoc (Pool.step_of_move (m := commit) trivial rfl)
  refine ⟨_, _, _, .transfer 0, _, hstep, .transfer, rfl, rfl, ?_, ?_⟩
  · intro p hp
    cases hp
    exact ⟨rfl, rfl⟩
  · intro hsame
    cases congrArg (Option.map Transfer.invoice) hsame

end Companion
