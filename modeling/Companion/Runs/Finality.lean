import Companion.Runs.Parking
import Mathlib.Data.List.Nodup

/-!
# What is resolved stays as it is

A row of the outbox is booked by its identifier alone: neither statement asks whether the
event is still waiting.  That it is follows from what the dispatcher remembers: between a
POST and its bookkeeping it does nothing else, and the other tasks only append.  So a row
is written only while it waits, and once delivered or parked it never changes again.

## Main definitions

* `owed_waits` — a POST that is not booked is of an event that waits.
* `OutboxRow.Later` — a row and what becomes of it.
* `resolved_final` — what becomes of every row, and that a resolved one is final.
-/

set_option autoImplicit false

namespace Companion
open Lib Pool

/-- The event is in the outbox, neither delivered nor parked. -/
def Waits (maxAttempts k : ℕ) (db : Db) : Prop :=
  ∃ row ∈ db.webhookOutbox.rows, row.id = k ∧ row.resolved maxAttempts = false

theorem Waits.row {maxAttempts k : ℕ} {db : Db} (h : Waits maxAttempts k db) {row : OutboxRow}
    (hrow : row ∈ db.webhookOutbox.rows) (hid : row.id = k) :
    row.resolved maxAttempts = false := by
  obtain ⟨row', hrow', hid', hlive⟩ := h
  have hsame : row = row' := db.webhookOutbox.eq_of_clash hrow hrow' (hid.trans hid'.symm)
  rw [hsame]
  exact hlive

theorem Waits.append {maxAttempts k : ℕ} {db db' : Db} {new : List OutboxRow}
    (h : Waits maxAttempts k db)
    (hrows : db'.webhookOutbox.rows = db.webhookOutbox.rows ++ new) : Waits maxAttempts k db' := by
  obtain ⟨row, hrow, hw⟩ := h
  exact ⟨row, by simp [hrows, hrow], hw⟩

/-- A row and what becomes of it: it is booked at most, and not even that once resolved. -/
structure OutboxRow.Later (maxAttempts : ℕ) (row row' : OutboxRow) : Prop where
  rowid : row'.rowid = row.rowid
  id : row'.id = row.id
  eventType : row'.eventType = row.eventType
  payload : row'.payload = row.payload
  attempts : row.attempts ≤ row'.attempts
  final : row.resolved maxAttempts = true → row' = row

theorem OutboxRow.Later.refl (maxAttempts : ℕ) (row : OutboxRow) : row.Later maxAttempts row :=
  ⟨rfl, rfl, rfl, rfl, Nat.le_refl _, fun _ => rfl⟩

theorem OutboxRow.Later.trans {maxAttempts : ℕ} {r₁ r₂ r₃ : OutboxRow}
    (h₁ : r₁.Later maxAttempts r₂) (h₂ : r₂.Later maxAttempts r₃) : r₁.Later maxAttempts r₃ where
  rowid := h₂.rowid.trans h₁.rowid
  id := h₂.id.trans h₁.id
  eventType := h₂.eventType.trans h₁.eventType
  payload := h₂.payload.trans h₁.payload
  attempts := Nat.le_trans h₁.attempts h₂.attempts
  final hres := by
    have hsame := h₁.final hres
    rw [hsame] at h₂
    exact h₂.final hres

/-- Every row of the outbox is still there, as it was or later. -/
def Db.OutboxLater (maxAttempts : ℕ) (db db' : Db) : Prop :=
  ∀ row ∈ db.webhookOutbox.rows, ∃ row' ∈ db'.webhookOutbox.rows, row.Later maxAttempts row'

theorem Db.OutboxLater.trans {maxAttempts : ℕ} {db₁ db₂ db₃ : Db}
    (h₁ : db₁.OutboxLater maxAttempts db₂) (h₂ : db₂.OutboxLater maxAttempts db₃) :
    db₁.OutboxLater maxAttempts db₃ := by
  intro row hrow
  obtain ⟨row', hrow', hlater⟩ := h₁ row hrow
  obtain ⟨row'', hrow'', hlater'⟩ := h₂ row' hrow'
  exact ⟨row'', hrow'', hlater.trans hlater'⟩

theorem outboxLater_append {maxAttempts : ℕ} {db db' : Db} {new : List OutboxRow}
    (hrows : db'.webhookOutbox.rows = db.webhookOutbox.rows ++ new) :
    db.OutboxLater maxAttempts db' := by
  intro row hrow
  exact ⟨row, by simp [hrows, hrow], .refl _ _⟩

theorem outboxLater_of_eq {maxAttempts : ℕ} {db db' : Db}
    (hrows : db'.webhookOutbox.rows = db.webhookOutbox.rows) : db.OutboxLater maxAttempts db' := by
  intro row hrow
  exact ⟨row, hrows ▸ hrow, .refl _ _⟩

/-- Bookkeeping of an event that waits. -/
theorem outboxLater_replace {maxAttempts k : ℕ} {db db' : Db} {f : OutboxRow → OutboxRow}
    (hw : Waits maxAttempts k db)
    (hf : ∀ r : OutboxRow, r.resolved maxAttempts = false → r.Later maxAttempts (f r))
    (hrows : db'.webhookOutbox.rows = Table.replace OutboxRow.id k f db.webhookOutbox.rows) :
    db.OutboxLater maxAttempts db' := by
  intro row hrow
  rw [hrows]
  by_cases hid : row.id = k
  · exact ⟨f row, Table.mem_replace.mpr (Or.inl ⟨row, hrow, hid, rfl⟩), hf row (hw.row hrow hid)⟩
  · exact ⟨row, Table.mem_replace.mpr (Or.inr ⟨hrow, hid⟩), .refl _ _⟩

theorem resolved_of_parked {maxAttempts : ℕ} {row : OutboxRow}
    (h : (row.deliveredAt.isNone && decide (maxAttempts ≤ row.attempts)) = true) :
    row.resolved maxAttempts = true := by
  rw [Bool.and_eq_true] at h
  rw [OutboxRow.resolved, h.2, Bool.or_true]

/-- The parked events are still there, and still parked. -/
theorem Db.OutboxLater.parkedEventsCount {maxAttempts : ℕ} {db db' : Db}
    (h : db.OutboxLater maxAttempts db') :
    db.parkedEventsCount maxAttempts ≤ db'.parkedEventsCount maxAttempts := by
  rw [Db.parkedEventsCount, Db.parkedEventsCount, List.countP_eq_length_filter,
    List.countP_eq_length_filter]
  have hnodup : db.webhookOutbox.rows.Nodup :=
    db.webhookOutbox.unique.imp fun hab heq => hab (congrArg OutboxRow.id heq)
  apply List.Subperm.length_le
  apply List.subperm_of_subset (hnodup.filter _)
  intro row hrow
  obtain ⟨hmem, hparked⟩ := List.mem_filter.mp hrow
  obtain ⟨row', hrow', hlater⟩ := h row hmem
  rw [hlater.final (resolved_of_parked hparked)] at hrow'
  exact List.mem_filter.mpr ⟨hrow', hparked⟩

section Runs
variable {cfg : Config} {hist : List (Event Effects Host)} {c : Pool.Config Effects Host}

/-- What a task other than the dispatcher leaves of the outbox. -/
theorem appended_of_act (run : (system cfg).Run initial hist c) {e : Event Effects Host}
    (he : e ∈ hist) (hback : ∀ i o r, e.label = .act i o r → o.Background) :
    ∃ new, e.post.db.webhookOutbox.rows = e.pre.db.webhookOutbox.rows ++ new := by
  obtain ⟨hdb, -⟩ | ⟨i, q, r, hlabel, -, hq⟩ := lawful_inv (lawful_of_run run e he)
  · exact ⟨[], by simp [hdb]⟩
  · obtain ⟨event, now, hrows⟩ := appended_of_background (hback i _ r hlabel) hq
    exact ⟨_, hrows⟩

/-- While a POST is not booked, its event waits. -/
theorem owed_waits (run : (system cfg).Run initial hist c) {k : ℕ} {b : Bool}
    (h : owed hist = some (k, b)) : Waits cfg.webhook.maxAttempts.toNat k c.shared.db := by
  induction run with
  | nil => cases h
  | @snoc hist c l c' run hs ih =>
    have run' := run.snoc hs
    have hmem : (⟨c.shared, l, c'.shared⟩ : Event Effects Host) ∈
        hist ++ [⟨c.shared, l, c'.shared⟩] := by simp
    have hguar := ((delivery_kept run').2 _ hmem).2.2
    have hbooked := fun {i o r} => @booked_of_run _ _ _ run' hist [] _ rfl i o r
    -- a step of another task keeps what is owed, and only appends
    have hother : owed hist = some (k, b) →
        (∀ i o r, l = .act i o r → o.Background) →
          Waits cfg.webhook.maxAttempts.toNat k c'.shared.db := by
      intro howed hback
      obtain ⟨new, hrows⟩ := appended_of_act run' hmem hback
      exact (ih howed).append hrows
    rw [owed_append] at h
    cases l with
    | boot ps => cases h
    | start p => exact hother h (by simp)
    | drift => exact hother h (by simp)
    | act i o r =>
      have hbook := hbooked rfl
      obtain ⟨hop, hfirst⟩ := hguar
      by_cases hi : i = 0
      · subst hi
        simp only [if_true] at h
        cases o with
        | post ev =>
          cases h
          obtain ⟨row, hrow, hev, hlive, -⟩ := hfirst ev rfl
          have hsame : c'.shared.db = c.shared.db := by
            obtain ⟨hdb, -⟩ | ⟨j, q, r', hlabel, -⟩ := lawful_inv (lawful_of_run run' _ hmem)
            · exact hdb
            · cases hlabel
          rw [hsame]
          exact ⟨row, hrow, by rw [← hev]; rfl, hlive⟩
        | store q =>
          cases q with
          | recordAttempt | markDelivered => cases h
          | _ => cases h.symm.trans hbook
        | node _ | forward _ | clock | uuid | lock | unlock => cases h.symm.trans hbook
      · simp only [if_neg hi] at h
        refine hother h fun j o' r' hl => ?_
        cases hl
        exact hop.resolve_right fun hd => hi hd.1

/-- One step leaves every row as it was or later. -/
theorem outboxLater_step (run : (system cfg).Run initial hist c) {before after : List _}
    {e : Event Effects Host} (hhist : hist = before ++ e :: after) :
    e.pre.db.OutboxLater cfg.webhook.maxAttempts.toNat e.post.db := by
  have hmem : e ∈ hist := by simp [hhist]
  obtain ⟨hdb, -⟩ | ⟨i, q, r, hlabel, -, hq⟩ := lawful_inv (lawful_of_run run e hmem)
  · exact outboxLater_of_eq (by rw [hdb])
  have hguar := ((delivery_kept run).2 e hmem).2.2
  rw [hlabel] at hguar
  obtain ⟨hback | ⟨rfl, hdel⟩, -⟩ := hguar
  · obtain ⟨event, now, hrows⟩ := appended_of_background hback hq
    exact outboxLater_append hrows
  obtain ⟨c₁, c₂, run₁, -, hpre, -⟩ := run.split hhist
  have hbook := booked_of_run run hhist hlabel
  cases q with
  | undeliveredEvents n =>
    exact outboxLater_of_eq (by rw [← (Prod.mk.inj hq).2])
  | recordAttempt k next =>
    have hw := owed_waits run₁ hbook
    rw [hpre] at hw
    refine outboxLater_replace hw (fun row hlive => ?_) (by rw [← (Prod.mk.inj hq).2]; rfl)
    exact ⟨rfl, rfl, rfl, rfl, Nat.le_succ _, fun hres => by simp [hlive] at hres⟩
  | markDelivered k now =>
    have hw := owed_waits run₁ hbook
    rw [hpre] at hw
    refine outboxLater_replace hw (fun row hlive => ?_) (by rw [← (Prod.mk.inj hq).2]; rfl)
    exact ⟨rfl, rfl, rfl, rfl, Nat.le_refl _, fun hres => by simp [hlive] at hres⟩
  | _ => exact hdel.elim

/-- Over a run no row of the outbox is lost, or written once it is resolved. -/
theorem outboxLater_of_run {hist₁ hist₂ : List (Event Effects Host)}
    {c₁ c₂ : Pool.Config Effects Host} (run₁ : (system cfg).Run initial hist₁ c₁)
    (run₂ : (system cfg).Run c₁ hist₂ c₂) :
    c₁.shared.db.OutboxLater cfg.webhook.maxAttempts.toNat c₂.shared.db := by
  refine run₂.within
    (R := fun h h' => h.db.OutboxLater cfg.webhook.maxAttempts.toNat h'.db)
    (fun _ => outboxLater_of_eq rfl) (fun _ _ _ => Db.OutboxLater.trans) fun e he => ?_
  obtain ⟨before, after, rfl⟩ := List.append_of_mem he
  exact outboxLater_step (run₁.append run₂) (by rw [← List.append_assoc])

/-- **What is resolved is final.**  Over every run the rows of the outbox keep their place,
their identifier and their event, and their attempts only grow; one that is delivered or
parked is never written again; and the number of parked events never goes down. -/
theorem resolved_final (cfg : Config) {hist₁ hist₂ : List (Event Effects Host)}
    {c₁ c₂ : Pool.Config Effects Host} (run₁ : (system cfg).Run initial hist₁ c₁)
    (run₂ : (system cfg).Run c₁ hist₂ c₂) :
    (∀ row ∈ c₁.shared.db.webhookOutbox.rows, ∃ row' ∈ c₂.shared.db.webhookOutbox.rows,
      row'.rowid = row.rowid ∧ row'.id = row.id ∧ row'.eventType = row.eventType ∧
        row'.payload = row.payload ∧ row.attempts ≤ row'.attempts) ∧
    (∀ row ∈ c₁.shared.db.webhookOutbox.rows,
      row.resolved cfg.webhook.maxAttempts.toNat = true →
        row ∈ c₂.shared.db.webhookOutbox.rows) ∧
    c₁.shared.db.parkedEventsCount cfg.webhook.maxAttempts.toNat ≤
      c₂.shared.db.parkedEventsCount cfg.webhook.maxAttempts.toNat := by
  have hlater := outboxLater_of_run run₁ run₂
  refine ⟨fun row hrow => ?_, fun row hrow hres => ?_, hlater.parkedEventsCount⟩
  · obtain ⟨row', hrow', h⟩ := hlater row hrow
    exact ⟨row', hrow', h.rowid, h.id, h.eventType, h.payload, h.attempts⟩
  · obtain ⟨row', hrow', h⟩ := hlater row hrow
    exact h.final hres ▸ hrow'

/-- A restart after an event has been delivered, and two passes. -/
def afterDelivery : List (Move (system defaults)) :=
  .boot [dispatcher defaults.webhook 2, startup defaults 0] ::
    List.replicate 4 (.act 0 (.of .silent))

theorem afterDelivery_admitted : Admitted afterDelivery :=
  ⟨⟨0, 2, rfl⟩, admitted_replicate trivial⟩

theorem afterDelivery_plays : ((system defaults).play afterDelivery delivered).isSome := rfl

/-- The row of that event is what it was. -/
theorem resolved_final_delivered : ∃ hist c, (system defaults).Run delivered hist c ∧
    (∃ row ∈ delivered.shared.db.webhookOutbox.rows, row.resolved 10 = true) ∧
    ∀ row ∈ delivered.shared.db.webhookOutbox.rows, row.resolved 10 = true →
      row ∈ c.shared.db.webhookOutbox.rows := by
  have run₁ := run_of_isSome (deliverySchedule_admitted defaults) deliverySchedule_plays
  have run₂ := run_of_isSome afterDelivery_admitted afterDelivery_plays
  exact ⟨_, _, run₂, ⟨_, List.mem_cons_self, rfl⟩,
    (resolved_final defaults run₁ run₂).2.1⟩

end Runs
end Companion
