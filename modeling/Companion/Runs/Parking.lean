import Companion.Runs.Delivery
import Companion.Settings

/-!
# Delivered, queued or parked

Every outbox event is delivered, or still in the queue, or parked, and the two
statements that read the outbox agree on which.  What each of these says about the
POSTs that were made follows from the dispatcher's books: the attempts of a row are the
failed POSTs of its event, the one that is not yet booked apart.

The books are only as good as the writes to them.  A POST whose bookkeeping is refused,
or is cut off by a crash, is not counted; runs in which that happens are left out.

## Main definitions

* `OutboxRow.situation` — where an event stands.
* `attempt`, `failedPosts` — the POSTs of a history.
* `owed`, `KeepsBooks` — the POST not yet booked, and runs that book every POST.
* `Books` — what the outbox says about the history.
* `explained_iff` — what the situations mean.
-/

set_option autoImplicit false

namespace Companion
open Lib Pool

/-! ## Situations -/

inductive Situation
  | delivered
  | queued
  | parked
  deriving DecidableEq, Repr

def OutboxRow.situation (maxAttempts : ℕ) (r : OutboxRow) : Situation :=
  if r.deliveredAt.isSome then .delivered
  else if r.attempts < maxAttempts then .queued
  else .parked

theorem situation_queued_iff {n : ℕ} {r : OutboxRow} :
    r.situation n = .queued ↔ r.resolved n = false := by
  unfold OutboxRow.situation OutboxRow.resolved
  split <;> rename_i hd
  · simp [hd]
  · split <;> rename_i ha <;> simp [hd, ha]

theorem situation_delivered_iff {n : ℕ} {r : OutboxRow} :
    r.situation n = .delivered ↔ r.deliveredAt.isSome = true := by
  unfold OutboxRow.situation
  split <;> rename_i hd
  · simp [hd]
  · split <;> simp [hd]

theorem situation_parked_iff {n : ℕ} {r : OutboxRow} :
    r.situation n = .parked ↔ r.deliveredAt.isNone = true ∧ n ≤ r.attempts := by
  unfold OutboxRow.situation
  split <;> rename_i hd
  · simp [Option.isSome_iff_ne_none.mp hd]
  · split <;> rename_i ha <;> simp_all

/-- `undeliveredEvents` reads from the queue, `parkedEventsCount` counts the parked. -/
theorem situation_reads (db : Db) (n : ℕ) :
    (∀ ev ∈ db.undeliveredEvents n, ∃ r ∈ db.webhookOutbox.rows,
      r.event = ev ∧ r.situation n = .queued) ∧
    db.parkedEventsCount n = db.webhookOutbox.rows.countP fun r => r.situation n = .parked := by
  constructor
  · intro ev hev
    obtain ⟨r, hr, hev⟩ := List.mem_map.mp ((undeliveredEvents_queue db n).subset hev)
    obtain ⟨hrow, hres⟩ := List.mem_filter.mp hr
    exact ⟨r, hrow, hev, situation_queued_iff.mpr (by simpa using hres)⟩
  · refine List.countP_congr fun r _ => ?_
    simp [situation_parked_iff]

/-- The first event of the queue is read. -/
theorem undelivered_of_first {db : Db} {n : ℕ} {row : OutboxRow}
    (hrow : row ∈ db.webhookOutbox.rows) (hq : row.situation n = .queued) (hn : Numbered db)
    (hbefore : ∀ r ∈ db.webhookOutbox.rows, r.rowid < row.rowid → r.situation n ≠ .queued) :
    row.event ∈ db.undeliveredEvents n := by
  have hlive := situation_queued_iff.mp hq
  have hmem : row ∈ db.queue n := List.mem_filter.mpr ⟨hrow, by simp [hlive]⟩
  cases hqueue : db.queue n with
  | nil => simp [hqueue] at hmem
  | cons first rest =>
    have hfirst := List.mem_filter.mp (show first ∈ db.queue n by simp [hqueue])
    have hsorted : (first :: rest).Pairwise fun a b => a.rowid < b.rowid :=
      hqueue ▸ hn.sorted.sublist List.filter_sublist
    have hsame : first = row := by
      rw [hqueue] at hmem
      rcases List.mem_cons.mp hmem with h | h
      · exact h.symm
      · have hlt := (List.pairwise_cons.mp hsorted).1 row h
        have hlive' : first.resolved n = false := by simpa using hfirst.2
        exact absurd (situation_queued_iff.mpr hlive') (hbefore first hfirst.1 hlt)
    rw [undeliveredEvents_eq, hqueue, hsame]
    simp

/-! ## POSTs and their bookkeeping -/

/-- The POST an event of a run is, if any: of which outbox event, and whether it was
answered 2xx. -/
def attempt (e : Event Effects Host) : Option (ℕ × Bool) :=
  match e.label with
  | .act _ (.post ev) r => some (ev.id, r.isOk)
  | _ => none

/-- How many POSTs of the outbox event `k` have failed. -/
def failedPosts (k : ℕ) (hist : List (Event Effects Host)) : ℕ :=
  hist.countP fun e => attempt e = some (k, false)

/-- Notes of a POST, until it is booked. -/
def Owed.note (m : Option (ℕ × Bool)) : (o : Op) → o.Res → Option (ℕ × Bool)
  | .post ev, r => some (ev.id, r.isOk)
  | .store (.recordAttempt _ _), _ | .store (.markDelivered _ _), _ => none
  | _, _ => m

/-- The dispatcher books the POST it has made, and only that. -/
def Op.Booked (m : Option (ℕ × Bool)) : Op → Prop
  | .store (.recordAttempt k _) => m = some (k, false)
  | .store (.markDelivered k _) => m = some (k, true)
  | _ => m = none

/-- The POST the dispatcher has made and not booked yet. -/
def owed (hist : List (Event Effects Host)) : Option (ℕ × Bool) :=
  memory Owed.note none 0 hist

/-- No bookkeeping is refused, and no crash comes between a POST and its bookkeeping. -/
def BookKept (m : Option (ℕ × Bool)) : Label Effects → Prop
  | .boot _ => m = none
  | .act _ (.store (.recordAttempt _ _)) r | .act _ (.store (.markDelivered _ _)) r => r = .ok ()
  | _ => True

/-- A history in which every POST is booked. -/
def KeepsBooks (hist : List (Event Effects Host)) : Prop :=
  ∀ before e after, hist = before ++ e :: after → BookKept (owed before) e.label

section Dispatcher
variable {cfg : Config.Webhook}

theorem booked_dispatchAll {k : Except StoreError DispatchReport → Proc Effects Unit}
    (hk : ∀ r, (k r).UsesAfter Owed.note Op.Booked none) (now : ℤ) (evs : List OutboxEvent)
    (report : DispatchReport) :
    ((dispatchAll cfg now evs report).run >>= k).UsesAfter Owed.note Op.Booked none := by
  induction evs generalizing report with
  | nil => exact hk _
  | cons ev evs ih =>
    rw [dispatchAll]
    split
    · exact hk _
    refine ⟨rfl, fun answer => ?_⟩
    cases answer with
    | ok _ =>
      refine ⟨rfl, fun r => ?_⟩
      cases r with
      | ok _ => exact ih _
      | error e => exact hk _
    | error e =>
      refine ⟨rfl, fun r => ?_⟩
      cases r with
      | ok _ => exact hk _
      | error e => exact hk _

theorem booked_dispatcher (passes : ℕ) :
    (dispatcher cfg passes).UsesAfter Owed.note Op.Booked none := by
  induction passes with
  | zero => trivial
  | succ passes ih =>
    refine ⟨rfl, fun t => ⟨rfl, fun r => ?_⟩⟩
    cases r with
    | ok evs => exact booked_dispatchAll (fun _ => ih) t evs {}
    | error e => exact ih

end Dispatcher

section Runs
variable {cfg : Config} {hist : List (Event Effects Host)} {c : Pool.Config Effects Host}

theorem booked_background {p : Proc Effects Unit} (hp : p.Uses Op.Background) :
    p.UsesAfter Owed.note Op.Booked none := by
  refine Proc.usesAfter_of_uses (I := fun m => m = none) hp ?_ rfl
  intro m o ho hm
  subst hm
  cases o with
  | store q => cases q <;> first | exact ho.elim | exact ⟨rfl, fun _ => rfl⟩
  | post ev => exact ho.elim
  | node _ | forward _ | clock | uuid | lock | unlock => exact ⟨rfl, fun _ => rfl⟩

/-- Every thread of a run books what it has posted. -/
theorem booked_of_run (run : (system cfg).Run initial hist c)
    {before after : List (Event Effects Host)} {e : Event Effects Host}
    (hhist : hist = before ++ e :: after) {i : ℕ} {o : Op} {r : o.Res}
    (he : e.label = .act i o r) : o.Booked (memory Owed.note none i before) := by
  refine Run.usesAfter ?_ ?_ (by simp [initial]) run hhist he
  · rintro ps ⟨attempts, passes, rfl⟩ p hp
    rcases List.mem_pair.mp hp with rfl | rfl
    · exact booked_dispatcher passes
    · exact booked_background (startup_uses cfg attempts)
  · intro p hp
    exact booked_background (Task.uses hp)

/-! ## What the outbox says about the history -/

theorem failedPosts_append (k : ℕ) (past : List (Event Effects Host)) (e : Event Effects Host) :
    failedPosts k (past ++ [e]) =
      failedPosts k past + if attempt e = some (k, false) then 1 else 0 := by
  simp [failedPosts, List.countP_append, List.countP_cons]

theorem failedPosts_eq_zero {k : ℕ} {past : List (Event Effects Host)}
    (h : ∀ e ∈ past, ∀ b, attempt e ≠ some (k, b)) : failedPosts k past = 0 := by
  rw [failedPosts, List.countP_eq_zero]
  intro e he
  simpa using h e he false

theorem owed_append (past : List (Event Effects Host)) (e : Event Effects Host) :
    owed (past ++ [e]) =
      match e.label with
      | .boot _ => none
      | .act j o r => if j = 0 then Owed.note (owed past) o r else owed past
      | .start _ | .drift => owed past := by
  rw [owed, memory_append]
  cases e.label <;> rfl

/-- What is still to be booked was posted. -/
theorem attempt_of_memory {i : ℕ} {a : ℕ × Bool} {past : List (Event Effects Host)}
    (h : memory Owed.note none i past = some a) : ∃ e ∈ past, attempt e = some a := by
  induction past using List.reverseRecOn with
  | nil => cases h
  | append_singleton past e ih =>
    have hpast : memory Owed.note none i past = some a →
        ∃ e' ∈ past ++ [e], attempt e' = some a := by
      intro hm
      obtain ⟨e', he', hatt⟩ := ih hm
      exact ⟨e', List.mem_append_left _ he', hatt⟩
    rw [memory_append] at h
    cases hl : e.label with
    | boot ps =>
      rw [hl] at h
      cases h
    | start p => exact hpast (by simpa only [hl] using h)
    | drift => exact hpast (by simpa only [hl] using h)
    | act j o r =>
      simp only [hl] at h
      split at h
      · cases o with
        | post ev => exact ⟨e, by simp, by rw [attempt, hl]; exact h⟩
        | store q => cases q <;> first | exact hpast h | cases h
        | node _ | forward _ | clock | uuid | lock | unlock => exact hpast h
      · exact hpast h

/-- The books are right: the attempts of a row are its failed POSTs, but for one that
is not booked yet, and there are never more than allowed. -/
structure Books (maxAttempts : ℕ) (past : List (Event Effects Host)) (h : Host) : Prop where
  posted : ∀ e ∈ past, ∀ a, attempt e = some a → ∃ r ∈ h.db.webhookOutbox.rows, r.id = a.1
  attempts : ∀ r ∈ h.db.webhookOutbox.rows,
    failedPosts r.id past = r.attempts + if owed past = some (r.id, false) then 1 else 0
  bounded : ∀ r ∈ h.db.webhookOutbox.rows, failedPosts r.id past ≤ maxAttempts
  delivered : ∀ r ∈ h.db.webhookOutbox.rows, r.deliveredAt.isSome = true →
    ∃ e ∈ past, attempt e = some (r.id, true)

section Steps
variable {n : ℕ} {past : List (Event Effects Host)} {e : Event Effects Host}

theorem exists_past {P : Event Effects Host → Prop} (h : ∃ e' ∈ past, P e') :
    ∃ e' ∈ past ++ [e], P e' := by
  obtain ⟨e', he', hp⟩ := h
  exact ⟨e', List.mem_append_left _ he', hp⟩

theorem failedPosts_quiet (hpost : attempt e = none) (k : ℕ) :
    failedPosts k (past ++ [e]) = failedPosts k past := by
  simp [failedPosts_append, hpost]

/-- What was posted stays in the outbox if a step that does not post loses no row of it. -/
theorem Books.posted_quiet (hb : Books n past e.pre) (hpost : attempt e = none)
    (hids : ∀ r ∈ e.pre.db.webhookOutbox.rows, ∃ r' ∈ e.post.db.webhookOutbox.rows, r'.id = r.id) :
    ∀ e' ∈ past ++ [e], ∀ a, attempt e' = some a →
      ∃ r ∈ e.post.db.webhookOutbox.rows, r.id = a.1 := by
  intro e' he' a ha
  rcases List.mem_append.mp he' with he' | he'
  · obtain ⟨r, hr, hid⟩ := hb.posted e' he' a ha
    obtain ⟨r', hr', hid'⟩ := hids r hr
    exact ⟨r', hr', hid'.trans hid⟩
  · rw [List.mem_singleton.mp he', hpost] at ha
    cases ha

/-- A step that does not post, and adds events to the outbox at most. -/
theorem Books.grown (hb : Books n past e.pre) (hpost : attempt e = none)
    (howed : owed (past ++ [e]) = owed past) (new : List OutboxRow)
    (hrows : e.post.db.webhookOutbox.rows = e.pre.db.webhookOutbox.rows ++ new)
    (hnew : ∀ r ∈ new, r.attempts = 0 ∧ r.deliveredAt = none) :
    Books n (past ++ [e]) e.post := by
  -- the identifier of a new row is none that was ever posted
  have hfresh : ∀ r ∈ new, ∀ e' ∈ past, ∀ b, attempt e' ≠ some (r.id, b) := by
    intro r hr e' he' b hatt
    obtain ⟨r', hr', hid⟩ := hb.posted e' he' _ hatt
    have hunique := e.post.db.webhookOutbox.unique
    rw [hrows] at hunique
    exact (List.pairwise_append.mp hunique).2.2 r' hr' r hr hid
  constructor
  · apply hb.posted_quiet hpost
    intro r hr
    exact ⟨r, by simp [hrows, hr], rfl⟩
  · intro r hr
    rw [failedPosts_quiet hpost, howed]
    rw [hrows] at hr
    rcases List.mem_append.mp hr with hr | hr
    · exact hb.attempts r hr
    · have hnot : owed past ≠ some (r.id, false) := by
        intro ho
        obtain ⟨e', he', hatt⟩ := attempt_of_memory ho
        exact hfresh r hr e' he' false hatt
      rw [failedPosts_eq_zero (hfresh r hr), if_neg hnot, (hnew r hr).1]
  · intro r hr
    rw [failedPosts_quiet hpost]
    rw [hrows] at hr
    rcases List.mem_append.mp hr with hr | hr
    · exact hb.bounded r hr
    · rw [failedPosts_eq_zero (hfresh r hr)]
      exact Nat.zero_le n
  · intro r hr hdel
    rw [hrows] at hr
    rcases List.mem_append.mp hr with hr | hr
    · exact exists_past (hb.delivered r hr hdel)
    · rw [(hnew r hr).2] at hdel
      cases hdel

/-- A POST of an event of the queue, with every earlier one booked. -/
theorem Books.post (hb : Books n past e.pre) {k : ℕ} {b : Bool} (hpost : attempt e = some (k, b))
    (howed : owed past = none) (howed' : owed (past ++ [e]) = some (k, b))
    (hdb : e.post.db = e.pre.db) {row : OutboxRow} (hrow : row ∈ e.pre.db.webhookOutbox.rows)
    (hid : row.id = k) (hlive : row.attempts < n) : Books n (past ++ [e]) e.post := by
  have hcount : ∀ r ∈ e.pre.db.webhookOutbox.rows, failedPosts r.id past = r.attempts := by
    intro r hr
    simpa [howed] using hb.attempts r hr
  rw [← hdb] at hrow hcount
  constructor
  · intro e' he' a ha
    rcases List.mem_append.mp he' with he' | he'
    · rw [hdb]
      exact hb.posted e' he' a ha
    · rw [List.mem_singleton.mp he', hpost] at ha
      cases ha
      exact ⟨row, hrow, hid⟩
  · intro r hr
    rw [failedPosts_append, hcount r hr, hpost, howed']
  · intro r hr
    rw [failedPosts_append, hpost, hcount r hr]
    split
    · next hk =>
      have hsame : r = row := e.post.db.webhookOutbox.eq_of_clash hr hrow (by
        simp only [Option.some.injEq, Prod.mk.injEq] at hk
        exact hk.1.symm.trans hid.symm)
      rw [hsame]
      omega
    · rw [← hcount r hr]
      exact hb.bounded r (hdb ▸ hr)
  · intro r hr hdel
    exact exists_past (hb.delivered r (hdb ▸ hr) hdel)

/-- The bookkeeping of the POST that was owed. -/
theorem Books.booked (hb : Books n past e.pre) (hpost : attempt e = none) {k : ℕ} {b : Bool}
    (howed : owed past = some (k, b)) (howed' : owed (past ++ [e]) = none)
    {f : OutboxRow → OutboxRow} (hf : ∀ r, (f r).id = r.id)
    (hattempts : ∀ r, (f r).attempts = r.attempts + if b = false then 1 else 0)
    (hdelivered : b = false → ∀ r, (f r).deliveredAt = r.deliveredAt)
    (hrows : e.post.db.webhookOutbox.rows =
      Table.replace OutboxRow.id k f e.pre.db.webhookOutbox.rows) :
    Books n (past ++ [e]) e.post := by
  have hold : ∀ r ∈ e.post.db.webhookOutbox.rows, ∃ r' ∈ e.pre.db.webhookOutbox.rows,
      (r'.id = k ∧ r = f r') ∨ (r'.id ≠ k ∧ r = r') := by
    intro r hr
    rw [hrows, Table.mem_replace] at hr
    rcases hr with ⟨r', hr', hk, rfl⟩ | ⟨hr, hk⟩
    · exact ⟨r', hr', Or.inl ⟨hk, rfl⟩⟩
    · exact ⟨r, hr, Or.inr ⟨hk, rfl⟩⟩
  constructor
  · apply hb.posted_quiet hpost
    intro r hr
    rw [hrows]
    exact Table.exists_key_replace hf hr
  · intro r hr
    obtain ⟨r', hr', ⟨hk, rfl⟩ | ⟨hk, rfl⟩⟩ := hold r hr
    · have := hb.attempts r' hr'
      rw [failedPosts_quiet hpost, hf, this, howed', howed, hattempts, ← hk]
      cases b <;> simp
    · have := hb.attempts r hr'
      rw [failedPosts_quiet hpost, this, howed', howed]
      simp [Ne.symm hk]
  · intro r hr
    rw [failedPosts_quiet hpost]
    obtain ⟨r', hr', ⟨-, rfl⟩ | ⟨-, rfl⟩⟩ := hold r hr
    · rw [hf]
      exact hb.bounded r' hr'
    · exact hb.bounded r hr'
  · intro r hr hdel
    obtain ⟨r', hr', ⟨hk, rfl⟩ | ⟨-, rfl⟩⟩ := hold r hr
    · cases b with
      | true =>
        obtain ⟨e', he', hatt⟩ := attempt_of_memory howed
        exact exists_past ⟨e', he', by rw [hatt, hf, hk]⟩
      | false =>
        rw [hdelivered rfl] at hdel
        rw [hf]
        exact exists_past (hb.delivered r' hr' hdel)
    · exact exists_past (hb.delivered r hr' hdel)

/-- A step that neither posts nor books. -/
theorem Books.other (hb : Books n past e.pre) {i : ℕ} {o : Op} {r : o.Res}
    (he : e.label = .act i o r) (hnote : ∀ m, Owed.note m o r = m) (hpost : ∀ ev, o ≠ .post ev)
    (new : List OutboxRow)
    (hrows : e.post.db.webhookOutbox.rows = e.pre.db.webhookOutbox.rows ++ new)
    (hnew : ∀ r ∈ new, r.attempts = 0 ∧ r.deliveredAt = none) :
    Books n (past ++ [e]) e.post := by
  refine hb.grown ?_ ?_ new hrows hnew
  · rw [attempt, he]
    cases o with
    | post ev => exact absurd rfl (hpost ev)
    | _ => rfl
  · rw [owed_append, he]
    simp only [hnote, ite_self]

end Steps

theorem mem_eventRows {outbox : Table OutboxRow OutboxRow.Clash} {now : ℤ} {event : Option NewEvent}
    {r : OutboxRow} (h : r ∈ Db.eventRows outbox now event) :
    r.attempts = 0 ∧ r.deliveredAt = none := by
  cases event with
  | none => cases h
  | some ev =>
    rw [List.mem_singleton.mp h]
    exact ⟨rfl, rfl⟩

/-- A step that leaves the database alone: a POST, or nothing the books are about. -/
theorem books_kept (run : (system cfg).Run initial hist c) {past : List (Event Effects Host)}
    {e : Event Effects Host} (hhist : hist = past ++ [e]) (hkept : BookKept (owed past) e.label)
    (hb : Books cfg.webhook.maxAttempts.toNat past e.pre) (hdb : e.post.db = e.pre.db)
    (hno : ∀ i q a, e.label ≠ .act i (.store q) (.ok a)) :
    Books cfg.webhook.maxAttempts.toNat (past ++ [e]) e.post := by
  have hguar := ((delivery_kept run).2 e (by simp [hhist])).2.2
  have hbooked := fun {i o r} => @booked_of_run _ _ _ run past [] e hhist i o r
  have hrows : e.post.db.webhookOutbox.rows = e.pre.db.webhookOutbox.rows ++ [] := by simp [hdb]
  obtain ⟨pre, label, post⟩ := e
  cases label with
  | boot ps => exact hb.grown rfl ((owed_append _ _).trans hkept.symm) [] hrows (by simp)
  | start p => exact hb.grown rfl (owed_append _ _) [] hrows (by simp)
  | drift => exact hb.grown rfl (owed_append _ _) [] hrows (by simp)
  | act i o r =>
    have hbook := hbooked rfl
    obtain ⟨hop, hfirst⟩ := hguar
    cases o with
    | store q =>
      -- a refused operation is not one of the books
      cases r with
      | ok a => exact absurd rfl (hno i q a)
      | error err =>
        refine hb.other rfl ?_ (by simp) [] hrows (by simp)
        cases q with
        | recordAttempt k next => cases hkept
        | markDelivered k now => cases hkept
        | _ => exact fun _ => rfl
    | post ev =>
      obtain hback | ⟨rfl, -⟩ := hop
      · exact hback.elim
      obtain ⟨row, hrow, hev, hlive, -⟩ := hfirst ev rfl
      rw [OutboxRow.resolved, Bool.or_eq_false_iff, decide_eq_false_iff_not] at hlive
      exact hb.post rfl hbook (owed_append _ _) hdb hrow (by rw [← hev]; rfl)
        (Nat.lt_of_not_le hlive.2)
    | _ => exact hb.other rfl (fun _ => rfl) (by simp) [] hrows (by simp)

/-- A store operation: an event is appended, or the POST that was owed is booked. -/
theorem books_performed (run : (system cfg).Run initial hist c) {past : List (Event Effects Host)}
    {e : Event Effects Host} (hhist : hist = past ++ [e])
    (hb : Books cfg.webhook.maxAttempts.toNat past e.pre) {i : ℕ} {q : StoreOp}
    {r : Except StoreError q.Res} (hlabel : e.label = .act i (.store q) r)
    (hq : q.perform e.pre = (r, e.post)) :
    Books cfg.webhook.maxAttempts.toNat (past ++ [e]) e.post := by
  have hguar := ((delivery_kept run).2 e (by simp [hhist])).2.2
  have hbook := booked_of_run run hhist hlabel
  obtain ⟨pre, label, post⟩ := e
  cases hlabel
  replace hq : q.perform pre = (r, post) := hq
  obtain hback | ⟨rfl, hdel⟩ := hguar.1
  · obtain ⟨event, now, hrows⟩ := appended_of_background hback hq
    refine hb.other rfl ?_ (by simp) _ hrows fun r hr => mem_eventRows hr
    cases q <;> first | exact fun _ => rfl | exact hback.elim
  · cases q with
    | undeliveredEvents m =>
      cases hq
      exact hb.other rfl (fun _ => rfl) (by simp) [] (by simp) (by simp)
    | recordAttempt k next =>
      cases hq
      exact hb.booked rfl hbook (owed_append _ _)
        (f := fun r => { r with attempts := r.attempts + 1, nextAttemptAt := next })
        (fun _ => rfl) (fun _ => rfl) (fun _ _ => rfl) rfl
    | markDelivered k now =>
      cases hq
      exact hb.booked rfl hbook (owed_append _ _)
        (f := fun r => { r with deliveredAt := some now })
        (fun _ => rfl) (fun _ => rfl) (by simp) rfl
    | _ => exact hdel.elim

/-- One step of a run keeps the books. -/
theorem books_step (run : (system cfg).Run initial hist c) {past : List (Event Effects Host)}
    {e : Event Effects Host} (hhist : hist = past ++ [e]) (hkept : BookKept (owed past) e.label)
    (hb : Books cfg.webhook.maxAttempts.toNat past e.pre) :
    Books cfg.webhook.maxAttempts.toNat hist e.post := by
  have hlawful := lawful_of_run run e (by simp [hhist])
  rw [hhist]
  obtain ⟨hdb, hno⟩ | ⟨i, q, r, hlabel, -, hq⟩ := lawful_inv hlawful
  · exact books_kept run hhist hkept hb hdb hno
  · exact books_performed run hhist hb hlabel hq

theorem keepsBooks_append {past : List (Event Effects Host)} {e : Event Effects Host} :
    KeepsBooks (past ++ [e]) ↔ KeepsBooks past ∧ BookKept (owed past) e.label := by
  constructor
  · intro h
    refine ⟨fun before e' after heq => h before e' (after ++ [e]) (by simp [heq]), ?_⟩
    exact h past e [] rfl
  · rintro ⟨hpast, he⟩ before e' after heq
    rcases List.eq_nil_or_concat after with rfl | ⟨after, last, rfl⟩
    · obtain ⟨rfl, rfl⟩ := List.append_singleton_inj.mp heq
      exact he
    · rw [List.concat_eq_append, ← List.cons_append, ← List.append_assoc] at heq
      exact hpast before e' after (List.append_singleton_inj.mp heq).1

/-- In a run that books every POST, the books are right. -/
theorem books_of_run (run : (system cfg).Run initial hist c) (hkept : KeepsBooks hist) :
    Books cfg.webhook.maxAttempts.toNat hist c.shared := by
  induction run with
  | nil => constructor <;> simp [initial, Host.fresh, Db.migrated, Table.empty, owed, memory]
  | snoc run hs ih =>
    obtain ⟨hpast, he⟩ := keepsBooks_append.mp hkept
    exact books_step (run.snoc hs) rfl he (ih hpast)

/-! ## What the situations mean -/

/-- What a row's situation says at the end of a run: delivered means that some POST was
answered 2xx, queued that the dispatcher will read the event once those before it are
done with, and parked that all its POSTs were made and failed. -/
def Explained (cfg : Config) (hist : List (Event Effects Host)) (c : Pool.Config Effects Host)
    (row : OutboxRow) : Prop :=
  let n := cfg.webhook.maxAttempts.toNat
  match row.situation n with
  | .delivered => ∃ e ∈ hist, attempt e = some (row.id, true)
  | .queued => ∀ later c', (system cfg).Run c later c' →
      (∀ r ∈ c'.shared.db.webhookOutbox.rows, r.rowid < row.rowid → r.situation n ≠ .queued) →
      ∃ row' ∈ c'.shared.db.webhookOutbox.rows, row'.id = row.id ∧
        (row'.situation n = .queued → row'.event ∈ c'.shared.db.undeliveredEvents n)
  | .parked => (∃ e ∈ hist, ∃ b, attempt e = some (row.id, b)) ∧ failedPosts row.id hist = n

theorem explained_of_books (run : (system cfg).Run initial hist c)
    (hb : Books cfg.webhook.maxAttempts.toNat hist c.shared)
    (hn : cfg.webhook.maxAttempts.toNat ≠ 0) {row : OutboxRow}
    (hrow : row ∈ c.shared.db.webhookOutbox.rows) : Explained cfg hist c row := by
  rw [Explained]
  cases hs : row.situation cfg.webhook.maxAttempts.toNat with
  | delivered => exact hb.delivered row hrow (situation_delivered_iff.mp hs)
  | queued =>
    intro later c' run' hbefore
    have hset := run'.within
      (R := fun h h' => Settles cfg.webhook.maxAttempts.toNat h.db h'.db)
      (fun _ => Settles.refl _ _) (fun _ _ _ => Settles.trans)
      (fun e he => settles_step (run.append run') _ e (List.mem_append_right _ he))
    obtain ⟨row', hrow', hid, hrowid, -⟩ := hset row hrow
    refine ⟨row', hrow', hid, fun hq => ?_⟩
    exact undelivered_of_first hrow' hq (delivery_kept (run.append run')).1 (hrowid ▸ hbefore)
  | parked =>
    have hattempts := hb.attempts row hrow
    have hbound := hb.bounded row hrow
    have hparked := (situation_parked_iff.mp hs).2
    have hall : failedPosts row.id hist = cfg.webhook.maxAttempts.toNat := by omega
    refine ⟨?_, hall⟩
    have hpos : 0 < failedPosts row.id hist := by omega
    obtain ⟨e, he, hatt⟩ := List.countP_pos_iff.mp hpos
    exact ⟨e, he, false, by simpa using hatt⟩

/-- Where nothing is posted there is nothing to book. -/
theorem keepsBooks_of_none (run : (system cfg).Run initial hist c)
    (hposts : ∀ e ∈ hist, attempt e = none) : KeepsBooks hist := by
  intro before e after hhist
  have hnone : ∀ i, memory Owed.note none i before = none := by
    intro i
    by_contra hm
    obtain ⟨a, ha⟩ := Option.ne_none_iff_exists'.mp hm
    obtain ⟨e', he', hatt⟩ := attempt_of_memory ha
    rw [hposts e' (by simp [hhist, he'])] at hatt
    cases hatt
  cases hl : e.label with
  | boot ps => exact hnone 0
  | start p => trivial
  | drift => trivial
  | act i o r =>
    have hbook := booked_of_run run hhist hl
    cases o with
    | store q =>
      cases q with
      | recordAttempt k next => cases (hnone i).symm.trans hbook
      | markDelivered k now => cases (hnone i).symm.trans hbook
      | _ => trivial
    | _ => trivial

section NoAttempts
variable (hzero : cfg.webhook.maxAttempts.toNat = 0)
include hzero

/-- Without attempts nothing is ever posted. -/
theorem attempt_eq_none (run : (system cfg).Run initial hist c) : ∀ e ∈ hist, attempt e = none := by
  intro e he
  unfold attempt
  split
  · next i ev r hl =>
    obtain ⟨row, -, -, hlive, -⟩ := firstInLine_of_posts run he ⟨i, r, hl⟩
    simp [OutboxRow.resolved, hzero] at hlive
  · rfl

/-- So no event is where it is because of POSTs. -/
theorem unexplained_of_zero (run : (system cfg).Run initial hist c) (row : OutboxRow) :
    ¬ Explained cfg hist c row := by
  have hnone := attempt_eq_none hzero run
  have hposted : ∀ a, ¬ ∃ e ∈ hist, attempt e = some a := by
    rintro a ⟨e, he, hatt⟩
    rw [hnone e he] at hatt
    cases hatt
  intro h
  rw [Explained] at h
  cases hs : row.situation cfg.webhook.maxAttempts.toNat with
  | delivered =>
    rw [hs] at h
    exact hposted _ h
  | queued =>
    have hlive := situation_queued_iff.mp hs
    simp [OutboxRow.resolved, hzero] at hlive
  | parked =>
    rw [hs] at h
    obtain ⟨⟨e, he, b, hatt⟩, -⟩ := h
    exact hposted _ ⟨e, he, hatt⟩

end NoAttempts

/-- A failed keysend, whose hook enqueues an event. -/
def failedKeysend (cfg : Config) : List (Move (system cfg)) :=
  let failed : World := .of (.answering .keysend ⟨some "h", .failed⟩)
  .start (keysend (some ⟨"peer", 1, none, none⟩)) :: List.replicate 5 (.act 0 failed)

theorem failedKeysend_admitted (cfg : Config) : Admitted (failedKeysend cfg) :=
  ⟨.keysend _, admitted_replicate trivial⟩

theorem failedKeysend_plays (cfg : Config) :
    ((system cfg).play (failedKeysend cfg) initial).isSome := rfl

/-- Under every configuration some run has an event in its outbox. -/
theorem exists_event (cfg : Config) : ∃ hist c row, (system cfg).Run initial hist c ∧
    row ∈ c.shared.db.webhookOutbox.rows :=
  ⟨_, _, _, run_of_isSome (failedKeysend_admitted cfg) (failedKeysend_plays cfg),
    List.mem_singleton_self _⟩

/-- **No webhook is dropped silently.**  Under any settings, those that pass the check among
them, in every run that books its POSTs, the situation of every event of the outbox is
explained by its POSTs at every moment if and only if at least one attempt is allowed. -/
theorem explained_iff (s : Settings) :
    (∀ hist c, (system s.config).Run initial hist c → KeepsBooks hist →
      ∀ row ∈ c.shared.db.webhookOutbox.rows, Explained s.config hist c row) ↔
    s.webhook.maxAttempts ≠ 0 := by
  have hcfg : s.config.webhook.maxAttempts = s.webhook.maxAttempts := rfl
  constructor
  · intro hall hzero
    obtain ⟨hist, c, row, run, hrow⟩ := exists_event s.config
    have hn : s.config.webhook.maxAttempts.toNat = 0 := by simp [hcfg, hzero]
    have hkept := keepsBooks_of_none run (attempt_eq_none hn run)
    exact unexplained_of_zero hn run row (hall hist c run hkept row hrow)
  · intro hpos hist c run hkept row hrow
    have hn : s.config.webhook.maxAttempts.toNat ≠ 0 := by
      intro h
      exact hpos (UInt32.toNat_inj.mp h)
    exact explained_of_books run (books_of_run run hkept) hn hrow

/-- Settings that leave everything at its default but the webhook. -/
def hooked (maxAttempts : UInt32) : Settings where
  webhook := { url := "http://127.0.0.1:9000/hook", secret := "s", maxAttempts }

/-- What both URLs of these settings parse to. -/
def loopback (_ : String) : Except String Url := .ok ⟨"http", some "127.0.0.1"⟩

theorem hooked_valid (maxAttempts : UInt32) : (hooked maxAttempts).validate loopback = .ok () :=
  rfl

/-- No boot, and no bookkeeping that is refused. -/
def unfailing (e : Event Effects Host) : Bool :=
  match e.label with
  | .boot _ => false
  | .act _ (.store (.recordAttempt _ _)) r | .act _ (.store (.markDelivered _ _)) r => r.isOk
  | _ => true

theorem bookKept_of_unfailing {e : Event Effects Host} (h : unfailing e = true)
    (m : Option (ℕ × Bool)) : BookKept m e.label := by
  rw [unfailing] at h
  cases hl : e.label with
  | boot ps => simp [hl] at h
  | start p => trivial
  | drift => trivial
  | act i o r =>
    rw [hl] at h
    cases o with
    | store q =>
      cases q with
      | recordAttempt k next | markDelivered k now =>
        cases r with
        | ok _ => rfl
        | error e => cases h
      | _ => trivial
    | _ => trivial

/-- After one boot nothing interrupts the bookkeeping. -/
theorem keepsBooks_of_unfailing {first : Event Effects Host} {rest : List (Event Effects Host)}
    {ps : List (Proc Effects Unit)} (hfirst : first.label = .boot ps)
    (hrest : rest.all unfailing = true) : KeepsBooks (first :: rest) := by
  intro before e after hhist
  cases before with
  | nil =>
    cases hhist
    rw [hfirst]
    rfl
  | cons x before =>
    cases hhist
    have hmem : e ∈ before ++ e :: after := by simp
    exact bookKept_of_unfailing (List.all_eq_true.mp hrest e hmem) _

/-- With one attempt the second pass is for the second event. -/
theorem oneAttempt_plays :
    ((system (hooked 1).config).play (deliverySchedule _) initial).isSome := rfl

/-- With one attempt the first event is parked and the second delivered, and both are
explained. -/
theorem explained_keysends : (hooked 1).validate loopback = .ok () ∧
    ∃ hist c parked delivered, (system (hooked 1).config).Run initial hist c ∧
      KeepsBooks hist ∧ c.shared.db.webhookOutbox.rows = [parked, delivered] ∧
      parked.situation 1 = .parked ∧ Explained (hooked 1).config hist c parked ∧
      delivered.situation 1 = .delivered ∧ Explained (hooked 1).config hist c delivered := by
  have run := run_of_isSome (deliverySchedule_admitted (hooked 1).config) oneAttempt_plays
  have hkept : KeepsBooks
      (((system (hooked 1).config).play (deliverySchedule _) initial).get oneAttempt_plays).2 :=
    keepsBooks_of_unfailing rfl rfl
  have hall := (explained_iff (hooked 1)).mpr (by decide) _ _ run hkept
  exact ⟨hooked_valid 1, _, _, _, _, run, hkept, rfl, rfl, hall _ List.mem_cons_self, rfl,
    hall _ (List.mem_cons_of_mem _ List.mem_cons_self)⟩

/-- With none the file passes the check, and the event of a failed keysend is parked
although it was never posted. -/
theorem dropped_keysend : (hooked 0).validate loopback = .ok () ∧
    ∃ hist c row, (system (hooked 0).config).Run initial hist c ∧ KeepsBooks hist ∧
      row ∈ c.shared.db.webhookOutbox.rows ∧ row.situation 0 = .parked ∧
      (∀ e ∈ hist, attempt e = none) ∧ ¬ Explained (hooked 0).config hist c row := by
  have run := run_of_isSome (failedKeysend_admitted (hooked 0).config) (failedKeysend_plays _)
  have hnone := attempt_eq_none rfl run
  exact ⟨hooked_valid 0, _, _, _, run, keepsBooks_of_none run hnone,
    List.mem_singleton_self _, rfl, hnone, unexplained_of_zero rfl run _⟩

end Runs
end Companion
