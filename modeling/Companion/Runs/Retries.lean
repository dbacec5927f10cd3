import Companion.Runs.Parking

/-!
# When a failed delivery is tried again

The schedule is computed with saturating and checked operations on `u32`, `u64` and
`i64`.  Over unbounded integers it is `now + min cap (base * 2 ^ (k - 1))` after the
`k`-th failed attempt, cut off at the end of `i64`.

What a run records is that value: between a POST and its bookkeeping other tasks only
append to the outbox, so the row the dispatcher books is still the one it has read.

## Main definitions

* `retryAt` — the schedule over unbounded integers.
* `Retry` — what the dispatcher knows: when its pass began, and what it has posted.
* `retry_schedule` — what a run records.
-/

set_option autoImplicit false

namespace Companion
open Lib Pool

/-! ## The arithmetic -/

section Arithmetic
variable {cfg : Config.Webhook} {k : ℕ}

/-- When an event is due again whose `k`-th attempt failed at `now`. -/
def retryAt (cfg : Config.Webhook) (now : ℤ) (k : ℕ) : ℤ :=
  min i64Max
    (now + (min cfg.backoffCapSecs.toNat (cfg.backoffBaseSecs.toNat * 2 ^ (k - 1)) : ℕ))

/-- Cutting off a product at the end of `u64` is not seen under a cap of `u64`. -/
theorem min_saturated {cap x : ℕ} (hcap : cap ≤ u64Max) : min cap (min u64Max x) = min cap x := by
  omega

/-- A shift out of `u64` is cut off by every cap, unless the base is zero. -/
theorem min_shifted_out {cap base e : ℕ} (hcap : cap ≤ u64Max) (he : 64 ≤ e) :
    min cap (base * u64Max) = min cap (base * 2 ^ e) := by
  cases base with
  | zero => simp
  | succ base =>
    have hfactor : u64Max ≤ (base + 1) * u64Max := Nat.le_mul_of_pos_left _ (by omega)
    have hshift : 2 ^ 64 ≤ (base + 1) * 2 ^ e :=
      calc 2 ^ 64 ≤ 2 ^ e := Nat.pow_le_pow_right (by omega) he
        _ ≤ (base + 1) * 2 ^ e := Nat.le_mul_of_pos_left _ (by omega)
    have hmax : u64Max < 2 ^ 64 := by decide
    omega

theorem nextAttemptDelay_eq : nextAttemptDelay k cfg =
    min cfg.backoffCapSecs.toNat (cfg.backoffBaseSecs.toNat * 2 ^ (k - 1)) := by
  have hcap : cfg.backoffCapSecs.toNat ≤ u64Max := Nat.le_pred_of_lt cfg.backoffCapSecs.toNat_lt
  rw [nextAttemptDelay, min_saturated hcap]
  split
  · rfl
  · exact min_shifted_out hcap (by omega)

/-- Below the largest `u32` one more attempt does not wrap. -/
theorem nextAttempts_eq {ev : OutboxEvent} {maxAttempts : UInt32}
    (h : ev.attempts < maxAttempts.toNat) : nextAttempts ev = ev.attempts + 1 := by
  have hmax : maxAttempts.toNat < 2 ^ 32 := maxAttempts.toNat_lt
  rw [nextAttempts, Nat.mod_eq_of_lt (by omega)]

theorem saturatingAdd_eq {now : ℤ} {delay : ℕ} (hnow : 0 ≤ now) :
    saturatingAdd now (min delay i64Max : ℕ) = min (i64Max : ℤ) (now + delay) := by
  rw [saturatingAdd]
  omega

theorem nextAttemptAt_eq {ev : OutboxEvent} {now : ℤ}
    (h : ev.attempts < cfg.maxAttempts.toNat) (hnow : 0 ≤ now) :
    nextAttemptAt cfg ev now = retryAt cfg now (ev.attempts + 1) := by
  rw [nextAttemptAt, nextAttempts_eq h, saturatingAdd_eq hnow, nextAttemptDelay_eq, retryAt]

/-- The schedule never goes back from one attempt to the next. -/
theorem retryAt_mono (cfg : Config.Webhook) (now : ℤ) {k k' : ℕ} (hk : k ≤ k') :
    retryAt cfg now k ≤ retryAt cfg now k' := by
  have hpow : cfg.backoffBaseSecs.toNat * 2 ^ (k - 1) ≤
      cfg.backoffBaseSecs.toNat * 2 ^ (k' - 1) :=
    Nat.mul_le_mul_left _ (Nat.pow_le_pow_right (by omega) (by omega))
  rw [retryAt, retryAt]
  omega

theorem le_retryAt {now t : ℤ} (htnow : t ≤ now) (hnow : now ≤ i64Max) : t ≤ retryAt cfg now k := by
  rw [retryAt]
  omega

end Arithmetic

/-! ## What the dispatcher knows when it books -/

/-- What the dispatcher has been told: the time its pass began, and the event it has posted
and not booked yet. -/
structure Retry where
  now : ℤ
  posted : Option OutboxEvent

def Retry.start : Retry := ⟨0, none⟩

def Retry.note (m : Retry) : (o : Op) → o.Res → Retry
  | .clock, t => { m with now := t }
  | .post ev, _ => { m with posted := some ev }
  | .store (.recordAttempt _ _), _ | .store (.markDelivered _ _), _ => { m with posted := none }
  | _, _ => m

/-- A failed attempt is booked of the event that was posted, which was due, and by the
schedule. -/
def Op.Scheduled (cfg : Config.Webhook) (m : Retry) : Op → Prop
  | .store (.recordAttempt k next) => ∃ ev, m.posted = some ev ∧ ev.id = k ∧
      ev.nextAttemptAt ≤ m.now ∧ next = nextAttemptAt cfg ev m.now
  | _ => True

/-- What the dispatcher knows at the end of a history. -/
def retry (i : ℕ) (hist : List (Event Effects Host)) : Retry :=
  memory Retry.note Retry.start i hist

section Dispatcher
variable {cfg : Config.Webhook}

theorem scheduled_dispatchAll {k : Except StoreError DispatchReport → Proc Effects Unit}
    (hk : ∀ r m, (k r).UsesAfter Retry.note (Op.Scheduled cfg) m) (evs : List OutboxEvent)
    (report : DispatchReport) {m : Retry} {now : ℤ} (hnow : m.now = now) :
    ((dispatchAll cfg now evs report).run >>= k).UsesAfter Retry.note (Op.Scheduled cfg) m := by
  induction evs generalizing report m with
  | nil => exact hk _ _
  | cons ev evs ih =>
    rw [dispatchAll]
    split
    · exact hk _ _
    · next hdue =>
      refine ⟨trivial, fun answer => ?_⟩
      cases answer with
      | ok _ =>
        refine ⟨trivial, fun r => ?_⟩
        cases r with
        | ok _ => exact ih _ hnow
        | error e => exact hk _ _
      | error e =>
        subst hnow
        refine ⟨⟨ev, rfl, rfl, Int.not_lt.mp hdue, rfl⟩, fun r => ?_⟩
        cases r with
        | ok _ => exact hk _ _
        | error e => exact hk _ _

theorem scheduled_dispatcher (passes : ℕ) (m : Retry) :
    (dispatcher cfg passes).UsesAfter Retry.note (Op.Scheduled cfg) m := by
  induction passes generalizing m with
  | zero => trivial
  | succ passes ih =>
    refine ⟨trivial, fun t => ⟨trivial, fun r => ?_⟩⟩
    cases r with
    | ok evs => exact scheduled_dispatchAll (fun _ m => ih m) evs {} rfl
    | error e => exact ih _

theorem scheduled_background {p : Proc Effects Unit} (hp : p.Uses Op.Background) (m : Retry) :
    p.UsesAfter Retry.note (Op.Scheduled cfg) m := by
  refine Proc.usesAfter_of_uses (I := fun _ => True) hp ?_ trivial
  intro m o ho _
  cases o with
  | store q => cases q <;> first | exact ho.elim | exact ⟨trivial, fun _ => trivial⟩
  | post ev => exact ho.elim
  | node _ | forward _ | clock | uuid | lock | unlock => exact ⟨trivial, fun _ => trivial⟩

end Dispatcher

section Runs
variable {cfg : Config} {hist : List (Event Effects Host)} {c : Pool.Config Effects Host}

/-- Every thread of a run books by the schedule. -/
theorem scheduled_of_run (run : (system cfg).Run initial hist c)
    {before after : List (Event Effects Host)} {e : Event Effects Host}
    (hhist : hist = before ++ e :: after) {i : ℕ} {o : Op} {r : o.Res}
    (he : e.label = .act i o r) : o.Scheduled cfg.webhook (retry i before) := by
  refine Run.usesAfter ?_ ?_ (by simp [initial]) run hhist he
  · rintro ps ⟨attempts, passes, rfl⟩ p hp
    rcases List.mem_pair.mp hp with rfl | rfl
    · exact scheduled_dispatcher passes _
    · exact scheduled_background (startup_uses cfg attempts) _
  · intro p hp
    exact scheduled_background (Task.uses hp) _

/-! ## The row that is booked -/

/-- The bookkeeping of the dispatcher. -/
def Op.books : Op → Bool
  | .store (.recordAttempt _ _) | .store (.markDelivered _ _) => true
  | _ => false

/-- Whatever is not bookkeeping leaves every row of the outbox as it is. -/
theorem row_stays (run : (system cfg).Run initial hist c) {e : Event Effects Host} (he : e ∈ hist)
    (hbooks : ∀ i o r, e.label = .act i o r → o.books = false) {row : OutboxRow}
    (hrow : row ∈ e.pre.db.webhookOutbox.rows) : row ∈ e.post.db.webhookOutbox.rows := by
  obtain ⟨hdb, -⟩ | ⟨i, q, r, hlabel, hop, hq⟩ := lawful_inv (lawful_of_run run e he)
  · rwa [hdb]
  · have hnot := hbooks i (.store q) r hlabel
    obtain hback | hdel := hop
    · obtain ⟨event, now, hrows⟩ := appended_of_background hback hq
      simp [hrows, hrow]
    · cases q with
      | undeliveredEvents m =>
        have hsame : e.pre = e.post := congrArg Prod.snd hq
        rwa [← hsame]
      | recordAttempt k next => cases hnot
      | markDelivered k now => cases hnot
      | _ => exact hdel.elim

theorem books_eq_false {o : Op} (ho : o.Background) : o.books = false := by
  cases o with
  | store q => cases q <;> first | rfl | exact ho.elim
  | _ => rfl

/-- What is noted as posted has just been posted, or was noted before and is not booked. -/
theorem posted_note {m : Retry} {o : Op} {r : o.Res} {ev : OutboxEvent}
    (h : (m.note o r).posted = some ev) :
    o = .post ev ∨ (m.posted = some ev ∧ o.books = false) := by
  cases o with
  | post ev' =>
    cases h
    exact .inl rfl
  | store q => cases q <;> first | exact .inr ⟨h, rfl⟩ | cases h
  | node _ | forward _ | clock | uuid | lock | unlock => exact .inr ⟨h, rfl⟩

/-- The event that was posted and is not booked yet is still as it was posted. -/
theorem posted_stands (run : (system cfg).Run initial hist c) {ev : OutboxEvent}
    (hev : (retry 0 hist).posted = some ev) :
    ∃ row ∈ c.shared.db.webhookOutbox.rows, row.event = ev ∧
      row.attempts < cfg.webhook.maxAttempts.toNat := by
  induction run with
  | nil => cases hev
  | @snoc past c l c' run hs ih =>
    have he : (⟨c.shared, l, c'.shared⟩ : Event Effects Host) ∈
        past ++ [⟨c.shared, l, c'.shared⟩] := by simp
    have hstays : (retry 0 past).posted = some ev →
        (∀ i o r, l = .act i o r → o.books = false) → ∃ row ∈ c'.shared.db.webhookOutbox.rows,
          row.event = ev ∧ row.attempts < cfg.webhook.maxAttempts.toNat := by
      intro hpast hbooks
      obtain ⟨row, hrow, hrow'⟩ := ih hpast
      exact ⟨row, row_stays (run.snoc hs) he hbooks hrow, hrow'⟩
    rw [retry, memory_append] at hev
    cases l with
    | boot ps => cases hev
    | start p => exact hstays hev (by simp)
    | drift => exact hstays hev (by simp)
    | act j o r =>
      have hop := (((delivery_kept (run.snoc hs)).2 _ he).2.2).1
      have hother : j ≠ 0 → o.books = false := by
        intro hj
        rcases hop with hback | ⟨hj', -⟩
        · exact books_eq_false hback
        · exact absurd hj' hj
      simp only at hev
      split at hev
      · next hj =>
        rcases posted_note hev with rfl | ⟨hpast, hbooks⟩
        · -- the row is the first of the queue, and a POST does not touch the outbox
          obtain ⟨row, hrow, hrow', hlive, -⟩ := firstInLine_of_posts (run.snoc hs) he ⟨j, r, rfl⟩
          rw [OutboxRow.resolved, Bool.or_eq_false_iff, decide_eq_false_iff_not] at hlive
          refine ⟨row, row_stays (run.snoc hs) he ?_ hrow, hrow', Nat.lt_of_not_le hlive.2⟩
          intro i o r hl
          cases hl
          rfl
        · exact hstays hpast fun i o r hl => by cases hl; exact hbooks
      · next hj => exact hstays hev fun i o r hl => by cases hl; exact hother hj

/-- **The retry schedule.**  Whatever attempts, base and cap are configured, the schedule
does not go back from one attempt to the next.  In every run, a failed attempt is booked of
a row with attempts left, so that their number does not wrap; it is due again when the
schedule over unbounded integers says, and not before it was due this time; and the number
of the attempt is that of the failed POSTs, if every POST was booked. -/
theorem retry_schedule (run : (system cfg).Run initial hist c) :
    (∀ now k k', k ≤ k' → retryAt cfg.webhook now k ≤ retryAt cfg.webhook now k') ∧
    ∀ before e after i id next r, hist = before ++ e :: after →
      e.label = .act i (.store (.recordAttempt id next)) r →
      ∃ row ∈ e.pre.db.webhookOutbox.rows, row.id = id ∧
        row.attempts < cfg.webhook.maxAttempts.toNat ∧
        nextAttempts row.event = row.attempts + 1 ∧
        (r = .ok () → { row with attempts := row.attempts + 1, nextAttemptAt := next } ∈
          e.post.db.webhookOutbox.rows) ∧
        (0 ≤ (retry 0 before).now →
          next = retryAt cfg.webhook (retry 0 before).now (row.attempts + 1)) ∧
        (0 ≤ (retry 0 before).now → (retry 0 before).now ≤ i64Max → row.nextAttemptAt ≤ next) ∧
        (KeepsBooks hist → failedPosts id before = row.attempts + 1) := by
  refine ⟨fun now k k' hk => retryAt_mono cfg.webhook now hk, ?_⟩
  intro before e after i id next r hhist hl
  have he : e ∈ hist := by simp [hhist]
  -- only the dispatcher books
  have hi : i = 0 := by
    have hop := ((delivery_kept run).2 e he).2.2
    rw [hl] at hop
    rcases hop.1 with hback | ⟨hi, -⟩
    · exact hback.elim
    · exact hi
  subst hi
  obtain ⟨ev, hposted, hid, hdue, hnext⟩ := scheduled_of_run run hhist hl
  obtain ⟨c₁, -, run₁, -, hpre, -⟩ := run.split hhist
  obtain ⟨row, hrow, hev, hattempts⟩ := posted_stands run₁ hposted
  rw [hpre] at hrow
  have hrowid : row.id = id := by rw [← hid, ← hev]; rfl
  have hrowdue : row.nextAttemptAt ≤ (retry 0 before).now := by rw [← hev] at hdue; exact hdue
  have hretry : 0 ≤ (retry 0 before).now →
      next = retryAt cfg.webhook (retry 0 before).now (row.attempts + 1) := by
    intro hnow
    rw [hnext, ← hev]
    exact nextAttemptAt_eq hattempts hnow
  refine ⟨row, hrow, hrowid, hattempts, nextAttempts_eq hattempts, ?_, hretry, ?_, ?_⟩
  · intro hr
    subst hr
    have hpost : { e.pre with db := e.pre.db.recordAttempt id next } = e.post :=
      congrArg Prod.snd (performed_of_run run he hl)
    rw [← hpost]
    exact Table.mem_replace.mpr (Or.inl ⟨row, hrow, hrowid, rfl⟩)
  · intro hnow hmax
    rw [hretry hnow]
    exact le_retryAt hrowdue hmax
  · intro hkept
    have hbefore : KeepsBooks before := fun past e' rest heq =>
      hkept past e' (rest ++ e :: after) (by simp [hhist, heq])
    have hb := (books_of_run run₁ hbefore).attempts row (hpre ▸ hrow)
    have howed : owed before = some (id, false) := booked_of_run run hhist hl
    rw [← hrowid, hb, howed, hrowid, if_pos rfl]

/-- A keysend fails, and the endpoint refuses its event twice. -/
def refusedSchedule (cfg : Config) : List (Move (system cfg)) :=
  let failed : World := .of (.answering .keysend ⟨some "h", .failed⟩)
  let refuses (clock : ℤ) : World :=
    .of { Env.silent with post := fun _ => .error "status 500", clock }
  [.boot [dispatcher cfg.webhook 2, startup cfg 0],
    .start (keysend (some ⟨"peer", 1, none, none⟩)),
    .act 2 failed, .act 2 failed, .act 2 failed, .act 2 failed, .act 2 failed,
    .act 0 (refuses 100), .act 0 (refuses 100), .act 0 (refuses 100), .act 0 (refuses 100),
    .act 0 (refuses 102), .act 0 (refuses 102), .act 0 (refuses 102), .act 0 (refuses 102)]

theorem refusedSchedule_admitted (cfg : Config) : Admitted (refusedSchedule cfg) := by
  simp only [refusedSchedule, Admitted, Move.Admitted, and_true]
  exact ⟨⟨0, 2, rfl⟩, .keysend _⟩

theorem refusedSchedule_plays :
    ((system ⟨⟨none⟩, {}, {}, {}⟩).play (refusedSchedule _) initial).isSome := rfl

/-- The run of that schedule, and where it ends. -/
def refused : Pool.Config Effects Host × List (Event Effects Host) :=
  ((system ⟨⟨none⟩, {}, {}, {}⟩).play (refusedSchedule _) initial).get refusedSchedule_plays

theorem refused_ne_nil : refused.2 ≠ [] := List.cons_ne_nil _ _

/-- Refused at 100 the event is due at 102, and refused then it is due at 106. -/
theorem retry_schedule_refused : ∃ e ∈ refused.2, ∃ id r,
    e.label = .act 0 (.store (.recordAttempt id 106)) r ∧
    ∃ row ∈ e.pre.db.webhookOutbox.rows, row.attempts = 1 ∧ row.nextAttemptAt = 102 ∧
      106 = retryAt {} 102 (row.attempts + 1) := by
  have run : (system ⟨⟨none⟩, {}, {}, {}⟩).Run initial refused.2 refused.1 :=
    run_of_isSome (refusedSchedule_admitted _) refusedSchedule_plays
  obtain ⟨id, r, hlabel⟩ : ∃ id r, (refused.2.getLast refused_ne_nil).label =
      .act 0 (.store (.recordAttempt id 106)) r := ⟨_, _, rfl⟩
  have hlast := (List.dropLast_append_getLast refused_ne_nil).symm
  have hbooked := (retry_schedule run).2 _ _ [] 0 id 106 r hlast hlabel
  obtain ⟨row, hrow, -, -, -, -, hnext, -⟩ := hbooked
  have hall : (refused.2.getLast refused_ne_nil).pre.db.webhookOutbox.rows.all
      (fun r => r.attempts = 1 ∧ r.nextAttemptAt = 102) = true := rfl
  have hone : row.attempts = 1 ∧ row.nextAttemptAt = 102 := by
    simpa using List.all_eq_true.mp hall row hrow
  have hnow : (retry 0 refused.2.dropLast).now = 102 := rfl
  rw [hnow] at hnext
  exact ⟨_, List.getLast_mem refused_ne_nil, id, r, hlabel, row, hrow, hone.1, hone.2,
    hnext (by decide)⟩

end Runs

end Companion
