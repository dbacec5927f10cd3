import Companion.System

/-!
# First in, first out

The dispatcher posts an event only when every event before it in the outbox is
delivered or parked.  One pass works from a list it read at its start, while other
tasks append to the outbox and its own bookkeeping may fail, so what carries the
proof is a fact about that list and the outbox at every moment: the events the
pass has still to post are a prefix of the queue, the unresolved rows in order.

The other tasks are only relied on to append, and the dispatcher is thread 0 and
the only one that does anything else to the outbox; that is the outline.

## Main definitions

* `OutboxRow.resolved`, `Db.queue` — delivered or parked, and the rest in order.
* `Numbered` — the rowids of the outbox are 1, 2, 3, ….
* `FirstInLine` — the event at the head of the queue.
* `deliveryOutline` — what the tasks rely on of one another.
* `delivery_order` — the order of the posts of any run.
-/

set_option autoImplicit false

namespace Companion
open Lib

/-! ## The queue -/

/-- Delivered, or parked after `maxAttempts` attempts. -/
def OutboxRow.resolved (maxAttempts : ℕ) (r : OutboxRow) : Bool :=
  r.deliveredAt.isSome || decide (maxAttempts ≤ r.attempts)

/-- The unresolved rows, in outbox order. -/
def Db.queue (db : Db) (maxAttempts : ℕ) : List OutboxRow :=
  db.webhookOutbox.rows.filter fun r => !r.resolved maxAttempts

/-- The rowids are those SQLite gives out: 1, 2, 3, …. -/
def Numbered (db : Db) : Prop :=
  db.webhookOutbox.rows.map OutboxRow.rowid = List.range' 1 db.webhookOutbox.rows.length

/-- The outbox of `db'` is that of `db` with rows appended. -/
def Grown (db db' : Db) : Prop :=
  ∃ extra, db'.webhookOutbox.rows = db.webhookOutbox.rows ++ extra

/-- `ev` is the first unresolved event of the outbox. -/
def FirstInLine (maxAttempts : ℕ) (db : Db) (ev : OutboxEvent) : Prop :=
  ∃ row ∈ db.webhookOutbox.rows, row.event = ev ∧ row.resolved maxAttempts = false ∧
    ∀ row' ∈ db.webhookOutbox.rows, row'.rowid < row.rowid → row'.resolved maxAttempts = true

theorem Grown.refl (db : Db) : Grown db db := ⟨[], by simp⟩

theorem Grown.trans {db₁ db₂ db₃ : Db} (h₁ : Grown db₁ db₂) (h₂ : Grown db₂ db₃) :
    Grown db₁ db₃ := by
  rcases h₁ with ⟨e₁, h₁⟩
  rcases h₂ with ⟨e₂, h₂⟩
  exact ⟨e₁ ++ e₂, by rw [h₂, h₁, List.append_assoc]⟩

/-- The dispatcher reads the first hundred events of the queue. -/
theorem undeliveredEvents_eq (db : Db) (maxAttempts : ℕ) :
    db.undeliveredEvents maxAttempts =
      ((db.queue maxAttempts).take 100).map OutboxRow.event := by
  have hsame : db.webhookOutbox.rows.filter (fun r =>
      r.deliveredAt.isNone && decide (r.attempts < maxAttempts)) = db.queue maxAttempts := by
    refine List.filter_congr fun r _ => ?_
    cases h : r.deliveredAt with
    | some t => simp [OutboxRow.resolved, h]
    | none =>
        by_cases hlt : r.attempts < maxAttempts
        · simp [OutboxRow.resolved, h, hlt]
        · simp [OutboxRow.resolved, h, hlt, Nat.le_of_not_lt hlt]
  rw [Db.undeliveredEvents, hsame]

theorem undeliveredEvents_queue (db : Db) (maxAttempts : ℕ) :
    db.undeliveredEvents maxAttempts <+: (db.queue maxAttempts).map OutboxRow.event := by
  rw [undeliveredEvents_eq]
  exact (List.take_prefix 100 _).map _

/-- Appending rows extends the queue at its end. -/
theorem queue_of_grown {db db' : Db} (h : Grown db db') (maxAttempts : ℕ) :
    db.queue maxAttempts <+: db'.queue maxAttempts := by
  rcases h with ⟨extra, h⟩
  rw [Db.queue, Db.queue, h, List.filter_append]
  exact List.prefix_append _ _

theorem Numbered.sorted {db : Db} (h : Numbered db) :
    db.webhookOutbox.rows.Pairwise fun a b => a.rowid < b.rowid := by
  have hlt : (db.webhookOutbox.rows.map OutboxRow.rowid).Pairwise (· < ·) := by
    rw [h]
    exact List.pairwise_lt_range'
  exact List.pairwise_map.mp hlt

theorem Numbered.bounds {db : Db} (h : Numbered db) {r : OutboxRow}
    (hr : r ∈ db.webhookOutbox.rows) :
    0 < r.rowid ∧ r.rowid ≤ db.webhookOutbox.rows.length := by
  have hmem : r.rowid ∈ List.range' 1 db.webhookOutbox.rows.length :=
    h ▸ List.mem_map_of_mem hr
  rw [List.mem_range'_1] at hmem
  omega

/-- The head of the queue is first in line. -/
theorem firstInLine_of_queue {db : Db} {maxAttempts : ℕ} {row : OutboxRow}
    {rest : List OutboxRow} (hn : Numbered db) (hq : db.queue maxAttempts = row :: rest) :
    FirstInLine maxAttempts db row.event := by
  rcases List.filter_eq_cons_iff.mp hq with ⟨before, after, hrows, hbefore, hrow, -⟩
  refine ⟨row, by simp [hrows], rfl, by simpa using hrow, fun row' hrow' hlt => ?_⟩
  have hsorted := hn.sorted
  rw [hrows] at hrow' hsorted
  rcases List.mem_append.mp hrow' with hmem | hmem
  · simpa using hbefore row' hmem
  · -- the head itself and the rows after it have no smaller rowid
    rcases List.mem_cons.mp hmem with rfl | hmem
    · omega
    · have hafter := (List.pairwise_append.mp hsorted).2.1
      have := (List.pairwise_cons.mp hafter).1 row' hmem
      omega

/-! ## What an operation does to the outbox -/

section Steps
variable {h h' : Host}

/-- What the tasks other than the dispatcher do to the outbox: append events. -/
theorem appended_of_background {q : StoreOp} {r : Except StoreError q.Res}
    (hq : Op.Background (.store q)) (hp : q.perform h = (r, h')) :
    ∃ event now, h'.db.webhookOutbox.rows =
      h.db.webhookOutbox.rows ++ Db.eventRows h.db.webhookOutbox now event := by
  have hsame : h'.db.webhookOutbox = h.db.webhookOutbox →
      ∃ event now, h'.db.webhookOutbox.rows =
        h.db.webhookOutbox.rows ++ Db.eventRows h.db.webhookOutbox now event := by
    intro hdb
    exact ⟨none, 0, by rw [hdb, Db.eventRows, List.append_nil]⟩
  cases q with
  | applyTransition k src dst event now =>
      rcases Host.commit_cases hp with rfl | ⟨b, db', hok, rfl⟩
      · exact hsame rfl
      rcases Db.applyTransition_ok hok with ⟨-, rfl⟩ | ⟨-, -, r, T, O, -, -, rfl, -, hO⟩
      · exact hsame rfl
      · exact ⟨event, now, hO⟩
  | applyPaymentTransition k src dst event now =>
      rcases Host.commit_cases hp with rfl | ⟨b, db', hok, rfl⟩
      · exact hsame rfl
      rcases Db.applyPaymentTransition_ok hok with ⟨-, rfl⟩ | ⟨-, -, r, T, O, -, -, rfl, -, hO⟩
      · exact hsame rfl
      · exact ⟨event, now, hO⟩
  | undeliveredEvents n | recordAttempt k next | markDelivered k now => exact hq.elim
  | _ => exact hsame ((StoreOp.frame hp).webhookOutbox (by simp [StoreOp.writes]))

/-- A change of one outbox row that keeps its rowid and never unresolves it. -/
structure Bookkeeping (f : OutboxRow → OutboxRow) : Prop where
  id : ∀ r, (f r).id = r.id
  rowid : ∀ r, (f r).rowid = r.rowid
  resolved : ∀ n r, r.resolved n = true → (f r).resolved n = true

theorem bookkeeping_attempt (next : ℤ) :
    Bookkeeping fun r => { r with attempts := r.attempts + 1, nextAttemptAt := next } := by
  refine ⟨fun _ => rfl, fun _ => rfl, fun n r h => ?_⟩
  simp only [OutboxRow.resolved, Bool.or_eq_true, decide_eq_true_eq] at h ⊢
  exact h.imp id fun h => by omega

theorem bookkeeping_delivered (now : ℤ) :
    Bookkeeping fun r => { r with deliveredAt := some now } :=
  ⟨fun _ => rfl, fun _ => rfl, fun _ _ _ => rfl⟩

/-- What the dispatcher does to the outbox: bookkeeping of one row. -/
theorem kept_of_delivery {q : StoreOp} {r : Except StoreError q.Res}
    (hq : Op.Delivery (.store q)) (hp : q.perform h = (r, h')) :
    ∃ k f, Bookkeeping f ∧
      h'.db.webhookOutbox.rows = Table.replace OutboxRow.id k f h.db.webhookOutbox.rows := by
  cases q with
  | recordAttempt k next =>
      cases hp
      exact ⟨k, _, bookkeeping_attempt next, rfl⟩
  | markDelivered k now =>
      cases hp
      exact ⟨k, _, bookkeeping_delivered now, rfl⟩
  | undeliveredEvents n =>
      cases hp
      refine ⟨0, id, ⟨fun _ => rfl, fun _ => rfl, fun _ _ h => h⟩, ?_⟩
      simp [Table.replace]
  | _ => exact hq.elim

/-- Either way the rowids stay those SQLite gives out. -/
theorem numbered_step {q : StoreOp} {r : Except StoreError q.Res}
    (hq : Op.Background (.store q) ∨ Op.Delivery (.store q)) (hp : q.perform h = (r, h'))
    (hn : Numbered h.db) : Numbered h'.db := by
  rcases hq with hq | hq
  · rcases appended_of_background hq hp with ⟨event, now, hrows⟩
    rw [Numbered, hrows]
    cases event with
    | none =>
        rw [Db.eventRows, List.append_nil]
        exact hn
    | some e =>
        simp only [Db.eventRows, Db.outboxRow, List.map_append, List.length_append,
          List.map_cons, List.map_nil, List.length_cons, List.length_nil]
        rw [hn, List.range'_1_concat, Nat.add_comm 1]
  · rcases kept_of_delivery hq hp with ⟨k, f, hf, hrows⟩
    have hmap : (Table.replace OutboxRow.id k f h.db.webhookOutbox.rows).map OutboxRow.rowid =
        h.db.webhookOutbox.rows.map OutboxRow.rowid := by
      rw [Table.replace, List.map_map]
      refine List.map_congr_left fun a _ => ?_
      by_cases hk : a.id = k <;> simp [hk, hf.rowid]
    rw [Numbered, hrows, hmap, Table.length_replace]
    exact hn

end Steps

/-! ## The outline -/

/-- Only the dispatcher keeps the books and posts; it relies on the other tasks to
append. -/
def deliveryOutline (cfg : Config) : Pool.Outline (system cfg) where
  cond _ := True
  inv h := Numbered h.db
  rely i h h' := i = 0 → Grown h.db h'.db
  guar i h o _ _ := (o.Background ∨ i = 0 ∧ o.Delivery) ∧
    ∀ ev, o = .post ev → FirstInLine cfg.webhook.maxAttempts.toNat h.db ev
  rely_refl _ h _ := Grown.refl h.db
  rely_trans _ _ _ _ h₁ h₂ hi := (h₁ hi).trans (h₂ hi)
  act_ok := by
    intro w i h o r h' hn hp hg
    by_cases ho : ∃ q, o = .store q
    · rcases ho with ⟨q, rfl⟩
      rcases perform_store hp with ⟨-, rfl⟩ | hq
      · exact ⟨hn, fun j _ _ => Grown.refl _⟩
      · refine ⟨numbered_step (hg.1.imp id And.right) hq hn, fun j hj hj0 => ?_⟩
        rcases hg.1 with hb | ⟨hi0, -⟩
        · rcases appended_of_background hb hq with ⟨event, now, hrows⟩
          exact ⟨_, hrows⟩
        · exact absurd (hj0.trans hi0.symm) hj
    · have hdb : h'.db = h.db := db_perform hp fun q hq => ho ⟨q, hq⟩
      rw [hdb]
      exact ⟨hn, fun j _ _ => Grown.refl _⟩
  drift_ok := by
    intro w h h' hn hd _
    cases hd
    exact ⟨hn, fun _ _ => Grown.refl _⟩
  reset_ok := fun hn => hn

/-! ## The dispatcher keeps the outline -/

section Dispatcher
open Pool
variable {cfg : Config} {h : Host}

/-- Delivering the head of the queue leaves the rest of it. -/
theorem queue_markDelivered {db : Db} {maxAttempts : ℕ} {row : OutboxRow}
    {rest : List OutboxRow} (hq : db.queue maxAttempts = row :: rest) (now : ℤ) :
    (db.markDelivered row.id now).queue maxAttempts = rest := by
  have hdrop : (db.markDelivered row.id now).queue maxAttempts =
      (db.queue maxAttempts).filter fun r => r.id ≠ row.id :=
    Table.filter_replace fun r => by simp [OutboxRow.resolved]
  have hsub : (row :: rest).Pairwise fun a b => ¬ a.Clash b := by
    rw [← hq]
    exact db.webhookOutbox.unique.sublist List.filter_sublist
  rw [hdrop, hq, List.filter_cons_of_neg (by simp), List.filter_eq_self]
  intro r hr
  have hne := (List.pairwise_cons.mp hsub).1 r hr
  exact decide_eq_true (Ne.symm hne)

theorem prefix_map_cons {α β : Type} {f : α → β} {x : β} {xs : List β} {l : List α}
    (h : x :: xs <+: l.map f) : ∃ a l', l = a :: l' ∧ f a = x ∧ xs <+: l'.map f := by
  cases l with
  | nil => simp at h
  | cons a l =>
      rw [List.map_cons, List.cons_prefix_cons] at h
      exact ⟨a, l, rfl, h.1.symm, h.2⟩

/-- The posts of a pass are the queue's, as long as what is left of its list is a
prefix of the queue. -/
theorem wp_dispatchAll (now : ℤ) (evs : List OutboxEvent) (report : DispatchReport)
    (hq : evs <+: (h.db.queue cfg.webhook.maxAttempts.toNat).map OutboxRow.event) :
    (deliveryOutline cfg).wp 0 (dispatchAll cfg.webhook now evs report).run
      (fun _ _ => True) h := by
  induction evs generalizing report h with
  | nil => exact fun _ _ _ => trivial
  | cons ev evs ih =>
      rw [dispatchAll]
      split
      · exact fun _ _ _ => trivial
      refine Outline.wp_bindE (Outline.wp_bind (Outline.wp_perform ?_))
      intro h₁ hgrow hn w answer h₂ hpost _
      -- the other tasks have only extended the queue since the list was read
      have hq₁ := hq.trans ((queue_of_grown (hgrow rfl) _).map OutboxRow.event)
      rcases prefix_map_cons hq₁ with ⟨row, rest, hqueue, hrow, hevs⟩
      have hdb₂ : h₂.db = h₁.db := db_perform (o := .post ev) hpost (by simp)
      refine ⟨⟨Or.inr ⟨rfl, trivial⟩, fun ev' hev => ?_⟩, fun h₃ hgrow₃ _ => ?_⟩
      · cases hev
        rw [← hrow]
        exact firstInLine_of_queue hn hqueue
      have hgrown₃ : Grown h₁.db h₃.db := hdb₂ ▸ hgrow₃ rfl
      cases answer with
      | error e =>
          -- a failed post ends the pass, whatever comes of its bookkeeping
          refine fun h₄ _ _ => Outline.wp_bindE (Outline.wp_perform ?_)
          intro h₅ _ _ w' r h₆ _ _
          refine ⟨⟨Or.inr ⟨rfl, trivial⟩, by simp⟩, fun h₇ _ _ => ?_⟩
          cases r <;> exact fun _ _ _ => trivial
      | ok _ =>
          refine fun h₄ hgrow₄ _ => Outline.wp_bindE (Outline.wp_perform ?_)
          intro h₅ hgrow₅ _ w' r h₆ hmark _
          refine ⟨⟨Or.inr ⟨rfl, trivial⟩, by simp⟩, fun h₇ hgrow₇ _ => ?_⟩
          cases r with
          | error e => exact fun _ _ _ => trivial
          | ok _ =>
              refine ih _ ?_
              have hgrown₅ := (hgrown₃.trans (hgrow₄ rfl)).trans (hgrow₅ rfl)
              rcases perform_store hmark with ⟨herr, -⟩ | hdone
              · cases herr
              have hdb₆ : h₆.db = h₅.db.markDelivered row.id now := by
                rw [← hrow] at hdone
                exact congrArg (fun x => x.2.db) hdone.symm
              -- the head that was posted is still the head that is marked
              rcases queue_of_grown hgrown₅ cfg.webhook.maxAttempts.toNat with ⟨more, hmore⟩
              rw [hqueue, List.cons_append] at hmore
              have hq₆ := queue_markDelivered hmore.symm now
              rw [← hdb₆] at hq₆
              have hq₇ := queue_of_grown (hgrow₇ rfl) cfg.webhook.maxAttempts.toNat
              rw [hq₆] at hq₇
              exact hevs.trans (((List.prefix_append rest more).trans hq₇).map OutboxRow.event)

theorem wp_dispatchDue (now : ℤ) :
    (deliveryOutline cfg).wp 0 (dispatchDue cfg.webhook now).run (fun _ _ => True) h := by
  refine Outline.wp_bindE (Outline.wp_perform ?_)
  intro h₁ _ _ w r h₂ hread _
  refine ⟨⟨Or.inr ⟨rfl, trivial⟩, by simp⟩, fun h₃ hgrow _ => ?_⟩
  cases r with
  | error e => exact fun _ _ _ => trivial
  | ok evs =>
      rcases perform_store hread with ⟨herr, -⟩ | hdone
      · cases herr
      have hhost : h₂ = h₁ := congrArg Prod.snd hdone.symm
      have hevs : evs = h₁.db.undeliveredEvents cfg.webhook.maxAttempts.toNat :=
        Except.ok.inj (congrArg Prod.fst hdone.symm)
      refine wp_dispatchAll now evs {} ?_
      rw [hevs]
      have hq := queue_of_grown (hgrow rfl) cfg.webhook.maxAttempts.toNat
      rw [hhost] at hq
      exact (undeliveredEvents_queue _ _).trans (hq.map OutboxRow.event)

theorem wp_dispatcher (passes : ℕ) :
    (deliveryOutline cfg).wp 0 (dispatcher cfg.webhook passes) (fun _ _ => True) h := by
  induction passes generalizing h with
  | zero => exact fun _ _ _ => trivial
  | succ passes ih =>
      refine Outline.wp_bind (Outline.wp_perform ?_)
      intro h₁ _ _ w t h₂ _ _
      refine ⟨⟨Or.inr ⟨rfl, trivial⟩, by simp⟩, fun h₃ _ _ => ?_⟩
      exact Outline.wp_bind (Outline.wp_mono (wp_dispatchDue t) fun _ _ _ _ => ih)

/-- A background task keeps the outline whichever thread runs it. -/
theorem wp_background {p : Proc Effects Unit} (hp : p.Uses Op.Background) (i : ℕ) :
    (deliveryOutline cfg).wp i p (fun _ _ => True) h := by
  refine Outline.wp_of_uses hp ?_ h
  intro w s o r s' ho _ _ _
  refine ⟨Or.inl ho, fun ev hev => ?_⟩
  subst hev
  exact ho.elim

variable {hist : List (Event Effects Host)} {c : Pool.Config Effects Host}

/-- Every event of a run keeps the outline. -/
theorem delivery_kept (run : (system cfg).Run initial hist c) :
    Numbered c.shared.db ∧ ∀ e ∈ hist, (deliveryOutline cfg).Kept e := by
  suffices hsound : (deliveryOutline cfg).inv c.shared ∧ (deliveryOutline cfg).Threads c ∧
      ∀ e ∈ hist, (deliveryOutline cfg).Kept e from ⟨hsound.1, hsound.2.2⟩
  refine Outline.sound run ?_ ?_ rfl ?_ fun _ _ => trivial
  · rintro h ps hn ⟨attempts, passes, rfl⟩ i p hi
    match i with
    | 0 =>
        cases hi
        exact wp_dispatcher passes
    | 1 =>
        cases hi
        exact wp_background (startup_uses cfg attempts) 1
    | i + 2 => cases hi
  · intro h p j _ hp
    exact wp_background (Task.uses hp) j
  · intro i p hi
    cases hi

end Dispatcher

/-! ## Runs -/

section Runs
open Pool
variable {cfg : Config} {hist : List (Event Effects Host)} {c : Pool.Config Effects Host}

/-- The event is a POST of `ev`. -/
def Posts (ev : OutboxEvent) (e : Event Effects Host) : Prop :=
  ∃ i r, e.label = .act i (.post ev) r

/-- The rowid of the outbox row that is posted. -/
def postedRowid (e : Event Effects Host) : Option ℕ :=
  match e.label with
  | .act _ (.post ev) _ => (e.pre.db.webhookOutbox.get? OutboxRow.id ev.id).map OutboxRow.rowid
  | _ => none

theorem firstInLine_of_posts (run : (system cfg).Run initial hist c) {e : Event Effects Host}
    (he : e ∈ hist) {ev : OutboxEvent} (hp : Posts ev e) :
    FirstInLine cfg.webhook.maxAttempts.toNat e.pre.db ev := by
  rcases hp with ⟨i, r, hlabel⟩
  have hkept := ((delivery_kept run).2 e he).2.2
  rw [hlabel] at hkept
  exact hkept.2 ev rfl

theorem numbered_of_mem (run : (system cfg).Run initial hist c) {e : Event Effects Host}
    (he : e ∈ hist) : Numbered e.pre.db :=
  ((delivery_kept run).2 e he).1

/-- A posted rowid is that of the first unresolved row. -/
theorem row_of_postedRowid (run : (system cfg).Run initial hist c) {e : Event Effects Host}
    (he : e ∈ hist) {a : ℕ} (ha : postedRowid e = some a) :
    ∃ row ∈ e.pre.db.webhookOutbox.rows, row.rowid = a ∧
      row.resolved cfg.webhook.maxAttempts.toNat = false ∧
      ∀ row' ∈ e.pre.db.webhookOutbox.rows, row'.rowid < a →
        row'.resolved cfg.webhook.maxAttempts.toNat = true := by
  unfold postedRowid at ha
  split at ha
  · next i ev r hlabel =>
    rcases firstInLine_of_posts run he ⟨i, r, hlabel⟩ with ⟨row, hrow, hev, hlive, hfirst⟩
    have hget : e.pre.db.webhookOutbox.get? OutboxRow.id ev.id = some row :=
      (Table.get?_eq_some OutboxRow.id fun _ _ h => h).mpr ⟨hrow, by rw [← hev]; rfl⟩
    rw [hget, Option.map_some, Option.some.injEq] at ha
    subst ha
    exact ⟨row, hrow, rfl, hlive, hfirst⟩
  · cases ha

/-- Outbox rows stay, with their rowid, and stay resolved. -/
def Settles (maxAttempts : ℕ) (db db' : Db) : Prop :=
  ∀ row ∈ db.webhookOutbox.rows, ∃ row' ∈ db'.webhookOutbox.rows, row'.id = row.id ∧
    row'.rowid = row.rowid ∧ (row.resolved maxAttempts = true → row'.resolved maxAttempts = true)

theorem Settles.refl (maxAttempts : ℕ) (db : Db) : Settles maxAttempts db db :=
  fun row hrow => ⟨row, hrow, rfl, rfl, id⟩

theorem Settles.trans {maxAttempts : ℕ} {db₁ db₂ db₃ : Db} (h₁ : Settles maxAttempts db₁ db₂)
    (h₂ : Settles maxAttempts db₂ db₃) : Settles maxAttempts db₁ db₃ := by
  intro row hrow
  rcases h₁ row hrow with ⟨row', hrow', hid, hrowid, hres⟩
  rcases h₂ row' hrow' with ⟨row'', hrow'', hid', hrowid', hres'⟩
  exact ⟨row'', hrow'', hid'.trans hid, hrowid'.trans hrowid, fun h => hres' (hres h)⟩

theorem settles_step (run : (system cfg).Run initial hist c) (maxAttempts : ℕ) :
    ∀ e ∈ hist, Settles maxAttempts e.pre.db e.post.db := by
  intro e he
  rcases lawful_cases (lawful_of_run run e he) with hdb | ⟨q, r, hq, hp⟩
  · rw [hdb]
    exact Settles.refl _ _
  intro row hrow
  rcases hq with hq | hq
  · rcases appended_of_background hq hp with ⟨event, now, hrows⟩
    exact ⟨row, by rw [hrows]; exact List.mem_append_left _ hrow, rfl, rfl, id⟩
  · rcases kept_of_delivery hq hp with ⟨k, f, hf, hrows⟩
    rw [hrows]
    by_cases hk : row.id = k
    · exact ⟨f row, Table.mem_replace.mpr (Or.inl ⟨row, hrow, hk, rfl⟩), hf.id row,
        hf.rowid row, hf.resolved maxAttempts row⟩
    · exact ⟨row, Table.mem_replace.mpr (Or.inr ⟨hrow, hk⟩), rfl, rfl, id⟩

theorem Numbered.exists_rowid {db : Db} (h : Numbered db) {k : ℕ} (h0 : 0 < k)
    (hk : k ≤ db.webhookOutbox.rows.length) :
    ∃ row ∈ db.webhookOutbox.rows, row.rowid = k := by
  have hmem : k ∈ db.webhookOutbox.rows.map OutboxRow.rowid := by
    rw [h, List.mem_range'_1]
    omega
  exact List.mem_map.mp hmem

theorem Numbered.eq_of_rowid {db : Db} (h : Numbered db) {r r' : OutboxRow}
    (hr : r ∈ db.webhookOutbox.rows) (hr' : r' ∈ db.webhookOutbox.rows)
    (heq : r.rowid = r'.rowid) : r = r' := by
  by_contra hne
  have hsym : Std.Symm fun a b : OutboxRow => a.rowid ≠ b.rowid := ⟨fun _ _ h => Ne.symm h⟩
  have hpair : db.webhookOutbox.rows.Pairwise fun a b => a.rowid ≠ b.rowid :=
    h.sorted.imp fun hlt => Nat.ne_of_lt hlt
  exact hpair.forall hr hr' hne heq

/-- Every rowid below `a` is resolved. -/
def ResolvedBelow (maxAttempts a : ℕ) (db : Db) : Prop :=
  ∀ k, 0 < k → k < a → ∃ row ∈ db.webhookOutbox.rows, row.rowid = k ∧
    row.resolved maxAttempts = true

theorem ResolvedBelow.settles {maxAttempts a : ℕ} {db db' : Db}
    (h : ResolvedBelow maxAttempts a db) (hs : Settles maxAttempts db db') :
    ResolvedBelow maxAttempts a db' := by
  intro k h0 hk
  rcases h k h0 hk with ⟨row, hrow, hid, hres⟩
  rcases hs row hrow with ⟨row', hrow', -, hrowid, hres'⟩
  exact ⟨row', hrow', hrowid.trans hid, hres' hres⟩

theorem resolvedBelow_of_posted (run : (system cfg).Run initial hist c)
    {e : Event Effects Host} (he : e ∈ hist) {a : ℕ} (ha : postedRowid e = some a) :
    ResolvedBelow cfg.webhook.maxAttempts.toNat a e.pre.db := by
  rcases row_of_postedRowid run he ha with ⟨row, hrow, rfl, -, hfirst⟩
  have hn := numbered_of_mem run he
  intro k h0 hk
  have hle := (hn.bounds hrow).2
  rcases hn.exists_rowid h0 (by omega) with ⟨row', hrow', rfl⟩
  exact ⟨row', hrow', rfl, hfirst row' hrow' hk⟩

/-- The rowids posted in a run never go down, and everything below them is resolved. -/
theorem posted_sorted (run : (system cfg).Run initial hist c) :
    (hist.filterMap postedRowid).Pairwise (· ≤ ·) ∧
      ∀ a ∈ hist.filterMap postedRowid,
        ResolvedBelow cfg.webhook.maxAttempts.toNat a c.shared.db := by
  induction run with
  | nil => simp
  | @snoc hist c l c' run hs ih =>
      rcases ih with ⟨hsorted, hbelow⟩
      have run' := run.snoc hs
      have hmem : (⟨c.shared, l, c'.shared⟩ : Event Effects Host) ∈
          hist ++ [⟨c.shared, l, c'.shared⟩] := List.mem_append_right _ (by simp)
      have hset := settles_step run' cfg.webhook.maxAttempts.toNat _ hmem
      have hbelow' := fun a ha => (hbelow a ha).settles hset
      rw [List.filterMap_append]
      cases ha : postedRowid ⟨c.shared, l, c'.shared⟩ with
      | none => simpa [ha] using ⟨hsorted, by simpa using hbelow'⟩
      | some a =>
          have hnew := (resolvedBelow_of_posted run' hmem ha).settles hset
          rw [List.filterMap_cons_some ha, List.filterMap_nil]
          refine ⟨List.pairwise_append.mpr ⟨hsorted, by simp, fun b hb x hx => ?_⟩, ?_⟩
          · rw [List.mem_singleton.mp hx]
            -- the posted row is unresolved, so it is not below an earlier post
            rcases row_of_postedRowid run' hmem ha with ⟨row, hrow, hrowid, hlive, -⟩
            by_contra hlt
            have hn := numbered_of_mem run' hmem
            have h0 := (hn.bounds hrow).1
            rcases hbelow b hb a (hrowid ▸ h0) (by omega) with ⟨row', hrow', hid', hres'⟩
            have hsame := hn.eq_of_rowid hrow' hrow (hid'.trans hrowid.symm)
            rw [hsame, hlive] at hres'
            cases hres'
          · intro b hb
            rcases List.mem_append.mp hb with hb | hb
            · exact hbelow' b hb
            · rw [List.mem_singleton.mp hb]
              exact hnew

/-- **First in, first out.**  In every run, a POST is of the first unresolved event;
the rowids posted never go down; and an event once delivered or parked is not
posted again. -/
theorem delivery_order (cfg : Config) {hist₁ hist₂ : List (Event Effects Host)}
    {c₁ c₂ : Pool.Config Effects Host} (run₁ : (system cfg).Run initial hist₁ c₁)
    (run₂ : (system cfg).Run c₁ hist₂ c₂) :
    (∀ e ∈ hist₁ ++ hist₂, ∀ ev, Posts ev e →
        FirstInLine cfg.webhook.maxAttempts.toNat e.pre.db ev) ∧
      ((hist₁ ++ hist₂).filterMap postedRowid).Pairwise (· ≤ ·) ∧
      ∀ row ∈ c₁.shared.db.webhookOutbox.rows,
        row.resolved cfg.webhook.maxAttempts.toNat = true →
          ∀ e ∈ hist₂, ∀ ev, Posts ev e → ev.id ≠ row.id := by
  have run := run₁.append run₂
  refine ⟨fun e he ev hp => firstInLine_of_posts run he hp, (posted_sorted run).1, ?_⟩
  intro row hrow hres e he ev hp hid
  have hset := run₂.within_pre (R := fun h h' => Settles cfg.webhook.maxAttempts.toNat h.db h'.db)
    (fun _ => Settles.refl _ _) (fun _ _ _ => Settles.trans)
    (fun e he => settles_step run _ e (List.mem_append_right _ he)) e he
  rcases hset row hrow with ⟨row₁, hrow₁, hid₁, -, hres₁⟩
  rcases firstInLine_of_posts run (List.mem_append_right _ he) hp with
    ⟨row₂, hrow₂, hev, hlive, -⟩
  have hid₂ : row₂.id = ev.id := by rw [← hev]; rfl
  have hsame : row₁ = row₂ :=
    e.pre.db.webhookOutbox.eq_of_clash hrow₁ hrow₂ (hid₁.trans (hid.symm.trans hid₂.symm))
  rw [← hsame, hres₁ hres] at hlive
  cases hlive

/-- Two keysends fail and are announced, and then the dispatcher moves. -/
def keysendsFailed (cfg : Config) (worlds : List World) : List (Move (system cfg)) :=
  let failed (hash : String) : World := .of (.answering .keysend ⟨some hash, .failed⟩)
  .boot [dispatcher cfg.webhook 2, startup cfg 0] ::
    .start (keysend (some ⟨"peer", 1, none, none⟩)) ::
    (List.replicate 5 (.act 2 (failed "h₁")) ++
      .start (keysend (some ⟨"peer", 2, none, none⟩)) ::
      (List.replicate 5 (.act 3 (failed "h₂")) ++ worlds.map (Move.act (P := system cfg) 0)))

theorem keysendsFailed_admitted (cfg : Config) (worlds : List World) :
    Admitted (keysendsFailed cfg worlds) := by
  refine ⟨⟨0, 2, rfl⟩, .keysend _, admitted_append.mpr ⟨admitted_replicate trivial, ?_⟩⟩
  refine ⟨.keysend _, admitted_append.mpr ⟨admitted_replicate trivial, ?_⟩⟩
  exact admitted_acts (P := system cfg) 0 worlds

/-- The endpoint refuses the first event.  A second pass delivers it, if it is due again. -/
def deliverySchedule (cfg : Config) : List (Move (system cfg)) :=
  let answers (post : Except String Unit) (clock : ℤ) : World :=
    .of { Env.silent with post := fun _ => post, clock }
  keysendsFailed cfg (List.replicate 4 (answers (.error "status 500") 100) ++
    List.replicate 4 (answers (.ok ()) 102))

theorem deliverySchedule_admitted (cfg : Config) : Admitted (deliverySchedule cfg) :=
  keysendsFailed_admitted cfg _

theorem deliverySchedule_plays :
    ((system defaults).play (deliverySchedule defaults) initial).isSome := rfl

/-- What that leaves: one event delivered, and one to deliver. -/
def delivered : Pool.Config Effects Host :=
  (((system defaults).play (deliverySchedule defaults) initial).get deliverySchedule_plays).1

/-- The pass goes on to the other event. -/
def passEnd : List (Move (system defaults)) := List.replicate 2 (.act 0 (.of .silent))

theorem passEnd_admitted : Admitted passEnd := admitted_replicate trivial

theorem passEnd_plays : ((system defaults).play passEnd delivered).isSome := rfl

/-- The order of the posts: the first event twice, and then the second one. -/
theorem delivery_order_keysends :
    ∃ hist₁ hist₂ c, (system defaults).Run initial hist₁ delivered ∧
      (system defaults).Run delivered hist₂ c ∧
      (hist₁ ++ hist₂).filterMap postedRowid = [1, 1, 2] ∧
      (∀ e ∈ hist₁ ++ hist₂, ∀ ev, Posts ev e → FirstInLine 10 e.pre.db ev) ∧
      ∃ row ∈ delivered.shared.db.webhookOutbox.rows, row.resolved 10 = true ∧
        ∀ e ∈ hist₂, ∀ ev, Posts ev e → ev.id ≠ row.id := by
  have run₁ := run_of_isSome (deliverySchedule_admitted _) deliverySchedule_plays
  have run₂ := run_of_isSome passEnd_admitted passEnd_plays
  have horder := delivery_order _ run₁ run₂
  exact ⟨_, _, _, run₁, run₂, rfl, horder.1, _, List.mem_cons_self, rfl,
    horder.2.2 _ List.mem_cons_self rfl⟩

end Runs
end Companion
