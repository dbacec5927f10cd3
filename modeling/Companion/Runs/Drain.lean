import Companion.Lib.Ghost
import Companion.Runs.Delivery
import Mathlib.Algebra.GroupWithZero.Nat
import Mathlib.Algebra.Order.BigOperators.Group.List

/-!
# The outbox drains

First in, first out says what the dispatcher posts, not that it gets anywhere: an event
whose receiver never answers stands at the head of the queue until it is parked.  What
bounds the wait is the number of attempts the events up to some row have left.  A pass
that finds the head of the queue due spends one of them, whatever the other tasks
append in the meantime; only a restart may interrupt it before the attempt is recorded.

The count of those passes is ghost state of the pool, and the bound is part of the
invariant of an outline over it.

## Main definitions

* `OutboxRow.triesLeft`, `Db.triesLeft` — the attempts left up to some row.
* `Progress`, `progress` — the passes that found the head due, and the restarts.
* `drainOutline` — every such pass pays for itself.
* `worked_off` — so many passes resolve every event up to that row.
-/

set_option autoImplicit false

namespace Companion
open Lib

/-! ## The attempts left -/

/-- The attempts left to an event up to the row `last`. -/
def OutboxRow.triesLeft (maxAttempts last : ℕ) (r : OutboxRow) : ℕ :=
  if r.rowid ≤ last ∧ r.deliveredAt = none then maxAttempts - r.attempts else 0

/-- The attempts left to all of them. -/
def Db.triesLeft (maxAttempts last : ℕ) (db : Db) : ℕ :=
  db.webhookOutbox.rows.foldr (fun r n => r.triesLeft maxAttempts last + n) 0

section Tries
variable {maxAttempts last : ℕ} {db db' : Db}

theorem triesLeft_eq_sum : db.triesLeft maxAttempts last =
    (db.webhookOutbox.rows.map (OutboxRow.triesLeft maxAttempts last)).sum := by
  rw [Db.triesLeft, List.sum_eq_foldr, List.foldr_map]

theorem triesLeft_pos_iff {r : OutboxRow} :
    0 < r.triesLeft maxAttempts last ↔ r.rowid ≤ last ∧ r.resolved maxAttempts = false := by
  cases hd : r.deliveredAt with
  | some t => simp [OutboxRow.triesLeft, OutboxRow.resolved, hd]
  | none =>
    by_cases hle : r.rowid ≤ last
    · have hleft : r.triesLeft maxAttempts last = maxAttempts - r.attempts := if_pos ⟨hle, hd⟩
      rw [hleft, Nat.sub_pos_iff_lt]
      simp [OutboxRow.resolved, hd, hle]
    · simp [OutboxRow.triesLeft, hle]

theorem triesLeft_eq_zero_iff : db.triesLeft maxAttempts last = 0 ↔
    ∀ r ∈ db.webhookOutbox.rows, r.rowid ≤ last → r.resolved maxAttempts = true := by
  rw [triesLeft_eq_sum, List.sum_eq_zero_iff, List.forall_mem_map]
  apply forall₂_congr
  intro r _
  rw [← Nat.le_zero, ← Nat.not_lt, triesLeft_pos_iff]
  simp

/-- The rows appended to the outbox come after those that were there. -/
theorem Numbered.later {extra : List OutboxRow} (hn : Numbered db')
    (hrows : db'.webhookOutbox.rows = db.webhookOutbox.rows ++ extra) :
    ∀ r ∈ extra, db.webhookOutbox.rows.length < r.rowid := by
  rw [Numbered, hrows, List.map_append, List.length_append, ← List.range'_append] at hn
  have hextra := List.append_inj_right hn (by simp)
  intro r hr
  have hmem := List.mem_map_of_mem (f := OutboxRow.rowid) hr
  rw [hextra, List.mem_range'_1] at hmem
  omega

/-- They are none of those counted. -/
theorem triesLeft_grown (hg : Grown db db') (hn : Numbered db')
    (hlast : last ≤ db.webhookOutbox.rows.length) :
    db'.triesLeft maxAttempts last = db.triesLeft maxAttempts last := by
  obtain ⟨extra, hrows⟩ := hg
  have hnew : ∀ r ∈ extra, r.triesLeft maxAttempts last = 0 := by
    intro r hr
    have hlater := hn.later hrows r hr
    rw [OutboxRow.triesLeft, if_neg (by omega)]
  have hzero : (extra.map (OutboxRow.triesLeft maxAttempts last)).sum = 0 := by
    apply List.sum_eq_zero
    simpa using hnew
  rw [triesLeft_eq_sum, triesLeft_eq_sum, hrows, List.map_append, List.sum_append, hzero,
    Nat.add_zero]

/-- Bookkeeping of a row leaves no more attempts than there were. -/
theorem triesLeft_replace {k : ℕ} {f : OutboxRow → OutboxRow}
    (hf : ∀ r, (f r).triesLeft maxAttempts last ≤ r.triesLeft maxAttempts last - 1)
    (hrows : db'.webhookOutbox.rows = Table.replace OutboxRow.id k f db.webhookOutbox.rows) :
    db'.triesLeft maxAttempts last ≤ db.triesLeft maxAttempts last := by
  rw [triesLeft_eq_sum, triesLeft_eq_sum, hrows, Table.replace, List.map_map]
  apply List.sum_le_sum
  intro r _
  by_cases hk : r.id = k <;> simp [hk, Nat.le_trans (hf r) (Nat.sub_le _ _)]

/-- Bookkeeping of the head of the queue leaves fewer, when there are any. -/
theorem triesLeft_head {row : OutboxRow} {rest : List OutboxRow} {f : OutboxRow → OutboxRow}
    (hn : Numbered db) (hq : db.queue maxAttempts = row :: rest)
    (hf : ∀ r, (f r).triesLeft maxAttempts last ≤ r.triesLeft maxAttempts last - 1)
    (hrows : db'.webhookOutbox.rows = Table.replace OutboxRow.id row.id f db.webhookOutbox.rows)
    (hpos : 0 < db.triesLeft maxAttempts last) :
    db'.triesLeft maxAttempts last < db.triesLeft maxAttempts last := by
  have hmem : row ∈ db.queue maxAttempts := by simp [hq]
  have hrow := List.mem_filter.mp hmem
  -- some event with attempts left is in the queue, so the head is as old
  have hold : ∃ r ∈ db.webhookOutbox.rows, 0 < r.triesLeft maxAttempts last := by
    by_contra hnone
    have hzero : db.triesLeft maxAttempts last = 0 := by
      rw [triesLeft_eq_sum]
      apply List.sum_eq_zero
      simpa using hnone
    omega
  obtain ⟨r, hr, hleft⟩ := hold
  have hlive := triesLeft_pos_iff.mp hleft
  have hle : row.rowid ≤ r.rowid := by
    have hrq : r ∈ row :: rest := hq ▸ List.mem_filter.mpr ⟨hr, by simp [hlive.2]⟩
    have hsorted := hn.sorted.sublist (List.filter_sublist (p := fun r => !r.resolved maxAttempts))
    rw [← Db.queue, hq, List.pairwise_cons] at hsorted
    cases List.mem_cons.mp hrq with
    | inl h => rw [h]
    | inr h => exact Nat.le_of_lt (hsorted.1 r h)
  have hhead : 0 < row.triesLeft maxAttempts last :=
    triesLeft_pos_iff.mpr ⟨Nat.le_trans hle hlive.1, by simpa using hrow.2⟩
  rw [triesLeft_eq_sum, triesLeft_eq_sum, hrows, Table.replace, List.map_map]
  apply List.sum_lt_sum
  · intro a _
    by_cases hk : a.id = row.id <;> simp [hk, Nat.le_trans (hf a) (Nat.sub_le _ _)]
  · have hless := hf row
    exact ⟨row, hrow.1, by simp; omega⟩

theorem triesLeft_attempt (next : ℤ) (r : OutboxRow) :
    ({ r with attempts := r.attempts + 1, nextAttemptAt := next } : OutboxRow).triesLeft
      maxAttempts last ≤ r.triesLeft maxAttempts last - 1 := by
  simp only [OutboxRow.triesLeft]
  split <;> omega

theorem triesLeft_delivered (now : ℤ) (r : OutboxRow) :
    ({ r with deliveredAt := some now } : OutboxRow).triesLeft maxAttempts last ≤
      r.triesLeft maxAttempts last - 1 := by
  simp [OutboxRow.triesLeft]

end Tries

/-! ## The passes that count -/

/-- How far the dispatcher has come: the time of its pass, the passes that found the head of
the queue due, and the restarts. -/
structure Progress where
  now : ℤ := 0
  due : ℕ := 0
  restarts : ℕ := 0

/-- The event at the head of what was read is due. -/
def headDue (now : ℤ) : Except StoreError (List OutboxEvent) → Bool
  | .ok (ev :: _) => decide (ev.nextAttemptAt ≤ now)
  | _ => false

/-- What the dispatcher, which is thread 0, has just been told. -/
def Progress.told (g : Progress) : (o : Op) → o.Res → Progress
  | .clock, t => { g with now := t }
  | .store (.undeliveredEvents _), r => if headDue g.now r then { g with due := g.due + 1 } else g
  | _, _ => g

/-- The progress of the dispatcher. -/
def progress : Pool.Ghost Effects Progress where
  act g i o r := if i = 0 then g.told o r else g
  boot g := { g with restarts := g.restarts + 1 }

/-- The passes of a history that found the head of the queue due. -/
def duePasses (hist : List (Pool.Event Effects Host)) : ℕ := (progress.after {} hist).due

/-- The restarts in a history. -/
def restarts (hist : List (Pool.Event Effects Host)) : ℕ := (progress.after {} hist).restarts

/-- The database refuses the dispatcher an operation. -/
def storeRefused (e : Pool.Event Effects Host) : Bool :=
  match e.label with
  | .act 0 (.store _) (.error _) => true
  | _ => false

/-! ## The outline -/

section Outline
open Pool

/-- The passes so far are paid for: by the attempts already spent, by the restarts, and by
what is still owed. -/
def Paid (maxAttempts last budget owed : ℕ) (x : Host × Progress) : Prop :=
  0 < x.1.db.triesLeft maxAttempts last →
    x.1.db.triesLeft maxAttempts last + x.2.due ≤ budget + x.2.restarts + owed

section Steps
variable {cfg : Config} {last budget : ℕ} {x x' : Host × Progress}

/-- The invariant: the row `last` is in the outbox, and at most one pass is not paid for. -/
def Solvent (cfg : Config) (last budget : ℕ) (x : Host × Progress) : Prop :=
  Numbered x.1.db ∧ last ≤ x.1.db.webhookOutbox.rows.length ∧
    Paid cfg.webhook.maxAttempts.toNat last budget 1 x

/-- What the dispatcher relies on: the others append, and spend nothing. -/
def Unspent (cfg : Config) (last : ℕ) (x x' : Host × Progress) : Prop :=
  Grown x.1.db x'.1.db ∧ x'.2 = x.2 ∧
    x'.1.db.triesLeft cfg.webhook.maxAttempts.toNat last =
      x.1.db.triesLeft cfg.webhook.maxAttempts.toNat last

theorem Unspent.refl (x : Host × Progress) : Unspent cfg last x x :=
  ⟨Grown.refl x.1.db, rfl, rfl⟩

theorem Unspent.trans {x₁ x₂ x₃ : Host × Progress} (h₁ : Unspent cfg last x₁ x₂)
    (h₂ : Unspent cfg last x₂ x₃) : Unspent cfg last x₁ x₃ :=
  ⟨h₁.1.trans h₂.1, h₂.2.1.trans h₁.2.1, h₂.2.2.trans h₁.2.2⟩

/-- An operation that pays keeps the invariant, and the dispatcher may rely on those of the
others. -/
theorem solvent_act {w : World} {i : ℕ} {o : Op} {r : o.Res} (hinv : Solvent cfg last budget x)
    (hp : ((system cfg).ghost progress).perform w i o x = some (r, x'))
    (ho : o.Background ∨ i = 0 ∧ o.Delivery)
    (hpaid : Paid cfg.webhook.maxAttempts.toNat last budget 1 x') :
    Solvent cfg last budget x' ∧ ∀ j, j ≠ i → j = 0 → Unspent cfg last x x' := by
  obtain ⟨hn, hlast, -⟩ := hinv
  obtain ⟨hp, hghost⟩ := ghost_perform hp
  have hother : ∀ j, j ≠ i → j = 0 → x'.2 = x.2 := by
    intro j hj h0
    simp [hghost, progress, show i ≠ 0 by omega]
  by_cases hstore : ∃ q, o = .store q
  · obtain ⟨q, rfl⟩ := hstore
    obtain ⟨-, hsame⟩ | hq := perform_store hp
    · rw [Solvent, Unspent, hsame]
      exact ⟨⟨hn, hlast, hpaid⟩, fun j hj h0 => ⟨Grown.refl _, hother j hj h0, rfl⟩⟩
    have hn' := numbered_step (ho.imp id And.right) hq hn
    cases ho with
    | inl hb =>
      obtain ⟨event, now, hrows⟩ := appended_of_background hb hq
      have hgrown : Grown x.1.db x'.1.db := ⟨_, hrows⟩
      have hlast' : last ≤ x'.1.db.webhookOutbox.rows.length := by
        rw [hrows, List.length_append]
        omega
      refine ⟨⟨hn', hlast', hpaid⟩, fun j hj h0 => ?_⟩
      exact ⟨hgrown, hother j hj h0, triesLeft_grown hgrown hn' hlast⟩
    | inr hd =>
      obtain ⟨k, f, -, hrows⟩ := kept_of_delivery hd.2 hq
      refine ⟨⟨hn', by simpa [hrows] using hlast, hpaid⟩, fun j hj h0 => ?_⟩
      exact absurd (h0.trans hd.1.symm) hj
  · have hdb : x'.1.db = x.1.db := db_perform hp fun q hq => hstore ⟨q, hq⟩
    rw [Solvent, Unspent, hdb]
    exact ⟨⟨hn, hlast, hpaid⟩, fun j hj h0 => ⟨Grown.refl _, hother j hj h0, rfl⟩⟩

theorem unspent_drift {w : World} (hinv : Solvent cfg last budget x)
    (hd : ((system cfg).ghost progress).drift w x = some x') :
    Solvent cfg last budget x' ∧ Unspent cfg last x x' := by
  obtain ⟨hd, hghost⟩ := ghost_drift hd
  have hdb : x'.1.db = x.1.db := (congrArg Host.db (Option.some.inj hd)).symm
  rw [Solvent, Paid, Unspent, hdb, hghost]
  exact ⟨hinv, Grown.refl _, rfl, rfl⟩

/-- A restart pays for the pass it interrupts. -/
theorem paid_reset (hinv : Solvent cfg last budget x) :
    Paid cfg.webhook.maxAttempts.toNat last budget 0 (((system cfg).ghost progress).reset x) := by
  intro hpos
  have hpaid := hinv.2.2 hpos
  change x.1.db.triesLeft cfg.webhook.maxAttempts.toNat last + x.2.due ≤
    budget + (x.2.restarts + 1)
  omega

theorem Paid.weaken {n owed owed' : ℕ} (h : Paid n last budget owed x) (hle : owed ≤ owed') :
    Paid n last budget owed' x :=
  fun hpos => Nat.le_trans (h hpos) (Nat.add_le_add_left hle _)

end Steps

/-- Every pass that finds the head of the queue due pays for itself, unless it is
interrupted. -/
def drainOutline (cfg : Config) (last budget : ℕ) :
    Outline ((system cfg).ghost progress) where
  cond e := storeRefused e.plain = false
  inv := Solvent cfg last budget
  rely i x x' := i = 0 → Unspent cfg last x x'
  guar i _ o _ x' := (o.Background ∨ i = 0 ∧ o.Delivery) ∧
    Paid cfg.webhook.maxAttempts.toNat last budget 1 x'
  rely_refl _ x _ := Unspent.refl x
  rely_trans _ _ _ _ h₁ h₂ hi := (h₁ hi).trans (h₂ hi)
  act_ok hinv hp hg := solvent_act hinv hp hg.1 hg.2
  drift_ok hinv hd _ := ⟨(unspent_drift hinv hd).1, fun _ _ => (unspent_drift hinv hd).2⟩
  reset_ok hinv := ⟨hinv.1, hinv.2.1, (paid_reset hinv).weaken (Nat.le_succ 0)⟩

/-! ## The dispatcher keeps it -/

section Dispatcher
variable {cfg : Config} {last budget : ℕ} {x : Host × Progress}

/-- What is paid stays paid while the other tasks append. -/
theorem Paid.steady {n owed : ℕ} {x' : Host × Progress} (h : Paid n last budget owed x)
    (hghost : x'.2 = x.2) (hleft : x'.1.db.triesLeft n last = x.1.db.triesLeft n last) :
    Paid n last budget owed x' := by
  rw [Paid, hghost, hleft]
  exact h

/-- Bookkeeping of the head of the queue pays for the pass. -/
theorem Paid.book {n : ℕ} {x' : Host × Progress} {row : OutboxRow} {rest : List OutboxRow}
    {f : OutboxRow → OutboxRow} (h : Paid n last budget 1 x) (hn : Numbered x.1.db)
    (hq : x.1.db.queue n = row :: rest) (hghost : x'.2 = x.2)
    (hf : ∀ r, (f r).triesLeft n last ≤ r.triesLeft n last - 1)
    (hrows : x'.1.db.webhookOutbox.rows =
      Table.replace OutboxRow.id row.id f x.1.db.webhookOutbox.rows) :
    Paid n last budget 0 x' := by
  intro hpos
  have hle := triesLeft_replace hf hrows
  have hlt := triesLeft_head hn hq hf hrows (by omega)
  have hpaid := h (by omega)
  rw [hghost]
  omega

/-- The head of the queue stays there while the other tasks append. -/
theorem queue_of_unspent {x' : Host × Progress} {row : OutboxRow} {rest : List OutboxRow}
    (hr : Unspent cfg last x x')
    (hq : x.1.db.queue cfg.webhook.maxAttempts.toNat = row :: rest) : ∃ more,
      x'.1.db.queue cfg.webhook.maxAttempts.toNat = row :: (rest ++ more) := by
  obtain ⟨more, hmore⟩ := queue_of_grown hr.1 cfg.webhook.maxAttempts.toNat
  rw [hq, List.cons_append] at hmore
  exact ⟨more, hmore.symm⟩

/-- The POST of an event spends nothing yet. -/
theorem drain_post (ev : OutboxEvent)
    (hpaid : Paid cfg.webhook.maxAttempts.toNat last budget 1 x) :
    (drainOutline cfg last budget).wp 0 (post ev : Prog StoreError (Except String Unit)).run
      (fun r x' => ∃ answer, r = .ok answer ∧ Grown x.1.db x'.1.db ∧
        Paid cfg.webhook.maxAttempts.toNat last budget 1 x') x := by
  refine Outline.wp_bind (Outline.wp_perform ?_)
  intro x₁ hr₁ _ w answer x₂ hpost _
  have hr₁ := hr₁ rfl
  obtain ⟨hpost, hghost₂⟩ := ghost_perform hpost
  have hdb₂ : x₂.1.db = x₁.1.db := db_perform (o := .post ev) hpost (by simp)
  have hpaid₂ := (hpaid.steady hr₁.2.1 hr₁.2.2).steady hghost₂ (by rw [hdb₂])
  refine ⟨⟨Or.inr ⟨rfl, trivial⟩, hpaid₂⟩, fun x₃ hr₃ _ x₄ hr₄ _ => ?_⟩
  have hr₄ := (drainOutline cfg last budget).rely_trans 0 hr₃ hr₄ rfl
  have hgrown₄ : Grown x₁.1.db x₄.1.db := hdb₂ ▸ hr₄.1
  exact ⟨answer, rfl, hr₁.1.trans hgrown₄, hpaid₂.steady hr₄.2.1 hr₄.2.2⟩

/-- A refused event uses up an attempt. -/
theorem drain_recordAttempt {row : OutboxRow} {rest : List OutboxRow} (next : ℤ)
    (hq : x.1.db.queue cfg.webhook.maxAttempts.toNat = row :: rest)
    (hpaid : Paid cfg.webhook.maxAttempts.toNat last budget 1 x) :
    (drainOutline cfg last budget).wp 0 (store (.recordAttempt row.id next)).run
      (fun _ => Paid cfg.webhook.maxAttempts.toNat last budget 0) x := by
  refine Outline.wp_perform ?_
  intro x₁ hr₁ hinv₁ w r x₂ hbook hans
  have hr₁ := hr₁ rfl
  obtain ⟨hbook, hghost₂⟩ := ghost_perform hbook
  obtain ⟨herr, -⟩ | hdone := perform_store hbook
  · cases herr
    cases hans
  obtain ⟨more, hq₁⟩ := queue_of_unspent hr₁ hq
  have hpaid₂ : Paid cfg.webhook.maxAttempts.toNat last budget 0 x₂ :=
    (hpaid.steady hr₁.2.1 hr₁.2.2).book hinv₁.1 hq₁ hghost₂ (triesLeft_attempt next)
      (congrArg (fun y => y.2.db.webhookOutbox.rows) hdone).symm
  refine ⟨⟨Or.inr ⟨rfl, trivial⟩, hpaid₂.weaken (by omega)⟩, fun x₃ hr₃ _ => ?_⟩
  exact hpaid₂.steady (hr₃ rfl).2.1 (hr₃ rfl).2.2

/-- A delivered event uses up all of its attempts, and leaves the queue. -/
theorem drain_markDelivered {row : OutboxRow} {rest : List OutboxRow} (now : ℤ)
    (hq : x.1.db.queue cfg.webhook.maxAttempts.toNat = row :: rest)
    (hpaid : Paid cfg.webhook.maxAttempts.toNat last budget 1 x) :
    (drainOutline cfg last budget).wp 0 (store (.markDelivered row.id now)).run
      (fun _ x' => Paid cfg.webhook.maxAttempts.toNat last budget 0 x' ∧
        rest <+: x'.1.db.queue cfg.webhook.maxAttempts.toNat) x := by
  refine Outline.wp_perform ?_
  intro x₁ hr₁ hinv₁ w r x₂ hmark hans
  have hr₁ := hr₁ rfl
  obtain ⟨hmark, hghost₂⟩ := ghost_perform hmark
  obtain ⟨herr, -⟩ | hdone := perform_store hmark
  · cases herr
    cases hans
  obtain ⟨more, hq₁⟩ := queue_of_unspent hr₁ hq
  have hdb₂ : x₂.1.db = x₁.1.db.markDelivered row.id now :=
    (congrArg (fun y => y.2.db) hdone).symm
  have hpaid₂ : Paid cfg.webhook.maxAttempts.toNat last budget 0 x₂ :=
    (hpaid.steady hr₁.2.1 hr₁.2.2).book hinv₁.1 hq₁ hghost₂ (triesLeft_delivered now)
      (by rw [hdb₂]; rfl)
  have hq₂ : x₂.1.db.queue cfg.webhook.maxAttempts.toNat = rest ++ more := by
    rw [hdb₂]
    exact queue_markDelivered hq₁ now
  refine ⟨⟨Or.inr ⟨rfl, trivial⟩, hpaid₂.weaken (by omega)⟩, fun x₃ hr₃ _ => ?_⟩
  have hq₃ := queue_of_grown (hr₃ rfl).1 cfg.webhook.maxAttempts.toNat
  rw [hq₂] at hq₃
  exact ⟨hpaid₂.steady (hr₃ rfl).2.1 (hr₃ rfl).2.2, (List.prefix_append rest more).trans hq₃⟩

/-- What is paid is paid at the end, too. -/
theorem drain_done {α : Type} (a : α)
    (hpaid : Paid cfg.webhook.maxAttempts.toNat last budget 0 x) :
    (drainOutline cfg last budget).wp 0 (.done a)
      (fun _ => Paid cfg.webhook.maxAttempts.toNat last budget 0) x :=
  fun _ hr _ => hpaid.steady (hr rfl).2.1 (hr rfl).2.2

/-- A pass that finds the head due has it paid for at its end. -/
theorem drain_dispatchAll (now : ℤ) (evs : List OutboxEvent) (report : DispatchReport)
    (hq : evs <+: (x.1.db.queue cfg.webhook.maxAttempts.toNat).map OutboxRow.event)
    (hpaid : Paid cfg.webhook.maxAttempts.toNat last budget
      (if headDue now (.ok evs) then 1 else 0) x) :
    (drainOutline cfg last budget).wp 0 (dispatchAll cfg.webhook now evs report).run
      (fun _ => Paid cfg.webhook.maxAttempts.toNat last budget 0) x := by
  induction evs generalizing report x with
  | nil => exact drain_done _ hpaid
  | cons ev evs ih =>
    rw [dispatchAll]
    by_cases hdue : now < ev.nextAttemptAt
    · rw [if_pos hdue]
      rw [if_neg (by simpa [headDue] using hdue)] at hpaid
      exact drain_done _ hpaid
    rw [if_neg hdue]
    have hpaid : Paid cfg.webhook.maxAttempts.toNat last budget 1 x :=
      hpaid.weaken (by split <;> omega)
    refine Outline.wp_bindE (Outline.wp_mono (drain_post ev hpaid) ?_)
    rintro _ x₁ - ⟨answer, rfl, hgrown₁, hpaid₁⟩
    -- the event is at the head of the queue, and stays there until it is booked
    have hq₁ := hq.trans ((queue_of_grown hgrown₁ _).map OutboxRow.event)
    obtain ⟨row, rest, hqueue, rfl, hevs⟩ := prefix_map_cons hq₁
    cases answer with
    | error err =>
      refine Outline.wp_bindE (Outline.wp_mono (drain_recordAttempt _ hqueue hpaid₁) ?_)
      intro r x₂ _ hpaid₂
      cases r with
      | error _ | ok _ => exact drain_done _ hpaid₂
    | ok _ =>
      refine Outline.wp_bindE (Outline.wp_mono (drain_markDelivered now hqueue hpaid₁) ?_)
      rintro r x₂ - ⟨hpaid₂, hrest⟩
      cases r with
      | error _ => exact drain_done _ hpaid₂
      | ok _ => exact ih _ (hevs.trans (hrest.map OutboxRow.event)) (hpaid₂.weaken (by omega))

theorem drain_dispatchDue (hpaid : Paid cfg.webhook.maxAttempts.toNat last budget 0 x) :
    (drainOutline cfg last budget).wp 0 (dispatchDue cfg.webhook x.2.now).run
      (fun _ => Paid cfg.webhook.maxAttempts.toNat last budget 0) x := by
  refine Outline.wp_bindE (Outline.wp_perform ?_)
  intro x₁ hr₁ hinv₁ w r x₂ hread hans
  have hr₁ := hr₁ rfl
  obtain ⟨hread, hghost₂⟩ := ghost_perform hread
  obtain ⟨herr, -⟩ | hdone := perform_store hread
  · cases herr
    cases hans
  have hpaid₁ := hpaid.steady hr₁.2.1 hr₁.2.2
  have hhost : x₂.1 = x₁.1 := (congrArg Prod.snd hdone).symm
  have hevs : r = .ok (x₁.1.db.undeliveredEvents cfg.webhook.maxAttempts.toNat) :=
    (congrArg Prod.fst hdone).symm
  -- the pass is charged when it finds the head due
  have hpaid₂ : Paid cfg.webhook.maxAttempts.toNat last budget
      (if headDue x.2.now r then 1 else 0) x₂ := by
    have hcharged : x₂.2 = x₁.2.told (.store (.undeliveredEvents _)) r := hghost₂
    intro hpos
    rw [hhost] at hpos
    have hfunds := hpaid₁ hpos
    rw [hhost, hcharged, Progress.told, hr₁.2.1]
    rw [hr₁.2.1] at hfunds
    split
    · exact Nat.succ_le_succ hfunds
    · exact hfunds
  subst hevs
  refine ⟨⟨Or.inr ⟨rfl, trivial⟩, hpaid₂.weaken (by split <;> omega)⟩, fun x₃ hr₃ _ => ?_⟩
  have hr₃ := hr₃ rfl
  refine drain_dispatchAll _ _ {} ?_ (hpaid₂.steady hr₃.2.1 hr₃.2.2)
  have hq := queue_of_grown hr₃.1 cfg.webhook.maxAttempts.toNat
  rw [hhost] at hq
  exact (undeliveredEvents_queue _ _).trans (hq.map OutboxRow.event)

theorem drain_dispatcher (passes : ℕ)
    (hpaid : Paid cfg.webhook.maxAttempts.toNat last budget 0 x) :
    (drainOutline cfg last budget).wp 0 (dispatcher cfg.webhook passes) (fun _ _ => True) x := by
  induction passes generalizing x with
  | zero => exact fun _ _ _ => trivial
  | succ passes ih =>
    refine Outline.wp_bind (Outline.wp_perform ?_)
    intro x₁ hr₁ _ w t x₂ hclock _
    have hr₁ := hr₁ rfl
    obtain ⟨hclock, hghost₂⟩ := ghost_perform hclock
    have hdb₂ : x₂.1.db = x₁.1.db := db_perform (o := .clock) hclock (by simp)
    have hpaid₂ : Paid cfg.webhook.maxAttempts.toNat last budget 0 x₂ := by
      rw [Paid, hdb₂, hghost₂]
      exact hpaid.steady hr₁.2.1 hr₁.2.2
    refine ⟨⟨Or.inr ⟨rfl, trivial⟩, hpaid₂.weaken (by omega)⟩, fun x₃ hr₃ _ => ?_⟩
    have hr₃ := hr₃ rfl
    have hnow : x₃.2.now = t := by
      rw [hr₃.2.1, hghost₂]
      rfl
    have hpass := drain_dispatchDue (hpaid₂.steady hr₃.2.1 hr₃.2.2)
    rw [hnow] at hpass
    exact Outline.wp_bind (Outline.wp_mono hpass fun _ _ _ hpaid => ih hpaid)

/-- A background task does not count as a pass. -/
theorem told_background {o : Op} (ho : o.Background) (g : Progress) (r : o.Res) :
    (g.told o r).due = g.due ∧ (g.told o r).restarts = g.restarts := by
  cases o with
  | store q => cases q <;> first | exact ⟨rfl, rfl⟩ | exact ho.elim
  | _ => exact ⟨rfl, rfl⟩

/-- It leaves the attempts as they are, too. -/
theorem drain_background {p : Proc Effects Unit} (hp : p.Uses Op.Background) (i : ℕ) :
    (drainOutline cfg last budget).wp i p (fun _ _ => True) x := by
  refine Outline.wp_of_uses hp ?_ x
  intro w x o r x' ho hinv hp _
  obtain ⟨hn, hlast, hpaid⟩ := hinv
  obtain ⟨hp, hghost⟩ := ghost_perform hp
  have hleft : x'.1.db.triesLeft cfg.webhook.maxAttempts.toNat last =
      x.1.db.triesLeft cfg.webhook.maxAttempts.toNat last := by
    by_cases hstore : ∃ q, o = .store q
    · obtain ⟨q, rfl⟩ := hstore
      obtain ⟨-, hsame⟩ | hq := perform_store hp
      · rw [hsame]
      · obtain ⟨event, now, hrows⟩ := appended_of_background ho hq
        exact triesLeft_grown ⟨_, hrows⟩ (numbered_step (Or.inl ho) hq hn) hlast
    · rw [db_perform hp fun q hq => hstore ⟨q, hq⟩]
  have hcount : x'.2.due = x.2.due ∧ x'.2.restarts = x.2.restarts := by
    rw [hghost]
    by_cases h0 : i = 0
    · simpa [progress, h0] using told_background ho x.2 r
    · simp [progress, h0]
  refine ⟨Or.inl ho, ?_⟩
  rw [Paid, hleft, hcount.1, hcount.2]
  exact hpaid

/-- The threads of a boot keep the outline. -/
theorem drain_boot {ps : List (Proc Effects Unit)} (hb : (system cfg).boots ps)
    (hpaid : Paid cfg.webhook.maxAttempts.toNat last budget 0 x) :
    (drainOutline cfg last budget).Threads ⟨x, ps⟩ := by
  obtain ⟨attempts, passes, rfl⟩ := hb
  intro i p hi
  match i with
  | 0 =>
    cases hi
    exact drain_dispatcher passes hpaid
  | 1 =>
    cases hi
    exact drain_background (startup_uses cfg attempts) 1
  | i + 2 => cases hi

end Dispatcher

/-! ## Runs -/

/-- **The outbox drains.**  From a restart on, as long as the database refuses the dispatcher
nothing, and whatever the receivers answer and the other tasks append: once the passes that
found the head of the queue due, less one for every further restart, are more than the
attempts left to the events up to the row `last`, each of these is delivered or parked. -/
theorem worked_off (cfg : Config) {hist₀ hist : List (Event Effects Host)}
    {c₀ c : Pool.Config Effects Host} {passes attempts last : ℕ}
    (run₀ : (system cfg).Run initial hist₀ c₀)
    (run : (system cfg).Run
      ⟨c₀.shared.release, [dispatcher cfg.webhook passes, startup cfg attempts]⟩ hist c)
    (hlast : last ≤ c₀.shared.db.webhookOutbox.rows.length)
    (hans : ∀ e ∈ hist, storeRefused e = false)
    (hdue : c₀.shared.db.triesLeft cfg.webhook.maxAttempts.toNat last + restarts hist <
      duePasses hist) :
    ∀ row ∈ c.shared.db.webhookOutbox.rows, row.rowid ≤ last →
      row.resolved cfg.webhook.maxAttempts.toNat = true := by
  have hpaid₀ : Paid cfg.webhook.maxAttempts.toNat last
      (c₀.shared.db.triesLeft cfg.webhook.maxAttempts.toNat last) 0 (c₀.shared.release, {}) :=
    fun _ => Nat.le_refl _
  have hinv := Outline.sound_ghost (O := drainOutline cfg last _)
    (C := fun e => storeRefused e = false) (fun _ he => he) run {} ?_ ?_
    ⟨(delivery_kept run₀).1, hlast, hpaid₀.weaken (by omega)⟩
    (drain_boot ⟨attempts, passes, rfl⟩ hpaid₀) hans
  · rw [← triesLeft_eq_zero_iff]
    by_contra hleft
    have hpaid := hinv.2.2 (Nat.pos_of_ne_zero hleft)
    change c.shared.db.triesLeft _ last + duePasses hist ≤ _ + restarts hist + 1 at hpaid
    omega
  · intro x ps hinv hb
    exact drain_boot hb (paid_reset hinv)
  · intro x p j _ hp
    exact drain_background (Task.uses hp) j

/-- One attempt for every event. -/
def onceOnly : Config := ⟨⟨none⟩, {}, {}, { maxAttempts := 1 }⟩

/-- Two failed keysends, each of which enqueues an event. -/
def failedKeysends : List (Move (system onceOnly)) :=
  let failed (hash : String) : World := .of (.answering .keysend ⟨some hash, .failed⟩)
  .start (keysend (some ⟨"peer", 1, none, none⟩)) ::
    (List.replicate 5 (.act 0 (failed "h₁")) ++
      .start (keysend (some ⟨"peer", 2, none, none⟩)) :: List.replicate 5 (.act 1 (failed "h₂")))

theorem failedKeysends_admitted : Admitted failedKeysends := by
  simp only [failedKeysends, Admitted, admitted_append, Move.Admitted]
  exact ⟨.keysend _, admitted_replicate trivial, .keysend _, admitted_replicate trivial⟩

theorem failedKeysends_plays : ((system onceOnly).play failedKeysends initial).isSome := rfl

/-- A restart after them. -/
def keysendsRestarted : Pool.Config Effects Host :=
  ⟨(((system onceOnly).play failedKeysends initial).get failedKeysends_plays).1.shared.release,
    [dispatcher onceOnly.webhook 1, startup onceOnly 0]⟩

/-- The receiver refuses both events, and another restart interrupts the first of the passes. -/
def refusals : List (Move (system onceOnly)) :=
  let refused : World := .of { Env.silent with post := fun _ => .error "status 500" }
  List.replicate 2 (.act 0 refused) ++
    .boot [dispatcher onceOnly.webhook 2, startup onceOnly 0] :: List.replicate 8 (.act 0 refused)

theorem refusals_admitted : Admitted refusals := by
  simp only [refusals, Admitted, admitted_append, Move.Admitted]
  exact ⟨admitted_replicate trivial, ⟨0, 2, rfl⟩, admitted_replicate trivial⟩

theorem refusals_plays : ((system onceOnly).play refusals keysendsRestarted).isSome := rfl

/-- Three passes find the head of the queue due, and the first event is parked. -/
theorem worked_off_refusals : ∃ hist c, (system onceOnly).Run keysendsRestarted hist c ∧
    duePasses hist = 3 ∧ restarts hist = 1 ∧
    (∃ row ∈ c.shared.db.webhookOutbox.rows, row.rowid ≤ 1) ∧
    ∀ row ∈ c.shared.db.webhookOutbox.rows, row.rowid ≤ 1 → row.resolved 1 = true := by
  have run₀ := run_of_isSome failedKeysends_admitted failedKeysends_plays
  have run := run_of_isSome refusals_admitted refusals_plays
  refine ⟨_, _, run, rfl, rfl, ⟨_, List.mem_cons_self, by decide⟩, ?_⟩
  have hnone : (((system onceOnly).play refusals keysendsRestarted).get refusals_plays).2.all
      (fun e => !storeRefused e) = true := rfl
  exact worked_off onceOnly run₀ run (by decide)
    (fun e he => by simpa using List.all_eq_true.mp hnone e he) (by decide)

end Outline
end Companion
