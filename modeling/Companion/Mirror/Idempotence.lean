import Companion.Mirror.PaymentPass

/-!
# Repeating a pass

When is a second pass over the same listing silent?  The entries of one hash are
folded onto one row, and the status order has a backward edge, so a listing that
gives a hash both `Pending` and `Failed` makes every pass restart the row and close
it again.  `Converges` is the condition on the listing under which the first pass
leaves a row that the listing does not move.

## Main definitions

* `endsClosed`, `OpenSuccess`, `Converges` — the condition.
* `Quiet` — passes that change and announce nothing.
* `quiet_iff_converges` — repeated passes are quiet exactly when it holds.
-/

set_option autoImplicit false

namespace Companion
open Lib

/-! ## The condition -/

/-- The last of the statuses `Pending`, `Failed` and `Cancelled` is one of the latter. -/
def endsClosed (ss : List PaymentStatus) : Bool :=
  (ss.filter fun s => s = .pending || s.restartable).getLast?.any PaymentStatus.restartable

/-- Some listed `Succeeded` comes when the payment is not closed. -/
def OpenSuccess (stored : PaymentStatus) (ss : List PaymentStatus) : Prop :=
  ∃ before after, ss = before ++ .succeeded :: after ∧ endsClosed (stored :: before) = false

/-- What is listed before the first `Pending` does not rank above everything listed
from there on. -/
def Regains (ss : List PaymentStatus) : Prop :=
  ∀ before after, ss = before ++ .pending :: after → .pending ∉ before →
    ∀ b ∈ before, ∃ a ∈ .pending :: after, paymentRank b ≤ paymentRank a

/-- The listing takes the stored status to one it does not move any more. -/
def Converges (stored : PaymentStatus) (ss : List PaymentStatus) : Prop :=
  stored = .succeeded ∨ OpenSuccess stored ss ∨
    (¬ (.pending ∈ ss ∧ ∃ s ∈ ss, s.restartable = true) ∧
      (stored.restartable = true → Regains ss))

/-! ## One observation -/

theorem status_cases (s : PaymentStatus) :
    s = .succeeded ∨ s.restartable = true ∨ s.terminal = false := by
  cases s <;> decide

@[simp] theorem next_succeeded (s : PaymentStatus) :
    PaymentStatus.next .succeeded s = .succeeded := by
  cases s <;> decide

theorem next_restartable {q : PaymentStatus} (hq : q.restartable = true) (s : PaymentStatus) :
    q.next s = if s = .pending then .pending else q := by
  cases q <;> cases s <;> first | rfl | cases hq

theorem move_restartable {q : PaymentStatus} (hq : q.restartable = true) (s : PaymentStatus) :
    PaymentMove q s ↔ s = .pending := by
  cases q <;> first | cases hq; done | (cases s <;> decide)

theorem move_open {q : PaymentStatus} (hq : q.terminal = false) (s : PaymentStatus) :
    PaymentMove q s ↔ paymentRank q < paymentRank s := by
  simp only [PaymentMove, hq, true_and, or_iff_right_iff_imp, and_imp]
  intro hre
  rw [terminal_of_restartable hre] at hq
  cases hq

theorem next_eq_or (q s : PaymentStatus) : q.next s = q ∨ q.next s = s := by
  by_cases hm : PaymentMove q s
  · exact Or.inr (if_pos hm)
  · exact Or.inl (if_neg hm)

/-- Only a restart goes down. -/
theorem rank_next {q s : PaymentStatus} (h : q.restartable = true → s ≠ .pending) :
    paymentRank q ≤ paymentRank (q.next s) ∧ paymentRank s ≤ paymentRank (q.next s) := by
  cases q <;> cases s <;> first | decide | exact absurd rfl (h rfl)

theorem rank_restartable {s : PaymentStatus} (hs : s.restartable = true) : paymentRank s = 3 := by
  cases s <;> first | rfl | cases hs

theorem rank_lt_of_open {s : PaymentStatus} (hs : s.terminal = false) : paymentRank s < 3 := by
  cases s <;> first | decide | cases hs

/-! ## A pass as a fold of statuses -/

theorem foldl_next_succeeded (ss : List PaymentStatus) :
    ss.foldl PaymentStatus.next .succeeded = .succeeded := by
  induction ss with
  | nil => rfl
  | cons s ss ih => rw [List.foldl_cons, next_succeeded, ih]

theorem foldl_next_mem (stored : PaymentStatus) (ss : List PaymentStatus) :
    ss.foldl PaymentStatus.next stored ∈ stored :: ss := by
  induction ss generalizing stored with
  | nil => exact List.mem_singleton_self _
  | cons s ss ih =>
    rw [List.foldl_cons]
    rcases List.mem_cons.mp (ih (stored.next s)) with heq | hmem
    · rw [heq]
      rcases next_eq_or stored s with hn | hn <;> simp [hn]
    · simp [hmem]

/-- A closed payment stays as it is until a `Pending` comes. -/
theorem foldl_next_restartable {q : PaymentStatus} (hq : q.restartable = true)
    {ss : List PaymentStatus} (hss : .pending ∉ ss) : ss.foldl PaymentStatus.next q = q := by
  induction ss with
  | nil => rfl
  | cons s ss ih =>
    rw [List.mem_cons, not_or] at hss
    rw [List.foldl_cons, next_restartable hq, if_neg (Ne.symm hss.1), ih hss.2]

/-- A fold without a restart ends at the top of what was seen. -/
theorem rank_foldl {stored : PaymentStatus} {ss : List PaymentStatus}
    (h : .pending ∉ ss ∨ ∀ s ∈ stored :: ss, s.restartable = false) :
    ∀ s ∈ stored :: ss, paymentRank s ≤ paymentRank (ss.foldl PaymentStatus.next stored) := by
  induction ss generalizing stored with
  | nil => simp
  | cons s ss ih =>
    have hstep : stored.restartable = true → s ≠ .pending := by
      rintro hre rfl
      rcases h with h | h
      · exact h (List.mem_cons_self ..)
      · rw [h stored (List.mem_cons_self ..)] at hre
        cases hre
    have hrank := rank_next hstep
    have htail : .pending ∉ ss ∨ ∀ t ∈ stored.next s :: ss, t.restartable = false := by
      refine h.imp (fun h hmem => h (List.mem_cons_of_mem _ hmem)) fun h t ht => ?_
      rcases List.mem_cons.mp ht with rfl | ht
      · rcases next_eq_or stored s with hn | hn <;> rw [hn]
        · exact h stored (List.mem_cons_self ..)
        · exact h s (by simp)
      · exact h t (by simp [ht])
    have hle := ih htail
    have hfirst := hle _ (List.mem_cons_self ..)
    intro t ht
    rw [List.foldl_cons]
    simp only [List.mem_cons] at ht
    rcases ht with rfl | rfl | ht
    · exact hrank.1.trans hfirst
    · exact hrank.2.trans hfirst
    · exact hle t (List.mem_cons_of_mem _ ht)

theorem endsClosed_append (ss : List PaymentStatus) (s : PaymentStatus) :
    endsClosed (ss ++ [s]) =
      if s = .pending || s.restartable then s.restartable else endsClosed ss := by
  by_cases h : (s = .pending || s.restartable) = true
  · simp [endsClosed, h]
  · simp [endsClosed, h]

/-- As long as it has not succeeded, a payment is closed after a pass exactly when
the statuses seen end closed. -/
theorem restartable_foldl (stored : PaymentStatus) (ss : List PaymentStatus) :
    ss.foldl PaymentStatus.next stored = .succeeded ∨
      (ss.foldl PaymentStatus.next stored).restartable = endsClosed (stored :: ss) := by
  induction ss using List.reverseRecOn with
  | nil => exact Or.inr (by cases stored <;> decide)
  | append_singleton ss s ih =>
      rw [List.foldl_append, List.foldl_cons, List.foldl_nil, ← List.cons_append,
        endsClosed_append]
      rcases ih with ih | ih
      · rw [ih]
        exact Or.inl (next_succeeded s)
      · rw [← ih]
        cases ss.foldl PaymentStatus.next stored <;> cases s <;> decide

theorem openSuccess_append {stored : PaymentStatus} {ss : List PaymentStatus}
    {s : PaymentStatus} :
    OpenSuccess stored (ss ++ [s]) ↔
      OpenSuccess stored ss ∨ s = .succeeded ∧ endsClosed (stored :: ss) = false := by
  constructor
  · rintro ⟨before, after, heq, hopen⟩
    rcases List.eq_nil_or_concat after with rfl | ⟨after, t, rfl⟩
    · rcases List.append_singleton_inj.mp heq with ⟨rfl, rfl⟩
      exact Or.inr ⟨rfl, hopen⟩
    · rw [List.concat_eq_append, ← List.cons_append, ← List.append_assoc] at heq
      exact Or.inl ⟨before, after, (List.append_singleton_inj.mp heq).1, hopen⟩
  · rintro (⟨before, after, rfl, hopen⟩ | ⟨rfl, hopen⟩)
    · exact ⟨before, after ++ [s], by simp, hopen⟩
    · exact ⟨ss, [], rfl, hopen⟩

/-- A pass ends in `Succeeded` when it finds the payment there, or lists `Succeeded`
while it is not closed. -/
theorem foldl_next_eq_succeeded (stored : PaymentStatus) (ss : List PaymentStatus) :
    ss.foldl PaymentStatus.next stored = .succeeded ↔
      stored = .succeeded ∨ OpenSuccess stored ss := by
  induction ss using List.reverseRecOn with
  | nil => simp [OpenSuccess]
  | append_singleton ss s ih =>
    rw [List.foldl_append, List.foldl_cons, List.foldl_nil, openSuccess_append, ← or_assoc, ← ih]
    rcases restartable_foldl stored ss with hq | hq
    · simp [hq]
    · rw [← hq]
      cases ss.foldl PaymentStatus.next stored <;> cases s <;> decide

/-! ## When the listing does not move the result -/

/-- With the top of the listing reached, only a restart can move the row. -/
theorem settled_of_rank {q : PaymentStatus} {ss : List PaymentStatus}
    (hrank : ∀ s ∈ ss, paymentRank s ≤ paymentRank q)
    (hre : q.restartable = true → .pending ∉ ss) : ∀ s ∈ ss, ¬ PaymentMove q s := by
  intro s hs
  rcases status_cases q with rfl | hq | hq
  · exact not_move_succeeded
  · rw [move_restartable hq]
    rintro rfl
    exact hre hq hs
  · rw [move_open hq]
    exact Nat.not_lt.mpr (hrank s hs)

/-- A listing with a `Pending` and a closed status moves every row that has not succeeded. -/
theorem move_of_both {q : PaymentStatus} {ss : List PaymentStatus} (hq : q ≠ .succeeded)
    (hp : .pending ∈ ss) (hre : ∃ s ∈ ss, s.restartable = true) : ∃ s ∈ ss, PaymentMove q s := by
  rcases status_cases q with rfl | hq | hq
  · exact absurd rfl hq
  · exact ⟨.pending, hp, (move_restartable hq _).mpr rfl⟩
  · rcases hre with ⟨s, hs, hre⟩
    refine ⟨s, hs, (move_open hq s).mpr ?_⟩
    rw [rank_restartable hre]
    exact rank_lt_of_open hq

/-- A closed row restarted in the middle of a listing is left where the rest of the
listing takes it, and what came before may rank higher. -/
theorem settled_iff_regains {stored : PaymentStatus} {before after : List PaymentStatus}
    (hstored : stored.restartable = true) (hbefore : .pending ∉ before)
    (hopen : ∀ s ∈ before ++ .pending :: after, s.restartable = false)
    (hq : (before ++ .pending :: after).foldl PaymentStatus.next stored ≠ .succeeded) :
    (∀ s ∈ before ++ .pending :: after,
        ¬ PaymentMove ((before ++ .pending :: after).foldl PaymentStatus.next stored) s) ↔
      ∀ b ∈ before, ∃ a ∈ .pending :: after, paymentRank b ≤ paymentRank a := by
  have hfold : (before ++ .pending :: after).foldl PaymentStatus.next stored =
      after.foldl PaymentStatus.next .pending := by
    rw [List.foldl_append, foldl_next_restartable hstored hbefore, List.foldl_cons,
      next_restartable hstored, if_pos rfl]
  rw [hfold] at hq ⊢
  have hafter : ∀ s ∈ .pending :: after, s.restartable = false := fun s hs =>
    hopen s (List.mem_append_right _ hs)
  have hmem := foldl_next_mem .pending after
  have hrank := rank_foldl (Or.inr hafter)
  have hre := hafter _ hmem
  constructor
  · intro h b hb
    refine ⟨_, hmem, Nat.not_lt.mp fun hlt => h b (List.mem_append_left _ hb) ?_⟩
    rcases status_cases (after.foldl PaymentStatus.next .pending) with h' | h' | h'
    · exact absurd h' hq
    · rw [hre] at h'
      cases h'
    · exact (move_open h' b).mpr hlt
  · intro h
    refine settled_of_rank (fun s hs => ?_) fun h' => by rw [hre] at h'; cases h'
    rcases List.mem_append.mp hs with hs | hs
    · rcases h s hs with ⟨a, ha, hle⟩
      exact hle.trans (hrank a ha)
    · exact hrank s hs

/-- A pass over `ss` leaves a row that `ss` does not move exactly when it converges. -/
theorem settled_iff_converges (stored : PaymentStatus) (ss : List PaymentStatus) :
    (∀ s ∈ ss, ¬ PaymentMove (ss.foldl PaymentStatus.next stored) s) ↔ Converges stored ss := by
  by_cases hq : ss.foldl PaymentStatus.next stored = .succeeded
  · have hconv := (foldl_next_eq_succeeded stored ss).mp hq
    rw [hq, Converges, ← or_assoc]
    exact iff_of_true (fun _ _ => not_move_succeeded) (Or.inl hconv)
  have hno := (foldl_next_eq_succeeded stored ss).not.mp hq
  rw [Converges, ← or_assoc, or_iff_right hno]
  constructor
  · intro h
    have hboth : ¬ (.pending ∈ ss ∧ ∃ s ∈ ss, s.restartable = true) := by
      rintro ⟨hp, hre⟩
      rcases move_of_both hq hp hre with ⟨s, hs, hm⟩
      exact h s hs hm
    refine ⟨hboth, fun hstored before after heq hbefore => ?_⟩
    have hopen : ∀ s ∈ ss, s.restartable = false := fun s hs => by
      by_contra hre
      exact hboth ⟨by simp [heq], s, hs, by simpa using hre⟩
    subst heq
    exact (settled_iff_regains hstored hbefore hopen hq).mp h
  · rintro ⟨hboth, hregains⟩
    by_cases hp : .pending ∈ ss
    · have hopen : ∀ s ∈ ss, s.restartable = false := fun s hs => by
        by_contra hre
        exact hboth ⟨hp, s, hs, by simpa using hre⟩
      by_cases hstored : stored.restartable = true
      · rcases List.eq_append_cons_of_mem hp with ⟨before, after, rfl, hbefore⟩
        exact (settled_iff_regains hstored hbefore hopen hq).mpr
          (hregains hstored before after rfl hbefore)
      · have hall : ∀ s ∈ stored :: ss, s.restartable = false := by
          simpa [hstored] using hopen
        have hrank := rank_foldl (Or.inr hall)
        refine settled_of_rank (fun s hs => hrank s (List.mem_cons_of_mem _ hs)) fun hre => ?_
        rw [hall _ (foldl_next_mem stored ss)] at hre
        cases hre
    · have hrank : ∀ s ∈ stored :: ss,
          paymentRank s ≤ paymentRank (ss.foldl PaymentStatus.next stored) :=
        rank_foldl (Or.inl hp)
      exact settled_of_rank (fun s hs => hrank s (List.mem_cons_of_mem _ hs)) fun _ => hp

/-! ## Passes over the same listing -/

theorem status_foldl_observe {b : Bool} {v : PaymentView} {q : PaymentStatus}
    (hv : v.status = some q) (ss : List PaymentStatus) :
    (ss.foldl (PaymentView.observe b) v).status = some (ss.foldl PaymentStatus.next q) := by
  induction ss generalizing v q with
  | nil => exact hv
  | cons s ss ih =>
    refine ih ?_
    simp [PaymentView.observe, PaymentView.stored, hv]

/-- The status a pass leaves for a listed payment. -/
theorem status_foldl_observe_cons (b : Bool) (v : PaymentView) (s : PaymentStatus)
    (ss : List PaymentStatus) :
    ((s :: ss).foldl (PaymentView.observe b) v).status =
      some ((s :: ss).foldl PaymentStatus.next (v.stored b s)) :=
  status_foldl_observe rfl ss

/-- A payment that none of the listed statuses moves is left as it is. -/
theorem foldl_observe_of_settled {b : Bool} {v : PaymentView} {q : PaymentStatus}
    (hv : v.status = some q) {ss : List PaymentStatus} (hss : ∀ s ∈ ss, ¬ PaymentMove q s) :
    ss.foldl (PaymentView.observe b) v = v := by
  induction ss with
  | nil => rfl
  | cons s ss ih =>
    have hs : v.observe b s = v := by
      have hm := hss s (List.mem_cons_self ..)
      have hstored : v.stored b s = q := by simp [PaymentView.stored, hv]
      ext1
      · simp [PaymentView.observe, PaymentStatus.next, hstored, hm, hv]
      · simp [PaymentView.observe, PaymentStatus.out, hstored, hm]
    rw [List.foldl_cons, hs]
    exact ih fun t ht => hss t (List.mem_cons_of_mem _ ht)

theorem still_iff {b : Bool} {v : PaymentView} {q : PaymentStatus} (hv : v.status = some q)
    (ss : List PaymentStatus) : v.Still b ss ↔ ∀ s ∈ ss, ¬ PaymentMove q s := by
  induction ss with
  | nil => simp [PaymentView.Still]
  | cons s ss ih =>
    have hstored : v.stored b s = q := by simp [PaymentView.stored, hv]
    rw [PaymentView.Still, hstored, List.forall_mem_cons, and_congr_right_iff]
    intro hm
    have hone : ∀ t ∈ [s], ¬ PaymentMove q t := by simpa using hm
    have hs : v.observe b s = v := foldl_observe_of_settled hv hone
    rw [hs, ih]

/-- Each of the passes at the times `nows` returns, counts no transition, moves no
status and enqueues nothing. -/
def Quiet (env : Env) (cfg : Config.Sync) : List ℤ → Host → Prop
  | [], _ => True
  | now :: nows, h => ∃ report h', exec env (syncPayments cfg now) h = (.ok report, h') ∧
      report.transitions = 0 ∧ h'.db.webhookOutbox = h.db.webhookOutbox ∧
      (∀ hash, h'.db.paymentStatus? hash = h.db.paymentStatus? hash) ∧ Quiet env cfg nows h'

/-- The listing moves no stored payment, and every payment it names is stored. -/
def Host.Settled (ps : List RlnPayment) (h : Host) : Prop :=
  ∀ hash, ∀ s ∈ statusesOf hash ps,
    ∃ q, h.db.paymentStatus? hash = some q ∧ ∀ t ∈ statusesOf hash ps, ¬ PaymentMove q t

theorem Host.Settled.view {ps : List RlnPayment} {h : Host} (hs : h.Settled ps) (b : Bool)
    (hash : String) :
    (h.db.paymentView hash).Still b (statusesOf hash ps) ∧
      (statusesOf hash ps).foldl (PaymentView.observe b) (h.db.paymentView hash) =
        h.db.paymentView hash := by
  cases hss : statusesOf hash ps with
  | nil => exact ⟨trivial, rfl⟩
  | cons s ss =>
    rcases hs hash s (by simp [hss]) with ⟨q, hq, hm⟩
    rw [hss] at hm
    have hv : (h.db.paymentView hash).status = some q := hq
    exact ⟨(still_iff hv _).mpr hm, foldl_observe_of_settled hv hm⟩

theorem quiet_of_settled {env : Env} {cfg : Config.Sync} {ps : List RlnPayment}
    (hlist : env.node (.listPayments cfg.pageSize) = .ok ps) (hfit : ∀ p ∈ ps, p.Fits)
    (nows : List ℤ) {h : Host} (hs : h.Settled ps) : Quiet env cfg nows h := by
  induction nows generalizing h with
  | nil => trivial
  | cons now nows ih =>
    rcases exec_syncPayments hlist hfit now h with ⟨n, h', hexec, hview, hstill, hout, -⟩
    have hn : n = 0 := hstill.mpr fun hash => (hs.view _ hash).1
    have hsame : ∀ hash, h'.db.paymentStatus? hash = h.db.paymentStatus? hash := fun hash =>
      congrArg PaymentView.status ((hview hash).trans (hs.view _ hash).2)
    refine ⟨⟨ps.length, n⟩, h', hexec, hn, hout hn, hsame, ih fun hash s hmem => ?_⟩
    rw [hsame]
    exact hs hash s hmem

/-- Passes over an unchanged listing are quiet after the first one exactly when, for
each hash listed, the first one converges. -/
theorem quiet_iff_converges {env : Env} {cfg : Config.Sync} {ps : List RlnPayment} {now : ℤ}
    {h h₁ : Host} {report : PaymentSyncReport}
    (hlist : env.node (.listPayments cfg.pageSize) = .ok ps)
    (hfirst : exec env (syncPayments cfg now) h = (.ok report, h₁)) :
    (∀ nows, Quiet env cfg nows h₁) ↔
      ∀ hash s ss, statusesOf hash ps = s :: ss →
        Converges ((h.db.paymentView hash).stored h.db.nodeState.paymentsBaselineAt.isSome s)
          (s :: ss) := by
  have hfit := fits_of_syncPayments hlist hfirst
  rcases exec_syncPayments hlist hfit now h with ⟨n, h', hexec, hview, -, -, -⟩
  have hh : h₁ = h' := congrArg Prod.snd (hfirst.symm.trans hexec)
  subst hh
  -- what the first pass leaves for a listed hash
  have hstatus : ∀ hash s ss, statusesOf hash ps = s :: ss →
      (h₁.db.paymentView hash).status = some ((s :: ss).foldl PaymentStatus.next
        ((h.db.paymentView hash).stored h.db.nodeState.paymentsBaselineAt.isSome s)) := by
    intro hash s ss hss
    rw [hview, hss]
    exact status_foldl_observe_cons _ _ s ss
  constructor
  · intro hquiet hash s ss hss
    rcases hquiet [now] with ⟨report₂, h₂, hexec₂, hzero, -⟩
    rcases exec_syncPayments hlist hfit now h₁ with ⟨n₂, h₂', hexec₂', -, hstill, -⟩
    have hr : report₂ = ⟨ps.length, n₂⟩ := by
      have hfst := congrArg Prod.fst (hexec₂.symm.trans hexec₂')
      exact Except.ok.inj hfst
    have hn : n₂ = 0 := by
      rw [hr] at hzero
      exact hzero
    have hst := hstill.mp hn hash
    rw [hss, still_iff (hstatus hash s ss hss)] at hst
    exact (settled_iff_converges _ _).mp hst
  · intro hconv nows
    refine quiet_of_settled hlist hfit nows fun hash s hmem => ?_
    cases hss : statusesOf hash ps with
    | nil =>
      rw [hss] at hmem
      cases hmem
    | cons t ss =>
      exact ⟨_, hstatus hash t ss hss, (settled_iff_converges _ _).mpr (hconv hash t ss hss)⟩

/-- A payment to oneself, listed once for each direction. -/
def circular (outbound inbound : PaymentStatus) : List RlnPayment :=
  [⟨some 3000, none, none, "hash", .outbound, outbound, "self"⟩,
    ⟨some 3000, none, none, "hash", .inboundAutoClaim, inbound, "self"⟩]

theorem quiet_circular_pending :
    ∃ h₁, exec (.listing (.listPayments 100) (circular .pending .claimable)) (syncPayments {} 0)
        .fresh = (.ok ⟨2, 1⟩, h₁) ∧
      ∀ nows, Quiet (.listing (.listPayments 100) (circular .pending .claimable)) {} nows h₁ := by
  refine ⟨_, rfl, (@quiet_iff_converges _ _ (circular .pending .claimable) 0 .fresh _ ⟨2, 1⟩ rfl
    rfl).mpr fun hash s ss hss => ?_⟩
  by_cases hhash : "hash" = hash
  · subst hhash
    have hlisted : statusesOf "hash" (circular .pending .claimable) = [.pending, .claimable] := rfl
    cases hlisted.symm.trans hss
    exact Or.inr (Or.inr ⟨by decide, fun hre => absurd hre (by decide)⟩)
  · simp [statusesOf, circular, hhash] at hss

/-- The outbound side has failed and the inbound side is still pending: every pass
restarts the payment and announces its failure again. -/
theorem circular_failed_not_quiet :
    ∃ h₁ h₂, exec (.listing (.listPayments 100) (circular .failed .pending))
        (syncPayments {} 0) .fresh = (.ok ⟨2, 1⟩, h₁) ∧
      exec (.listing (.listPayments 100) (circular .failed .pending))
        (syncPayments {} 1) h₁ = (.ok ⟨2, 2⟩, h₂) ∧
      h₁.db.paymentEvents "hash" = [] ∧ h₂.db.paymentEvents "hash" = ["payment.failed"] ∧
      ¬ ∀ nows, Quiet (.listing (.listPayments 100) (circular .failed .pending)) {} nows h₁ := by
  refine ⟨_, _, rfl, rfl, rfl, rfl, fun hquiet => ?_⟩
  rcases hquiet [1] with ⟨report, h₂, hexec, hzero, -⟩
  have hreport : report = ⟨2, 2⟩ := (Except.ok.inj (congrArg Prod.fst hexec)).symm
  rw [hreport] at hzero
  cases hzero

end Companion
