import Companion.Mirror.Idempotence

/-!
# A payment seen through the poll

The node takes a payment through a history of statuses, and the polls see some of
them.  When is the settlement of a payment mirrored, and announced once, whatever
was missed in between?  A row that was seen `Failed` or `Cancelled` takes nothing
but `Pending`, so what matters is that the polls have seen each retry they had seen
fail: that, and nothing else, is the condition.

## Main definitions

* `Samples` — what polls at arbitrary moments see of a history.
* `pollAll`, `seenIn` — passes one after another, and what they see of a hash.
* `Reopened` — every failure seen is followed by a `Pending` seen.
* `settled_iff_reopened` — the settlement is mirrored and announced exactly then.
-/

set_option autoImplicit false

namespace Companion
open Lib

/-! ## Histories and samples -/

/-- What is seen of a history whose first status is the current one: the node moves
on, or someone looks. -/
inductive Samples : List PaymentStatus → List PaymentStatus → Prop
  | done : Samples [] []
  | advance {s : PaymentStatus} {history seen : List PaymentStatus} :
      Samples history seen → Samples (s :: history) seen
  | look {s : PaymentStatus} {history seen : List PaymentStatus} :
      Samples (s :: history) seen → Samples (s :: history) (s :: seen)

/-- Whatever is left out of a history, the rest is a sample of it. -/
theorem Samples.of_sublist {history seen : List PaymentStatus} (h : seen.Sublist history) :
    Samples history seen := by
  induction h with
  | slnil => exact .done
  | cons s _ ih => exact .advance ih
  | cons_cons s _ ih => exact .look (.advance ih)

theorem Samples.mem {history seen : List PaymentStatus} (h : Samples history seen) :
    ∀ s ∈ seen, s ∈ history := by
  induction h with
  | done => simp
  | advance _ ih => exact fun s hs => List.mem_cons_of_mem _ (ih s hs)
  | look _ ih =>
    intro s hs
    rcases List.mem_cons.mp hs with rfl | hs
    · exact List.mem_cons_self ..
    · exact ih s hs

/-- Nothing comes after `Succeeded`. -/
theorem eq_nil_of_chain {history : List PaymentStatus}
    (hc : (PaymentStatus.succeeded :: history).IsChain PaymentMove) : history = [] := by
  cases history with
  | nil => rfl
  | cons s history => exact absurd (List.isChain_cons_cons.mp hc).1 not_move_succeeded

/-- Once `Succeeded` has been seen, nothing else is. -/
theorem Samples.succeeded_last {history seen : List PaymentStatus} (h : Samples history seen)
    (hc : history.IsChain PaymentMove) {before after : List PaymentStatus}
    (hseen : seen = before ++ .succeeded :: after) : ∀ s ∈ after, s = .succeeded := by
  induction h generalizing before with
  | done => simp at hseen
  | advance _ ih => exact ih hc.of_cons hseen
  | @look s history seen hs ih =>
    cases before with
    | nil =>
      rcases List.cons_eq_cons.mp hseen with ⟨rfl, rfl⟩
      intro t ht
      have hmem := hs.mem t ht
      rw [eq_nil_of_chain hc] at hmem
      exact List.mem_singleton.mp hmem
    | cons t before =>
      exact ih hc (List.cons_eq_cons.mp hseen).2

/-! ## The condition -/

/-- Every `Failed` or `Cancelled` is followed by a `Pending`. -/
def Reopened (ss : List PaymentStatus) : Prop :=
  ∀ before s after, ss = before ++ s :: after → s.restartable = true → .pending ∈ after

theorem reopened_append {ss : List PaymentStatus} {s : PaymentStatus} :
    Reopened (ss ++ [s]) ↔ s.restartable = false ∧ (s = .pending ∨ Reopened ss) := by
  constructor
  · intro h
    have hs : s.restartable = false := by
      by_contra hre
      have hmem := h ss s [] rfl (by simpa using hre)
      cases hmem
    refine ⟨hs, or_iff_not_imp_left.mpr fun hne before t after heq ht => ?_⟩
    have hmem := h before t (after ++ [s]) (by simp [heq]) ht
    simpa [Ne.symm hne] using hmem
  · rintro ⟨hs, h⟩ before t after heq ht
    rcases List.eq_nil_or_concat after with rfl | ⟨after, u, rfl⟩
    · rw [← (List.append_singleton_inj.mp heq).2, hs] at ht
      cases ht
    · rw [List.concat_eq_append, ← List.cons_append, ← List.append_assoc] at heq
      rcases List.append_singleton_inj.mp heq with ⟨hss, rfl⟩
      rcases h with rfl | h
      · simp
      · simp [h before t after hss ht]

theorem reopened_cons {ss : List PaymentStatus} {s : PaymentStatus} (hs : s.restartable = false) :
    Reopened (s :: ss) ↔ Reopened ss := by
  constructor
  · intro h before t after heq ht
    exact h (s :: before) t after (by rw [heq, List.cons_append]) ht
  · intro h before t after heq ht
    cases before with
    | nil =>
      rw [← (List.cons_eq_cons.mp heq).1, hs] at ht
      cases ht
    | cons u before => exact h before t after (List.cons_eq_cons.mp heq).2 ht

theorem endsClosed_eq_false_iff {ss : List PaymentStatus} :
    endsClosed ss = false ↔ Reopened ss := by
  induction ss using List.reverseRecOn with
  | nil => simp [endsClosed, Reopened]
  | append_singleton ss s ih =>
    rw [endsClosed_append, reopened_append, ← ih]
    cases s <;> simp [PaymentStatus.restartable]

theorem endsClosed_append_succeeded {ss after : List PaymentStatus}
    (h : ∀ s ∈ after, s = .succeeded) : endsClosed (ss ++ after) = endsClosed ss := by
  have hnone : after.filter (fun s => s = .pending || s.restartable) = [] := by
    rw [List.filter_eq_nil_iff]
    intro s hs
    rw [h s hs]
    decide
  rw [endsClosed, List.filter_append, hnone, List.append_nil]
  rfl

/-- Polls that see the end of a history leave the payment settled exactly when what
they saw does not end closed. -/
theorem foldl_next_eq_succeeded_iff {history seen : List PaymentStatus}
    (hs : Samples history seen) (hc : history.IsChain PaymentMove) (hlast : .succeeded ∈ seen)
    {stored : PaymentStatus} (hstored : stored ≠ .succeeded) :
    seen.foldl PaymentStatus.next stored = .succeeded ↔ Reopened (stored :: seen) := by
  rw [foldl_next_eq_succeeded, or_iff_right hstored, ← endsClosed_eq_false_iff]
  -- nothing seen from the first `Succeeded` on counts
  have hsplit : ∀ before after, seen = before ++ .succeeded :: after →
      endsClosed (stored :: seen) = endsClosed (stored :: before) := by
    intro before after hseen
    rw [hseen, ← List.cons_append]
    refine endsClosed_append_succeeded fun s hmem => ?_
    rcases List.mem_cons.mp hmem with rfl | hmem
    · rfl
    · exact hs.succeeded_last hc hseen s hmem
  constructor
  · rintro ⟨before, after, hseen, hopen⟩
    rw [hsplit before after hseen]
    exact hopen
  · intro hopen
    rcases List.append_of_mem hlast with ⟨before, after, hseen⟩
    rw [hsplit before after hseen] at hopen
    exact ⟨before, after, hseen, hopen⟩

/-! ## What is announced -/

theorem count_out_of_ne {q s : PaymentStatus} (hs : q.next s ≠ .succeeded) :
    (q.out s).count "payment.settled" = 0 := by
  cases q <;> cases s <;> first | decide | exact absurd rfl hs

theorem count_out_succeeded {q s : PaymentStatus} (hq : q ≠ .succeeded)
    (hs : q.next s = .succeeded) : (q.out s).count "payment.settled" = 1 := by
  cases q <;> cases s <;> first | decide | exact absurd rfl hq | cases hs

/-- The settlement of a payment is announced once, when its row gets there. -/
theorem settled_foldl_observe {b : Bool} {v : PaymentView} {q : PaymentStatus}
    (hv : v.status = some q) (hq : q ≠ .succeeded) (ss : List PaymentStatus) :
    ∃ new, (ss.foldl (PaymentView.observe b) v).events = v.events ++ new ∧
      new.count "payment.settled" =
        if ss.foldl PaymentStatus.next q = .succeeded then 1 else 0 := by
  induction ss generalizing v q with
  | nil => exact ⟨[], (List.append_nil _).symm, by simp [hq]⟩
  | cons s ss ih =>
    have hstored : v.stored b s = q := by simp [PaymentView.stored, hv]
    have hstatus : (v.observe b s).status = some (q.next s) := by rw [← hstored]; rfl
    have hevents : (v.observe b s).events = v.events ++ q.out s := by rw [← hstored]; rfl
    rw [List.foldl_cons, List.foldl_cons]
    by_cases hs : q.next s = .succeeded
    · rw [hs] at hstatus ⊢
      rw [foldl_observe_of_settled hstatus fun _ _ => not_move_succeeded,
        foldl_next_succeeded]
      exact ⟨q.out s, hevents, count_out_succeeded hq hs⟩
    · rcases ih hstatus hs with ⟨new, hnew, hcount⟩
      refine ⟨q.out s ++ new, ?_, ?_⟩
      · rw [hnew, hevents, List.append_assoc]
      · rw [List.count_append, count_out_of_ne hs, Nat.zero_add, hcount]

/-- A payment that is first seen is observed as if it had been stored before. -/
theorem foldl_observe_unmirrored {v : PaymentView} (b : Bool) (s : PaymentStatus)
    (ss : List PaymentStatus) :
    (s :: ss).foldl (PaymentView.observe b) v =
      (s :: ss).foldl (PaymentView.observe b) ⟨some (v.stored b s), v.events⟩ := rfl

/-! ## Polls -/

/-- Passes one after another, each in its own environment and at its own time. -/
def pollAll (cfg : Config.Sync) : List (Env × ℤ) → Host → Host
  | [], h => h
  | (env, now) :: polls, h => pollAll cfg polls (exec env (syncPayments cfg now) h).2

/-- What the passes see of one hash, in order. -/
def seenIn (cfg : Config.Sync) (hash : String) (polls : List (Env × ℤ)) : List PaymentStatus :=
  polls.flatMap fun poll => poll.1.seen cfg hash

theorem view_pollAll (cfg : Config.Sync) (hash : String) (polls : List (Env × ℤ)) {h : Host}
    (hbaseline : h.db.nodeState.paymentsBaselineAt.isSome = true) :
    (pollAll cfg polls h).db.paymentView hash =
      (seenIn cfg hash polls).foldl (PaymentView.observe true) (h.db.paymentView hash) := by
  induction polls generalizing h with
  | nil => rfl
  | cons poll polls ih =>
    rcases poll with ⟨env, now⟩
    have hpass := view_syncPayments env cfg now hbaseline
    rw [← hpass.2] at hbaseline
    rw [pollAll, ih hbaseline, hpass.1, seenIn, seenIn, List.flatMap_cons, List.foldl_append]

/-- The payment has ended `Succeeded` and its settlement has been announced once. -/
def SettledOnce (h h' : Host) (hash : String) : Prop :=
  h'.db.paymentStatus? hash = some .succeeded ∧
    ∃ new, h'.db.paymentEvents hash = h.db.paymentEvents hash ++ new ∧
      new.count "payment.settled" = 1

/-- Polls that see the end of a payment's history, and any of the rest of it, mirror
and announce the settlement exactly when each failure the mirror knows of, stored or
seen, is followed by a `Pending` that is seen. -/
theorem settled_iff_reopened {cfg : Config.Sync} {hash : String} {polls : List (Env × ℤ)}
    {h : Host} {history : List PaymentStatus}
    (hbaseline : h.db.nodeState.paymentsBaselineAt.isSome = true)
    (hstart : h.db.paymentStatus? hash ≠ some .succeeded)
    (hhistory : history.IsChain PaymentMove)
    (hsamples : Samples history (seenIn cfg hash polls))
    (hlast : .succeeded ∈ seenIn cfg hash polls) :
    SettledOnce h (pollAll cfg polls h) hash ↔
      Reopened ((h.db.paymentStatus? hash).toList ++ seenIn cfg hash polls) := by
  have hview := view_pollAll cfg hash polls hbaseline
  have hstatus := congrArg PaymentView.status hview
  have hevents := congrArg PaymentView.events hview
  -- both sides for the status the polls start from
  have key : ∀ q, q ≠ .succeeded →
      (seenIn cfg hash polls).foldl (PaymentView.observe true) (h.db.paymentView hash) =
        (seenIn cfg hash polls).foldl (PaymentView.observe true)
          ⟨some q, h.db.paymentEvents hash⟩ →
      (SettledOnce h (pollAll cfg polls h) hash ↔ Reopened (q :: seenIn cfg hash polls)) := by
    intro q hq hsame
    rw [hsame] at hstatus hevents
    rw [status_foldl_observe rfl] at hstatus
    rcases settled_foldl_observe (b := true) (v := ⟨some q, h.db.paymentEvents hash⟩) rfl hq
      (seenIn cfg hash polls) with ⟨new, hnew, hcount⟩
    rw [← foldl_next_eq_succeeded_iff hsamples hhistory hlast hq]
    constructor
    · rintro ⟨hsucc, -⟩
      exact Option.some.inj (hstatus.symm.trans hsucc)
    · intro hsucc
      rw [if_pos hsucc] at hcount
      exact ⟨hstatus.trans (congrArg some hsucc), new, hevents.trans hnew, hcount⟩
  cases hrow : h.db.paymentStatus? hash with
  | some q =>
    refine key q (fun hq => hstart (hrow.trans (congrArg some hq))) ?_
    rw [Db.paymentView, hrow]
  | none =>
    cases hseen : seenIn cfg hash polls with
    | nil =>
      rw [hseen] at hlast
      cases hlast
    | cons s ss =>
      have hins : insertStatus true s ≠ .succeeded ∧ (insertStatus true s).restartable = false := by
        cases s <;> decide
      rw [← hseen, Option.toList_none, List.nil_append, ← reopened_cons hins.2]
      refine key _ hins.1 ?_
      rw [hseen, foldl_observe_unmirrored, Db.paymentView, hrow]
      rfl

/-! ## A retry between two polls -/

/-- The node listing one payment. -/
def listingPayment (status : PaymentStatus) : Env :=
  .listing (.listPayments 100) [⟨some 3000, none, none, "hash", .outbound, status, "payee"⟩]

/-- A host that has stored its baseline. -/
def baselined : Host := { Host.fresh with db := Host.fresh.db.setPaymentsBaselineAt 0 }

/-- Three polls: one sees a failure, one the retry, and one its success. -/
def retrySeen : List (Env × ℤ) :=
  [(listingPayment .failed, 1), (listingPayment .pending, 2), (listingPayment .succeeded, 3)]

/-- The same polls without the one in the middle. -/
def retryMissed : List (Env × ℤ) :=
  [(listingPayment .failed, 1), (listingPayment .succeeded, 3)]

theorem settled_of_retrySeen : SettledOnce baselined (pollAll {} retrySeen baselined) "hash" := by
  have hchain : [PaymentStatus.pending, .failed, .pending, .succeeded].IsChain PaymentMove := by
    decide
  have hsamples : Samples [.pending, .failed, .pending, .succeeded]
      [.failed, .pending, .succeeded] := .of_sublist (by decide)
  have hlast : PaymentStatus.succeeded ∈ [PaymentStatus.failed, .pending, .succeeded] := by decide
  exact (@settled_iff_reopened {} "hash" retrySeen baselined _ rfl (by decide) hchain hsamples
    hlast).mpr (endsClosed_eq_false_iff.mp rfl)

/-- When the retry falls between two polls, the row stays `Failed` and the settlement
is not announced. -/
theorem settled_retryMissed :
    [PaymentStatus.pending, .failed, .pending, .succeeded].IsChain PaymentMove ∧
      Samples [.pending, .failed, .pending, .succeeded] (seenIn {} "hash" retryMissed) ∧
      .succeeded ∈ seenIn {} "hash" retryMissed ∧
      (pollAll {} retryMissed baselined).db.paymentView "hash" =
        ⟨some .failed, ["payment.failed"]⟩ ∧
      ¬ SettledOnce baselined (pollAll {} retryMissed baselined) "hash" := by
  have hseen : seenIn {} "hash" retryMissed = [.failed, .succeeded] := rfl
  have hview : (pollAll {} retryMissed baselined).db.paymentView "hash" =
      ⟨some .failed, ["payment.failed"]⟩ := rfl
  rw [hseen]
  refine ⟨by decide, .of_sublist (by decide), by decide, hview, fun hsettled => ?_⟩
  have hfailed := congrArg PaymentView.status hview
  cases hfailed.symm.trans hsettled.1

end Companion
