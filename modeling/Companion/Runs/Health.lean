import Companion.Api.Listing
import Companion.Runs.Finality

/-!
# What the health of the companion says

The handler of `/companion/health` reads the store five times under no lock, so its answer is
put together from five moments.  That it is still about one of them rests on the outbox:
the number of parked events never goes down, so when none is found to be parked none was
when the state of the node was read.

## Main definitions

* `health_read` — the moments an answer is put together from.
* `health_sound` — what it says about one of them, and about the end of the run.
-/

set_option autoImplicit false

namespace Companion
open Lib Pool Api

/-- What an answer is put together from: the state of the node at one moment and the
parked events at a later one. -/
theorem health_read {ss : List Host} {n : ℕ} {h : Health}
    (hobs : Proc.Observes ReadOp.Answers ss (health n).run (.ok h)) :
    ∃ before s after, ss = before ++ s :: after ∧ ∃ s' ∈ s :: after,
      h.node = nodeName s.db.nodeState.state ∧ h.parkedEvents = s'.db.parkedEventsCount n ∧
      h.status = if s.db.nodeState.state = .unlocked ∧ s'.db.parkedEventsCount n = 0 then "ok"
        else "degraded" := by
  obtain h₁ | ⟨b₁, s₁, a₁, hss₁, h₁⟩ := observes_read hobs
  · cases h₁
  obtain h₂ | ⟨b₂, s₂, a₂, hss₂, h₂⟩ := observes_read h₁
  · cases h₂
  obtain h₃ | ⟨b₃, s₃, a₃, hss₃, h₃⟩ := observes_read h₂
  · cases h₃
  obtain h₄ | ⟨b₄, s₄, a₄, hss₄, h₄⟩ := observes_read h₃
  · cases h₄
  obtain h₅ | ⟨b₅, s₅, a₅, hss₅, h₅⟩ := observes_read h₄
  · cases h₅
  cases Proc.observes_done h₅
  refine ⟨b₁, s₁, a₁, hss₁, s₄, ?_, rfl, rfl, rfl⟩
  simp [hss₂, hss₃, hss₄]

theorem nodeName_unlocked_iff {s : NodeState} : nodeName s = "unlocked" ↔ s = .unlocked := by
  cases s <;> simp [nodeName]

/-- **An answer is about one moment.**  A request for the health that is served during a run
and answered "ok" has seen a moment at which the node was recorded unlocked and no event was
parked; and an answer that is "degraded" although it names the node unlocked reports parked
events that are parked to the end of the run. -/
theorem health_sound (cfg : Config) {hist₁ hist₂ : List (Event Effects Host)}
    {c₁ c₂ : Pool.Config Effects Host} {h : Health}
    (run₁ : (system cfg).Run initial hist₁ c₁) (run₂ : (system cfg).Run c₁ hist₂ c₂)
    (hobs : Proc.Observes ReadOp.Answers (trace c₁.shared hist₂)
      (health cfg.webhook.maxAttempts.toNat).run (.ok h)) :
    (h.status = "ok" → ∃ s ∈ trace c₁.shared hist₂, s.db.nodeState.state = .unlocked ∧
      s.db.parkedEventsCount cfg.webhook.maxAttempts.toNat = 0) ∧
    (h.status ≠ "ok" → h.node = "unlocked" → 0 < h.parkedEvents) ∧
    h.parkedEvents ≤ c₂.shared.db.parkedEventsCount cfg.webhook.maxAttempts.toNat := by
  obtain ⟨before, s, after, htrace, s', hs', hnode, hparked, hstatus⟩ := health_read hobs
  obtain ⟨histA, cA, histB, runA, runB, rfl, htraceB⟩ := run₂.moment htrace
  rw [← htraceB] at hs'
  obtain ⟨before', after', hsplit⟩ := List.append_of_mem hs'
  obtain ⟨histC, cC, histD, runC, runD, rfl, -⟩ := runB.moment hsplit
  -- the parked events were counted after the node was looked at, and before the end
  have hlater := (outboxLater_of_run (run₁.append runA) runC).parkedEventsCount
  have hend := (outboxLater_of_run ((run₁.append runA).append runC) runD).parkedEventsCount
  refine ⟨fun hok => ⟨cA.shared, by simp [htrace], ?_⟩, fun hnot hname => ?_, ?_⟩
  · rw [hstatus] at hok
    split at hok
    · next hboth => exact ⟨hboth.1, by omega⟩
    · exact absurd hok (by decide)
  · rw [hnode, nodeName_unlocked_iff] at hname
    rw [hstatus, hname] at hnot
    by_contra hzero
    simp [← hparked, Nat.eq_zero_of_not_pos hzero] at hnot
  · rw [hparked]
    exact hend

/-- An unlock that goes through. -/
def unlocking : List (Move (system defaults)) :=
  .start unlock :: List.replicate 4 (.act 0 (.of (.answering .unlock ())))

theorem unlocking_admitted : Admitted unlocking := ⟨.unlock, admitted_replicate trivial⟩

theorem unlocking_plays : ((system defaults).play unlocking initial).isSome := rfl

/-- A request that is served while nothing happens. -/
theorem observes_health (s : Host) (n : ℕ) :
    Proc.Observes ReadOp.Answers [s] (health n).run (.ok
      ⟨if s.db.nodeState.state = .unlocked ∧ s.db.parkedEventsCount n = 0 then "ok"
        else "degraded", nodeName s.db.nodeState.state, s.db.pendingTransfers.length,
        s.db.pendingPayments.length, s.db.parkedEventsCount n, s.db.nodeState.lastFullSyncAt⟩) :=
  .now (Or.inr rfl) (.now (Or.inr rfl) (.now (Or.inr rfl) (.now (Or.inr rfl)
    (.now (Or.inr rfl) .done))))

/-- A request after it is told that all is well, and so it is. -/
theorem health_sound_unlocked : ∃ hist c, (system defaults).Run initial hist c ∧
    ∃ s ∈ trace initial.shared hist, s.db.nodeState.state = .unlocked ∧
      s.db.parkedEventsCount 10 = 0 := by
  have run := run_of_isSome unlocking_admitted unlocking_plays
  have hobs := (observes_health (Option.get _ unlocking_plays).1.shared 10).later
    (trace initial.shared (Option.get _ unlocking_plays).2).dropLast
  exact ⟨_, _, run, (health_sound defaults .nil run hobs).1 rfl⟩

end Companion
