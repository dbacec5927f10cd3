import Companion.Config
import Companion.Effects

/-!
# The webhook dispatcher

`webhook.rs`: one pass reads the undelivered events and posts them in order until
the first one that is not due or does not go through.  The dispatcher is the only
task that posts, and its passes never overlap.

## Main definitions

* `nextAttemptDelay` — the retry schedule.
* `dispatchDue` — one pass.
* `dispatcher` — pass after pass.
-/

set_option autoImplicit false

namespace Companion
open Lib

def u64Max : ℕ := 2 ^ 64 - 1

/-- `i64::saturating_add`. -/
def saturatingAdd (a b : ℤ) : ℤ := max (-i64Max - 1) (min i64Max (a + b))

/-- The delay after the given number of failed attempts, in `u64` arithmetic. -/
def nextAttemptDelay (attemptsAfter : ℕ) (cfg : Config.Webhook) : ℕ :=
  let exp := attemptsAfter - 1
  let factor := if exp < 64 then 2 ^ exp else u64Max
  min cfg.backoffCapSecs.toNat (min u64Max (cfg.backoffBaseSecs.toNat * factor))

structure DispatchReport where
  delivered : ℕ := 0
  failed : ℕ := 0
  deriving DecidableEq, Repr

/-- `Dispatcher::post`. -/
def post (ev : OutboxEvent) : Proc Effects (Except String Unit) := @Proc.perform Effects (.post ev)

/-- The number of attempts after one more, in `u32` arithmetic. -/
def nextAttempts (ev : OutboxEvent) : ℕ := (ev.attempts + 1) % 2 ^ 32

/-- When an event that failed at `now` is due again. -/
def nextAttemptAt (cfg : Config.Webhook) (ev : OutboxEvent) (now : ℤ) : ℤ :=
  saturatingAdd now (min (nextAttemptDelay (nextAttempts ev) cfg) i64Max : ℕ)

/-- The loop of `dispatchDue`. -/
def dispatchAll (cfg : Config.Webhook) (now : ℤ) :
    List OutboxEvent → DispatchReport → Prog StoreError DispatchReport
  | [], report => pure report
  | ev :: evs, report =>
      if now < ev.nextAttemptAt then pure report
      else do
        match ← post ev with
        | .ok _ =>
            store (.markDelivered ev.id now)
            dispatchAll cfg now evs { report with delivered := report.delivered + 1 }
        | .error _ =>
            store (.recordAttempt ev.id (nextAttemptAt cfg ev now))
            return { report with failed := report.failed + 1 }

def dispatchDue (cfg : Config.Webhook) (now : ℤ) : Prog StoreError DispatchReport := do
  let evs ← store (.undeliveredEvents cfg.maxAttempts.toNat)
  dispatchAll cfg now evs {}

/-- `Dispatcher::run`, for the given number of passes. -/
def dispatcher (cfg : Config.Webhook) : ℕ → Proc Effects Unit
  | 0 => pure ()
  | passes + 1 => do
      let t ← now
      let _ ← (dispatchDue cfg t).run
      dispatcher cfg passes

end Companion
