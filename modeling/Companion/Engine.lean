import Companion.Sync

/-!
# The engine

The tasks of `engine.rs`: the probe of the node, the refresh tick, the reaper,
the full sync, `reconcile`, and one pass of each background loop.  A loop of the
source sleeps and runs its pass again for ever; a pool starts a pass whenever it
likes, so one pass is all there is to define.  `reconcile` gives up by real time,
so it takes the number of attempts that fit before its deadline.

## Main definitions

* `probe`, `checkNetwork`, `classify` — what the node's answers say about it.
* `tick`, `reap`, `fullSync`, `reconcile`, `paymentsTick`.
* `refreshPass`, `reaperPass`, `fullSyncPass`, `paymentsPass` — the loop bodies.
-/

set_option autoImplicit false

namespace Companion
open Lib

inductive EngineError
  | sync (e : SyncError)
  | store (e : StoreError)
  | rln (e : RlnError)
  | misconfigured (message : String)
  deriving DecidableEq, Repr

def authFault : RlnError → EngineError
  | .api 401 _ _ => .misconfigured "node requires a Biscuit token: set rln.token"
  | .api 403 "Forbidden" _ => .misconfigured
      "rln.token lacks the rights the companion needs (admin, or custom with /refreshtransfers, /failtransfers, /listtransfers, /listassets, /nodeinfo, /networkinfo)"
  | e => .rln e

inductive Fault
  | locked
  | unreachable
  deriving DecidableEq, Repr

def fault : EngineError → Option Fault
  | .rln .locked | .sync (.rln .locked) => some .locked
  | .rln .transport | .sync (.rln .transport) => some .unreachable
  | _ => none

/-! ## The lock and the node state -/

/-- Take the engine lock for the whole of `p`, however it ends. -/
def withLock {ε α : Type} (p : Prog ε α) : Prog ε α := ExceptT.mk do
  @Proc.perform Effects .lock
  let r ← p.run
  @Proc.perform Effects .unlock
  return r

def setNodeState (state : NodeState) : Prog EngineError Unit := do
  let _ ← Fallible.mapErr .store (store .nodeState)
  let t ← now
  Fallible.mapErr .store (store (.setNodeState state t))

def isUnlocked : Proc Effects Bool := do
  match ← (store .nodeState).run with
  | .ok .unlocked => return true
  | _ => return false

/-! ## The node -/

/-- `str::eq_ignore_ascii_case`. -/
def eqIgnoreAsciiCase (a b : String) : Bool :=
  a.toList.map Char.toLower = b.toList.map Char.toLower

def checkNetwork (cfg : Config) : Prog EngineError Unit :=
  match cfg.rln.network with
  | none => pure ()
  | some want => do
      let got : String ← Fallible.mapErr authFault (node .network)
      if eqIgnoreAsciiCase got want then return ()
      else throw (.misconfigured s!"node network is {got}, rln.network expects {want}")

def probe (cfg : Config) : Prog EngineError NodeState := do
  let checked ← Fallible.attempt do
    Fallible.mapErr authFault (node .nodeInfo)
    checkNetwork cfg
  match checked with
  | .ok _ =>
      setNodeState .unlocked
      return .unlocked
  | .error e =>
      match fault e with
      | some .locked =>
          setNodeState .locked
          return .locked
      | some .unreachable =>
          setNodeState .down
          return .down
      | none =>
          match e with
          | .misconfigured _ =>
              setNodeState .misconfigured
              throw e
          | _ => throw e

def classify (e : EngineError) : Prog EngineError Fault :=
  match fault e with
  | some .locked => do
      setNodeState .locked
      return .locked
  | some .unreachable => return .unreachable
  | none => throw e

/-! ## The refresh tick -/

inductive TickOutcome
  | idle
  | paused
  | refreshed (report : SyncReport)
  | locked
  | unreachable
  deriving DecidableEq, Repr

def refreshAndSync (cfg : Config) (now : ℤ) : Prog EngineError SyncReport := do
  Fallible.mapErr .rln (node (.refresh cfg.engine.skipSync))
  Fallible.mapErr .sync (sync cfg.sync .pending now)

def tick (cfg : Config) (now : ℤ) : Prog EngineError TickOutcome := do
  let state : NodeState ← Fallible.mapErr .store (store .nodeState)
  if state ≠ .unlocked then return .paused
  let waiting : List Transfer ← Fallible.mapErr .store (store .pendingTransfers)
  if waiting.isEmpty then return .idle
  withLock do
    match ← Fallible.attempt (refreshAndSync cfg now) with
    | .ok report => return .refreshed report
    | .error e =>
        match ← classify e with
        | .locked => return .locked
        | .unreachable => return .unreachable

/-- `sync_locked`: the caller holds the lock. -/
def syncLocked (cfg : Config) (scope : Scope) (now : ℤ) : Prog EngineError SyncReport := do
  match ← Fallible.attempt (sync cfg.sync scope now) with
  | .ok report => return report
  | .error e =>
      if e = .rln .locked then setNodeState .locked
      throw (.sync e)

/-! ## The reaper -/

/-- The loop of `reap`, with the number of transfers failed so far. -/
def reapAll (now : ℤ) : List Transfer → ℕ → Prog EngineError ℕ
  | [], failed => pure failed
  | t :: ts, failed =>
      match t.batchTransferIdx with
      | none => reapAll now ts failed
      | some idx => do
          match ← Fallible.attempt (node (.failTransfer idx)) with
          | .ok _ =>
              let _ ← Fallible.mapErr .sync (applyObserved t .failed now)
              reapAll now ts (failed + 1)
          | .error .cannotFail => reapAll now ts failed
          | .error .locked =>
              setNodeState .locked
              return failed
          | .error .transport => return failed
          | .error e => throw (.rln e)

def reap (now : ℤ) : Prog EngineError ℕ :=
  withLock do
    let expired ← Fallible.mapErr .store (store (.expiredFallible now))
    reapAll now expired 0

/-! ## Full syncs -/

def fullSync (cfg : Config) : Prog EngineError SyncReport :=
  withLock do
    let t ← now
    let report ← Fallible.mapErr .sync (sync cfg.sync .full t)
    Fallible.mapErr .store (store (.setLastFullSyncAt t))
    return report

/-- One attempt of `reconcile`: `some` answer ends the loop. -/
def reconcileOnce (cfg : Config) : Prog EngineError (Option Bool) := do
  let synced ← Fallible.attempt do
    let _ ← fullSync cfg
    checkNetwork cfg
  match synced with
  | .ok _ =>
      setNodeState .unlocked
      return some true
  | .error (.misconfigured _) =>
      setNodeState .misconfigured
      return some false
  | .error e =>
      match fault e with
      | some .locked =>
          setNodeState .locked
          return none
      | some .unreachable =>
          setNodeState .down
          return none
      | none => throw e

/-- `reconcile`, with `attempts` retries before its deadline. -/
def reconcile (cfg : Config) : ℕ → Prog EngineError Bool
  | 0 => do
      let ended ← reconcileOnce cfg
      return ended.getD false
  | attempts + 1 => do
      match ← reconcileOnce cfg with
      | some b => return b
      | none => reconcile cfg attempts

/-! ## The payments poll -/

inductive PaymentsTickOutcome
  | paused
  | synced (report : PaymentSyncReport)
  | locked
  | unreachable
  deriving DecidableEq, Repr

def paymentsTick (cfg : Config) (now : ℤ) : Prog EngineError PaymentsTickOutcome := do
  let state : NodeState ← Fallible.mapErr .store (store .nodeState)
  if state ≠ .unlocked then return .paused
  match ← Fallible.attempt (syncPayments cfg.sync now) with
  | .ok report => return .synced report
  | .error e =>
      match ← classify (.sync e) with
      | .locked => return .locked
      | .unreachable => return .unreachable

/-! ## The background loops -/

def backoffProbe (cfg : Config) : Proc Effects Unit := do
  let _ ← (probe cfg).run
  return ()

/-- One pass of `run_refresh_loop`. -/
def refreshPass (cfg : Config) : Proc Effects Unit := do
  let t ← now
  match ← (tick cfg t).run with
  | .ok .paused | .ok .locked | .ok .unreachable => backoffProbe cfg
  | _ => return ()

/-- One pass of `run_reaper`. -/
def reaperPass : Proc Effects Unit := do
  if ← isUnlocked then
    let t ← now
    let _ ← (reap t).run
    return ()
  else return ()

/-- One pass of `run_payments_loop`. -/
def paymentsPass (cfg : Config) : Proc Effects Unit := do
  let t ← now
  match ← (paymentsTick cfg t).run with
  | .ok .unreachable => backoffProbe cfg
  | _ => return ()

/-- One pass of `run_full_sync_timer`. -/
def fullSyncPass (cfg : Config) : Proc Effects Unit := do
  if ← isUnlocked then
    match ← (fullSync cfg).run with
    | .ok _ => return ()
    | .error e =>
        match ← (classify e).run with
        | .ok .unreachable => backoffProbe cfg
        | _ => return ()
  else return ()

end Companion
