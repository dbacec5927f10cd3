import Mathlib.Data.Nat.Notation

/-!
# Configuration

The part of `config.rs` the tasks read.  Intervals and time limits decide when a
task moves, which a pool leaves to its schedule, so they are not here.

## Main definitions

* `Config.Rln`, `Config.Engine`, `Config.Sync`, `Config.Webhook`.
-/

set_option autoImplicit false

namespace Companion.Config

structure Rln where
  network : Option String
  deriving DecidableEq, Repr

structure Engine where
  skipSync : Bool := false
  deriving DecidableEq, Repr

structure Sync where
  pageSize : ℕ := 100
  deriving DecidableEq, Repr

structure Webhook where
  maxAttempts : UInt32 := 10
  backoffBaseSecs : UInt64 := 2
  backoffCapSecs : UInt64 := 300
  deriving DecidableEq, Repr

end Companion.Config

namespace Companion

/-- The configuration of a companion. -/
structure Config where
  rln : Config.Rln
  engine : Config.Engine
  sync : Config.Sync
  webhook : Config.Webhook
  deriving DecidableEq, Repr

/-- A configuration that leaves everything at its default. -/
def defaults : Config := ⟨⟨none⟩, {}, {}, {}⟩

end Companion
