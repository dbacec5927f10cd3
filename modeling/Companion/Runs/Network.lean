import Companion.System

/-!
# A node on the wrong network

With `rln.network` set, the probe and `reconcile` take a node for unlocked only after
it has named its network.  Two things come before that check: `reconcile` has run
its full sync, and the `/unlock` hook, or a 403 of a proxied request, has already
recorded `unlocked`, which is all that the loops look at.

So nothing is mirrored from a node that names another network as long as neither is
reached: the node lists no assets, and lists no payments or is never taken for
unlocked on the word of a request.

## Main definitions

* `Lifecycle`, `lifecycle` — the tasks that follow the node, and their pool.
* `Mismatched`, `unlocks`, `listedAssets`, `listedPayments` — what a run is asked.
* `Db.Unmirrored` — nothing has been written by a sync.
* `networkOutline` — what every operation keeps.
* `never_mirrored` — the tables stay empty.
-/

set_option autoImplicit false

namespace Companion
open Lib

/-! ## The tasks -/

/-- The tasks that follow the node: the background loops, `reconcile`, the hooks of
the lifecycle routes, and requests that are only proxied. -/
inductive Lifecycle (cfg : Config) : Proc Effects Unit → Prop
  | init : Lifecycle cfg (lock .init)
  | unlock : Lifecycle cfg unlock
  | restore : Lifecycle cfg (lock .restore)
  | lock : Lifecycle cfg (lock .lock)
  | shutdown : Lifecycle cfg shutdown
  | fallback : Lifecycle cfg fallback
  | reconcile (attempts : ℕ) : Lifecycle cfg (reconcileTask cfg attempts)
  | refreshPass : Lifecycle cfg (refreshPass cfg)
  | reaperPass : Lifecycle cfg reaperPass
  | fullSyncPass : Lifecycle cfg (fullSyncPass cfg)
  | paymentsPass : Lifecycle cfg (paymentsPass cfg)

/-- The companion, asked for nothing but to follow the node. -/
def lifecycle (cfg : Config) : Pool Effects Host := { system cfg with starts := Lifecycle cfg }

/-! ## What the node answers -/

/-- The network that the node names. -/
def namedNetwork : Pool.Label Effects → Option String
  | .act _ (.node .network) (.ok got) => some got
  | _ => none

/-- A network that the node names is not the one wanted. -/
def Mismatched (want : String) (e : Pool.Event Effects Host) : Prop :=
  ∀ got ∈ namedNetwork e.label, eqIgnoreAsciiCase got want = false

/-- How many assets, or transfers without one, the node lists. -/
def listedAssets : Pool.Label Effects → ℕ
  | .act _ (.node .listAssets) (.ok assets) => List.length (α := String × String) assets
  | .act _ (.node (.listAssetlessTransfers _)) (.ok ts) => List.length (α := RlnTransfer) ts
  | _ => 0

/-- How many payments the node lists. -/
def listedPayments : Pool.Label Effects → ℕ
  | .act _ (.node (.listPayments _)) (.ok ps) => List.length (α := RlnPayment) ps
  | _ => 0

/-- A call that finds the node locked. -/
def foundLocked : Pool.Label Effects → Bool
  | .act _ (.node .nodeInfo) (.error .locked) => true
  | _ => false

/-- The answer to a request makes the companion take the node for unlocked. -/
def unlocks : Pool.Label Effects → Bool
  | .act _ (.forward r) (.success _) => r = .unlock
  | .act _ (.forward _) (.refused status body) => notedState status body = some .unlocked
  | _ => false

/-- No transfer, asset or payment has been mirrored. -/
structure Db.Unmirrored (db : Db) : Prop where
  transfers : db.transfers.rows = []
  assets : db.assets.rows = []
  payments : db.payments.rows = []

/-! ## What every operation keeps -/

/-- When `gated`, no answer to a request unlocks and the node state is never
`unlocked`; else the node lists no payments. -/
def networkOutline (cfg : Config) (want : String) (gated : Prop) :
    Pool.Outline (lifecycle cfg) :=
  Pool.Outline.ofInvariant
    (fun e => Mismatched want e ∧ listedAssets e.label = 0 ∧
      (gated → unlocks e.label = false) ∧ (¬ gated → listedPayments e.label = 0))
    (fun h => h.db.Unmirrored ∧ (gated → h.db.nodeState.state ≠ .unlocked))
    (fun _ _ _ hi hd => (Option.some.inj hd) ▸ hi) (fun _ hi => hi)

section Outline
open Pool.Outline
variable {cfg : Config} {want : String} {gated : Prop} {i : ℕ} {h₀ : Host}

/-- A store operation that leaves the tables empty and the node state gated. -/
theorem returns_store {q : StoreOp} {A : q.Res → Prop}
    (hq : ∀ h r h', (networkOutline cfg want gated).inv h → q.perform h = (r, h') →
      (networkOutline cfg want gated).inv h' ∧ ∀ a, r = .ok a → A a) :
    (networkOutline cfg want gated).Returns i h₀ (store q) A := by
  refine yields_perform fun w h r h' _ hi hp _ => ?_
  rcases perform_store hp with ⟨rfl, rfl⟩ | hperf
  · exact ⟨hi, trivial, fun _ ha => nomatch ha⟩
  · rcases hq h r h' hi hperf with ⟨hi', ha⟩
    exact ⟨hi', trivial, ha⟩

/-- A store operation that reads. -/
theorem returns_read {q : StoreOp} {A : q.Res → Prop} (f : Host → q.Res)
    (hq : ∀ h, q.perform h = (.ok (f h), h))
    (hA : ∀ h, (networkOutline cfg want gated).inv h → A (f h)) :
    (networkOutline cfg want gated).Returns i h₀ (store q) A := by
  refine returns_store fun h r h' hi hp => ?_
  rw [hq h] at hp
  cases hp
  exact ⟨hi, fun a ha => (Except.ok.inj ha) ▸ hA h hi⟩

/-- A call to the node changes nothing, and answers within what the run is asked. -/
theorem returns_node {c : NodeCall} {A : c.Res → Prop}
    (hc : ∀ i h a, (networkOutline cfg want gated).cond ⟨h, .act i (.node c) (.ok a), h⟩ → A a) :
    (networkOutline cfg want gated).Returns i h₀ (node c) A := by
  refine yields_perform fun w h r h' _ hi hp hcond => ?_
  cases hp
  exact ⟨hi, trivial, fun a ha => hc i h a (ha ▸ hcond)⟩

/-- Any operation that leaves the database alone. -/
theorem yields_other {o : Op} (ho : ∀ q, o ≠ .store q) :
    (networkOutline cfg want gated).Yields i h₀ (@Lib.Proc.perform Effects o) fun _ => True := by
  refine yields_perform fun w h r h' _ hi hp _ => ⟨?_, trivial, trivial⟩
  have hdb : h'.db = h.db := db_perform hp ho
  change h'.db.Unmirrored ∧ (gated → h'.db.nodeState.state ≠ .unlocked)
  rw [hdb]
  exact hi

theorem returns_now {ε : Type} :
    (networkOutline cfg want gated).Returns i h₀ (liftM now : Prog ε ℤ) fun _ => True :=
  returns_lift (yields_other (by simp))

theorem returns_withLock {ε α : Type} {p : Prog ε α} {A : α → Prop}
    (hp : (networkOutline cfg want gated).Returns i h₀ p A) :
    (networkOutline cfg want gated).Returns i h₀ (withLock p) A := by
  refine yields_bind (yields_other (by simp)) fun _ _ => ?_
  refine yields_bind hp fun r hr => ?_
  exact yields_bind (yields_other (by simp)) fun _ _ => yields_done hr

/-! ### The node state -/

theorem returns_setNodeState {state : NodeState} (hs : gated → state ≠ .unlocked) :
    (networkOutline cfg want gated).Returns i h₀ (setNodeState state) fun _ => True := by
  refine returns_bind (returns_mapErr (returns_read (A := fun _ => True) _ (fun _ => rfl)
    fun _ _ => trivial)) fun _ _ => ?_
  refine returns_bind returns_now fun t _ => returns_mapErr (returns_store fun h r h' hi hp => ?_)
  cases hp
  exact ⟨⟨⟨hi.1.transfers, hi.1.assets, hi.1.payments⟩, hs⟩, fun _ _ => trivial⟩

theorem returns_nodeState :
    (networkOutline cfg want gated).Returns i h₀ (store .nodeState)
      fun s => gated → s ≠ NodeState.unlocked :=
  returns_read (fun h => h.db.nodeState.state) (fun _ => rfl) fun _ hi => hi.2

/-- The check never passes. -/
theorem returns_checkNetwork (hnet : cfg.rln.network = some want) :
    (networkOutline cfg want gated).Returns i h₀ (checkNetwork cfg) fun _ => False := by
  rw [checkNetwork, hnet]
  refine returns_bind (returns_mapErr (returns_node fun _ _ got hc => hc.1 got rfl))
    fun got hgot => ?_
  simp only [hgot]
  exact returns_throw

theorem returns_probe (hnet : cfg.rln.network = some want) :
    (networkOutline cfg want gated).Returns i h₀ (probe cfg) fun _ => True := by
  refine returns_bind (returns_attempt (returns_bind (A := fun _ => True)
    (returns_mapErr (returns_node fun _ _ _ _ => trivial))
      fun _ _ => returns_checkNetwork hnet)) fun checked hchecked => ?_
  cases checked with
  | ok u => exact (hchecked u rfl).elim
  | error e =>
      simp only
      split
      · exact returns_bind (returns_setNodeState (by simp)) fun _ _ => returns_pure trivial
      · exact returns_bind (returns_setNodeState (by simp)) fun _ _ => returns_pure trivial
      · split
        · exact returns_bind (returns_setNodeState (by simp)) fun _ _ => returns_throw
        · exact returns_throw

theorem returns_classify (e : EngineError) :
    (networkOutline cfg want gated).Returns i h₀ (classify e) fun _ => True := by
  rw [classify]
  split
  · exact returns_bind (returns_setNodeState (by simp)) fun _ _ => returns_pure trivial
  · exact returns_pure trivial
  · exact returns_throw

theorem yields_isUnlocked :
    (networkOutline cfg want gated).Yields i h₀ isUnlocked fun b => gated → b = false := by
  refine yields_bind returns_nodeState fun r hr => ?_
  rcases r with e | s
  · exact yields_done fun _ => rfl
  · have hs := hr s rfl
    cases s <;>
      first | exact yields_done fun _ => rfl | exact yields_done fun hg => (hs hg rfl).elim

/-! ### Syncs -/

/-- A full sync lists nothing, so it writes nothing. -/
theorem returns_sync (now : ℤ) :
    (networkOutline cfg want gated).Returns i h₀ (sync cfg.sync .full now) fun _ => True := by
  refine returns_bind (A := fun listed => listed = ([], true)) ?_ fun listed hlisted => ?_
  · refine returns_bind (A := fun ids => ids = []) ?_ fun ids hids => ?_
    · refine returns_bind (A := fun assets => assets = []) (returns_mapErr (returns_node
        fun _ _ assets hc => List.length_eq_zero_iff.mp hc.2.1)) fun assets hassets => ?_
      subst hassets
      refine returns_bind (returns_mapErr (returns_store (A := fun _ => True)
        fun h r h' hi hp => ?_)) fun _ _ => returns_pure rfl
      cases hp
      exact ⟨hi, fun _ _ => trivial⟩
    · subst hids
      exact returns_pure rfl
  · subst hlisted
    refine returns_bind (A := fun ts => ts = []) (returns_mapErr (returns_node
      fun _ _ ts hc => List.length_eq_zero_iff.mp hc.2.1)) fun ts hts => ?_
    subst hts
    exact returns_bind (A := fun _ => True) (returns_pure trivial) fun _ _ => returns_pure trivial

theorem returns_fullSync :
    (networkOutline cfg want gated).Returns i h₀ (fullSync cfg) fun _ => True := by
  refine returns_withLock (returns_bind returns_now fun t _ => ?_)
  refine returns_bind (returns_mapErr (returns_sync t)) fun report _ => ?_
  refine returns_bind (returns_mapErr (returns_store (A := fun _ => True)
    fun h r h' hi hp => ?_)) fun _ _ => returns_pure trivial
  cases hp
  exact ⟨⟨⟨hi.1.transfers, hi.1.assets, hi.1.payments⟩, hi.2⟩, fun _ _ => trivial⟩

theorem returns_reconcileOnce (hnet : cfg.rln.network = some want) :
    (networkOutline cfg want gated).Returns i h₀ (reconcileOnce cfg) fun _ => True := by
  refine returns_bind (returns_attempt (returns_bind returns_fullSync
    fun _ _ => returns_checkNetwork hnet)) fun synced hsynced => ?_
  cases synced with
  | ok u => exact (hsynced u rfl).elim
  | error e =>
      split
      · next hok => cases hok
      · exact returns_bind (returns_setNodeState (by simp)) fun _ _ => returns_pure trivial
      · split
        · exact returns_bind (returns_setNodeState (by simp)) fun _ _ => returns_pure trivial
        · exact returns_bind (returns_setNodeState (by simp)) fun _ _ => returns_pure trivial
        · exact returns_throw

theorem returns_reconcile (hnet : cfg.rln.network = some want) (attempts : ℕ) :
    (networkOutline cfg want gated).Returns i h₀ (reconcile cfg attempts) fun _ => True := by
  induction attempts with
  | zero => exact returns_bind (returns_reconcileOnce hnet) fun _ _ => returns_pure trivial
  | succ attempts ih =>
      refine returns_bind (returns_reconcileOnce hnet) fun ended _ => ?_
      cases ended with
      | some b => exact returns_pure trivial
      | none => exact ih

/-! ### The loops -/

/-- With no waiting transfer a tick is idle. -/
theorem returns_tick (now : ℤ) :
    (networkOutline cfg want gated).Returns i h₀ (tick cfg now) fun _ => True := by
  refine returns_bind (returns_mapErr returns_nodeState) fun state _ => ?_
  split
  · exact returns_pure trivial
  refine returns_bind (A := fun waiting => waiting = []) (returns_mapErr (returns_read
    (fun h => h.db.pendingTransfers) (fun _ => rfl) fun h hi => ?_)) fun waiting hwaiting => ?_
  · rw [Db.pendingTransfers, hi.1.transfers]
    rfl
  · subst hwaiting
    exact returns_pure trivial

/-- With no transfer at all there is nothing to reap. -/
theorem returns_reap (now : ℤ) :
    (networkOutline cfg want gated).Returns i h₀ (reap now) fun _ => True := by
  refine returns_withLock (returns_bind (A := fun expired => expired = []) (returns_mapErr
    (returns_read (fun h => h.db.expiredFallible now) (fun _ => rfl) fun h hi => ?_))
      fun expired hexpired => ?_)
  · rw [Db.expiredFallible, hi.1.transfers]
    rfl
  · subst hexpired
    exact returns_pure trivial

/-- The poll is paused, or lists nothing. -/
theorem returns_paymentsTick (now : ℤ) :
    (networkOutline cfg want gated).Returns i h₀ (paymentsTick cfg now) fun _ => True := by
  refine returns_bind (returns_mapErr returns_nodeState) fun state hstate => ?_
  split
  · exact returns_pure trivial
  · next hunlocked =>
    have hopen : ¬ gated := fun hg => hunlocked (hstate hg)
    have hsync : (networkOutline cfg want gated).Returns i h₀ (syncPayments cfg.sync now)
        fun _ => True := by
      refine returns_bind (A := fun ps => ps = []) (returns_mapErr (returns_node
        fun _ _ ps hc => List.length_eq_zero_iff.mp (hc.2.2.2 hopen))) fun ps hps => ?_
      subst hps
      refine returns_bind (returns_mapErr (returns_read (A := fun _ => True) _ (fun _ => rfl)
        fun _ _ => trivial)) fun baseline _ => ?_
      refine returns_bind (A := fun _ => True) (returns_pure trivial) fun report _ => ?_
      cases baseline with
      | some t => exact returns_pure trivial
      | none =>
          refine returns_bind (returns_mapErr (returns_store (A := fun _ => True)
            fun h r h' hi hp => ?_)) fun _ _ => returns_pure trivial
          cases hp
          exact ⟨⟨⟨hi.1.transfers, hi.1.assets, hi.1.payments⟩, hi.2⟩, fun _ _ => trivial⟩
    refine returns_bind (returns_attempt hsync) fun synced _ => ?_
    cases synced with
    | ok report => exact returns_pure trivial
    | error e =>
        refine returns_bind (returns_classify _) fun f _ => ?_
        cases f <;> exact returns_pure trivial

theorem yields_backoffProbe (hnet : cfg.rln.network = some want) :
    (networkOutline cfg want gated).Yields i h₀ (backoffProbe cfg) fun _ => True :=
  yields_bind (returns_probe hnet) fun _ _ => yields_done trivial

theorem yields_refreshPass (hnet : cfg.rln.network = some want) :
    (networkOutline cfg want gated).Yields i h₀ (refreshPass cfg) fun _ => True := by
  refine yields_bind (yields_other (by simp)) fun t _ => ?_
  refine yields_bind (returns_tick t) fun ended _ => ?_
  split
  · exact yields_backoffProbe hnet
  · exact yields_backoffProbe hnet
  · exact yields_backoffProbe hnet
  · exact yields_done trivial

theorem yields_reaperPass :
    (networkOutline cfg want gated).Yields i h₀ reaperPass fun _ => True := by
  refine yields_bind yields_isUnlocked fun unlocked _ => ?_
  cases unlocked with
  | false => exact yields_done trivial
  | true =>
      refine yields_bind (yields_other (by simp)) fun t _ => ?_
      exact yields_bind (returns_reap t) fun _ _ => yields_done trivial

theorem yields_paymentsPass (hnet : cfg.rln.network = some want) :
    (networkOutline cfg want gated).Yields i h₀ (paymentsPass cfg) fun _ => True := by
  refine yields_bind (yields_other (by simp)) fun t _ => ?_
  refine yields_bind (returns_paymentsTick t) fun ended _ => ?_
  split
  · exact yields_backoffProbe hnet
  · exact yields_done trivial

theorem yields_fullSyncPass (hnet : cfg.rln.network = some want) :
    (networkOutline cfg want gated).Yields i h₀ (fullSyncPass cfg) fun _ => True := by
  refine yields_bind yields_isUnlocked fun unlocked _ => ?_
  cases unlocked with
  | false => exact yields_done trivial
  | true =>
      refine yields_bind returns_fullSync fun ended _ => ?_
      cases ended with
      | ok report => exact yields_done trivial
      | error e =>
          refine yields_bind (returns_classify e) fun f _ => ?_
          split
          · exact yields_backoffProbe hnet
          · exact yields_done trivial

/-! ### The hooks -/

/-- A request that is answered in a gated run does not unlock. -/
theorem yields_forward (r : Route) :
    (networkOutline cfg want gated).Yields i h₀ (@Lib.Proc.perform Effects (.forward r))
      fun answer => gated → unlocks (.act 0 (.forward r) answer) = false := by
  refine yields_perform fun w h answer h' _ hi hp hc => ?_
  cases hp
  refine ⟨hi, trivial, fun hg => ?_⟩
  rw [← hc.2.2.1 hg]
  cases w.env.forward r <;> rfl

theorem yields_noteLocked {status : ℕ} {body : Option RlnErrorBody}
    (hs : gated → notedState status body ≠ some .unlocked) :
    (networkOutline cfg want gated).Yields i h₀ (noteLocked status body) fun _ => True := by
  rw [noteLocked]
  split
  · exact yields_done trivial
  · next state hstate =>
    have hgate : gated → state ≠ .unlocked := fun hg h => hs hg (by rw [hstate, h])
    exact yields_bind (returns_setNodeState hgate) fun _ _ => yields_done trivial

theorem yields_forwardThen {r : Route} {f : Option r.Resp → Prog HookError Unit}
    (hf : (gated → r ≠ .unlock) → ∀ body,
      (networkOutline cfg want gated).Returns i h₀ (f body) fun _ => True) :
    (networkOutline cfg want gated).Yields i h₀ (forwardThen r f) fun _ => True := by
  refine yields_bind (yields_forward r) fun answer hanswer => ?_
  cases answer with
  | failed => exact yields_done trivial
  | refused status body =>
      exact yields_noteLocked fun hg => of_decide_eq_false (hanswer hg)
  | success body =>
      have hr : gated → r ≠ .unlock := fun hg => of_decide_eq_false (hanswer hg)
      exact yields_bind (hf hr body) fun _ _ => yields_done trivial

theorem yields_stateHook {r : Route} {state : NodeState}
    (hs : (gated → r ≠ .unlock) → gated → state ≠ .unlocked) :
    (networkOutline cfg want gated).Yields i h₀ (stateHook r state) fun _ => True :=
  yields_forwardThen fun hr _ => returns_mapErr (returns_setNodeState (hs hr))

/-- Every task that follows the node keeps the outline. -/
theorem Lifecycle.yields (hnet : cfg.rln.network = some want) {p : Proc Effects Unit}
    (hp : Lifecycle cfg p) : (networkOutline cfg want gated).Yields i h₀ p fun _ => True := by
  cases hp with
  | init | restore | lock | shutdown => exact yields_stateHook (by simp)
  | unlock => exact yields_stateHook fun hr hg => absurd rfl (hr hg)
  | fallback => exact yields_forwardThen fun _ _ => returns_pure trivial
  | reconcile attempts =>
      exact yields_bind (returns_reconcile hnet attempts) fun _ _ => yields_done trivial
  | refreshPass => exact yields_refreshPass hnet
  | reaperPass => exact yields_reaperPass
  | fullSyncPass => exact yields_fullSyncPass hnet
  | paymentsPass => exact yields_paymentsPass hnet

theorem yields_startup (hnet : cfg.rln.network = some want) (attempts : ℕ) :
    (networkOutline cfg want gated).Yields i h₀ (startup cfg attempts) fun _ => True := by
  refine yields_bind (returns_probe hnet) fun probed _ => ?_
  cases probed with
  | ok state => exact yields_bind (returns_reconcile hnet attempts) fun _ _ => yields_done trivial
  | error e => exact yields_done trivial

/-- The dispatcher writes to the outbox only. -/
theorem wp_networkDispatcher (passes : ℕ) (h₀ : Host) :
    (networkOutline cfg want gated).wp i (dispatcher cfg.webhook passes) (fun _ _ => True) h₀ := by
  refine wp_of_uses (dispatcher_uses cfg.webhook passes) ?_ h₀
  intro w h o r h' ho hi hp _
  by_cases hq : ∃ q, o = .store q
  · rcases hq with ⟨q, rfl⟩
    rcases perform_store hp with ⟨-, rfl⟩ | hperf
    · exact hi
    · cases q with
      | undeliveredEvents n | recordAttempt k next | markDelivered k t =>
          cases hperf
          exact ⟨⟨hi.1.transfers, hi.1.assets, hi.1.payments⟩, hi.2⟩
      | _ => exact ho.elim
  · have hdb : h'.db = h.db := db_perform hp fun q h => hq ⟨q, h⟩
    change h'.db.Unmirrored ∧ (gated → h'.db.nodeState.state ≠ .unlocked)
    rw [hdb]
    exact hi

end Outline

/-! ## Runs -/

/-- **Never mirrored.**  However the tasks are interleaved, nothing is mirrored from a
node that names another network, when it lists no assets and, unless no request
unlocks it, no payments.  In a run that is left out a sync may write what is listed before
the network is checked; it need not, since the store may refuse it. -/
theorem never_mirrored {cfg : Config} {want : String} (hnet : cfg.rln.network = some want)
    {hist : List (Pool.Event Effects Host)} {c : Pool.Config Effects Host}
    (run : (lifecycle cfg).Run initial hist c) (hmis : ∀ e ∈ hist, Mismatched want e)
    (hassets : ∀ e ∈ hist, listedAssets e.label = 0)
    (hpayments : (∀ e ∈ hist, unlocks e.label = false) ∨ ∀ e ∈ hist, listedPayments e.label = 0) :
    ∀ e ∈ hist, e.post.db.Unmirrored := by
  have hcond : ∀ e ∈ hist,
      (networkOutline cfg want (∀ e ∈ hist, unlocks e.label = false)).cond e := by
    intro e he
    exact ⟨hmis e he, hassets e he, fun hg => hg e he,
      fun hg => (hpayments.resolve_left hg) e he⟩
  have hkept := Pool.Outline.sound_of_programs run ?_
    (fun p hp i h => Pool.Outline.wp_of_yields (hp.yields hnet)) ?_ rfl hcond
  · exact fun e he => (hkept.2 e he).2.1.1
  · rintro ps ⟨attempts, passes, rfl⟩ p hp i h
    rcases List.mem_pair.mp hp with rfl | rfl
    · exact wp_networkDispatcher passes h
    · exact Pool.Outline.wp_of_yields (yields_startup hnet attempts)
  · exact ⟨⟨rfl, rfl, rfl⟩, fun _ => by decide⟩

instance (want : String) : DecidablePred (Mismatched want) := fun e => by
  unfold Mismatched; infer_instance

/-- A locked node. -/
def lockedNode : Env := { Env.silent with node := fun _ => .error .locked }

/-- A node on `Regtest` with these assets, one transfer of each, and these payments. -/
def regtestNode (assets : List (String × String)) (payments : List RlnPayment) : Env :=
  { Env.silent with
    node := fun
      | .nodeInfo => .ok ()
      | .network => .ok "Regtest"
      | .listAssets => .ok assets
      | .listTransfers assetId _ =>
          .ok [⟨1, .waitingCounterparty, "ReceiveBlind", some assetId, none, none⟩]
      | .listAssetlessTransfers _ => .ok []
      | .listPayments _ => .ok payments
      | _ => .error .transport }

def expectsTestnet : Config := ⟨⟨some "Testnet"⟩, {}, {}, {}⟩

/-- The companion starts against a locked node, which is unlocked by the time
`reconcile` runs. -/
def startedLocked (assets : List (String × String)) : List (Pool.Move (lifecycle expectsTestnet)) :=
  .boot [dispatcher expectsTestnet.webhook 0, startup expectsTestnet 0] ::
    List.replicate 4 (.act 1 (.of lockedNode)) ++
      List.replicate 11 (.act 1 (.of (regtestNode assets [])))

theorem startedLocked_admitted : Pool.Admitted (startedLocked []) :=
  ⟨⟨0, 0, rfl⟩, by simp [Pool.Admitted, Pool.Move.Admitted]⟩

theorem startedLocked_plays :
    ((lifecycle expectsTestnet).play (startedLocked []) initial).isSome := rfl

/-- Nothing is mirrored from an empty node, and the companion ends up refusing it. -/
theorem never_mirrored_empty :
    ∃ hist c, (lifecycle expectsTestnet).Run initial hist c ∧
      c.shared.db.nodeState.state = .misconfigured ∧ ∀ e ∈ hist, e.post.db.Unmirrored :=
  have run := Pool.run_of_isSome startedLocked_admitted startedLocked_plays
  ⟨_, _, run, rfl, never_mirrored rfl run (by decide +kernel) (by decide +kernel)
    (Or.inl (by decide +kernel))⟩

/-- The companion starts against a locked node, which is then unlocked by a request,
polled, and reconciled. -/
def unlockedLater : List (Pool.Move (lifecycle expectsTestnet)) :=
  let node : World :=
    .of (regtestNode [("A", "NIA")] [⟨none, none, none, "h", .outbound, .pending, "peer"⟩])
  .boot [dispatcher expectsTestnet.webhook 0, startup expectsTestnet 0] ::
    List.replicate 4 (.act 1 (.of lockedNode)) ++
      .start unlock :: .act 2 (.of (.answering .unlock ())) :: List.replicate 3 (.act 2 node) ++
        .start (paymentsPass expectsTestnet) :: List.replicate 6 (.act 3 node) ++
          .start (reconcileTask expectsTestnet 0) :: List.replicate 13 (.act 4 node)

theorem unlockedLater_admitted : Pool.Admitted unlockedLater :=
  ⟨⟨0, 0, rfl⟩, trivial, trivial, trivial, trivial, .unlock, trivial, trivial, trivial, trivial,
    .paymentsPass, trivial, trivial, trivial, trivial, trivial, trivial, .reconcile 0,
    by simp [Pool.Admitted, Pool.Move.Admitted]⟩

theorem unlockedLater_plays :
    ((lifecycle expectsTestnet).play unlockedLater initial).isSome := rfl

/-- Polled and synced in full before the check: a payment, an asset and a transfer are
mirrored from the wrong network, and only then is the node refused. -/
theorem mirrored_before_check :
    ∃ hist c, (lifecycle expectsTestnet).Run initial hist c ∧
      (hist[1]?.any fun e => foundLocked e.label) ∧ (∀ e ∈ hist, Mismatched "Testnet" e) ∧
      (∃ e ∈ hist, namedNetwork e.label = some "Regtest") ∧
      c.shared.db.nodeState.state = .misconfigured ∧
      c.shared.db.payments.rows.length = 1 ∧ c.shared.db.assets.rows.length = 1 ∧
      c.shared.db.transfers.rows.length = 1 :=
  have run := Pool.run_of_isSome unlockedLater_admitted unlockedLater_plays
  ⟨_, _, run, rfl, by decide +kernel, by decide +kernel, rfl, rfl, rfl, rfl⟩

end Companion
