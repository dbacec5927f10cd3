import Companion.Lib.Mutex
import Companion.System

/-!
# The engine lock

Only the task that holds the engine lock has the node refresh or fail transfers, lists
them, or moves their rows.  That is a contract of every task by itself: a task notes when
it takes the lock and what it learns while it holds it, and asks for nothing of the kind
outside.  The rest is the general theory of locks.

A full sync is recorded by the task that has made it.  So the notes also say what of the
node's listings is still to be listed, and what of them is still to be written.

## Main definitions

* `Inside`, `Inside.note` — what a task knows while it holds the lock.
* `Op.exclusive`, `Op.Orderly` — what it may ask for by its notes.
* `engineLock` — the lock of the pool.
* `lock_released`, `lock_serializes` — no task is stuck with the lock, and what the tasks
  do under it is done one after another.
-/

set_option autoImplicit false

namespace Companion
open Lib

/-! ## What a task knows while it holds the lock -/

/-- The notes of a task that holds the lock. -/
structure Inside where
  /-- The clock, as it was read last. -/
  clock : Option ℤ := none
  /-- The assets the node has named and not listed yet. -/
  unlisted : Option (List String) := none
  /-- The transfers without an asset have been listed. -/
  assetless : Bool := false
  /-- What has been listed and not written yet. -/
  unwritten : List Observed := []

namespace Inside

/-- The transfers of one listing, as they are to be written. -/
def entered (n : Inside) (assetId : Option String) (ts : List RlnTransfer) : Inside :=
  { n with unwritten := ts.map (RlnTransfer.observed assetId) ++ n.unwritten }

/-- Reading the clock starts the account anew. -/
def note : Option Inside → (o : Op) → o.Res → Option Inside
  | _, .lock, _ => some {}
  | _, .unlock, _ => none
  | some _, .clock, t => some { clock := some t }
  | some n, .node .listAssets, .ok assets =>
      some { n with unlisted := some (btreeSet (assets.map Prod.fst)) }
  | some n, .node (.listAssetlessTransfers _), .ok ts =>
      some ({ n with assetless := true }.entered none ts)
  | some n, .node (.listTransfers assetId _), .ok ts =>
      some ({ n with unlisted := n.unlisted.map (List.erase · assetId) }.entered (some assetId) ts)
  | some n, .store (.upsertObserved o _), .ok _ =>
      some { n with unwritten := n.unwritten.erase o }
  | m, _, _ => m

/-- Since the clock read `t`, everything has been listed and written. -/
structure Complete (n : Inside) (t : ℤ) : Prop where
  clock : n.clock = some t
  unlisted : n.unlisted = some []
  assetless : n.assetless = true
  unwritten : n.unwritten = []

end Inside

/-- What only the task that holds the lock does. -/
def Op.exclusive : Op → Bool
  | .node (.refresh _) | .node (.failTransfer _) | .node .listAssets
  | .node (.listTransfers _ _) | .node (.listAssetlessTransfers _)
  | .forward .refreshtransfers | .forward .failtransfers
  | .store .pendingAssetIds | .store (.expiredFallible _) | .store (.upsertObserved _ _)
  | .store (.applyTransition _ _ _ _ _) | .store (.setLastFullSyncAt _) => true
  | _ => false

/-- What a task may ask for: the lock when it does not have it, and what is exclusive when
it has; and a full sync is recorded when it has been made. -/
def Op.Orderly (m : Option Inside) : Op → Prop
  | .lock => m = none
  | .unlock => m.isSome = true
  | .store (.setLastFullSyncAt t) => ∃ n, m = some n ∧ n.Complete t
  | o => o.exclusive = true → m.isSome = true

def Op.takesLock : Op → Bool
  | .lock => true
  | _ => false

def Op.givesLock : Op → Bool
  | .unlock => true
  | _ => false

/-- An operation anyone may ask for at any time. -/
def Op.Free (o : Op) : Prop := o.exclusive = false ∧ o.takesLock = false ∧ o.givesLock = false

/-! ## The tasks outside -/

/-- Outside the lock, and still outside at the end. -/
def Outside {α : Type} (p : Proc Effects α) : Prop :=
  p.Stays Inside.note Op.Orderly fun m => m = none

/-! ### What the notes say of the lock -/

section Notes
variable {o : Op}

theorem note_none (htake : o.takesLock = false) (r : o.Res) : Inside.note none o r = none := by
  cases o with
  | lock => cases htake
  | store q => cases q <;> rfl
  | node c => cases c <;> rfl
  | forward _ | post _ | clock | uuid | unlock => rfl

theorem note_some (hgive : o.givesLock = false) (n : Inside) (r : o.Res) :
    (Inside.note (some n) o r).isSome = true := by
  cases o with
  | unlock => cases hgive
  | store q => cases q <;> cases r <;> rfl
  | node c => cases c <;> cases r <;> rfl
  | forward _ | post _ | clock | uuid | lock => rfl

theorem Op.Free.orderly (h : o.Free) (m : Option Inside) : o.Orderly m := by
  obtain ⟨hex, htake, hgive⟩ := h
  cases o with
  | lock => cases htake
  | unlock => cases hgive
  | store q => cases q <;> simp_all [exclusive, Orderly]
  | node c => cases c <;> simp_all [exclusive, Orderly]
  | forward r => cases r <;> simp_all [exclusive, Orderly]
  | post _ | clock | uuid => simp [exclusive, Orderly]

/-- What anyone may do can be done inside; whatever it notes, the lock is kept. -/
theorem stays_of_free {α : Type} {p : Proc Effects α} (h : p.Uses Op.Free) :
    p.Stays Inside.note Op.Orderly fun m => m.isSome = true := by
  refine Proc.stays_of_uses h ?_
  intro m o ho hm
  refine ⟨ho.orderly m, fun r => ?_⟩
  obtain ⟨n, rfl⟩ := Option.isSome_iff_exists.mp hm
  exact note_some ho.2.2 n r

theorem outside_of_free {α : Type} {p : Proc Effects α} (h : p.Uses Op.Free) : Outside p := by
  refine Proc.stays_of_uses h ?_
  rintro m o ho rfl
  exact ⟨ho.orderly none, note_none ho.2.1⟩

end Notes

section Outside
open Fallible

theorem free_store {q : StoreOp} (h : (Op.store q).exclusive = false) :
    (store q).run.Uses Op.Free := uses_store ⟨h, rfl, rfl⟩

theorem free_node {c : NodeCall} (h : (Op.node c).exclusive = false) :
    (node c).run.Uses Op.Free := uses_node ⟨h, rfl, rfl⟩

theorem free_now : now.Uses Op.Free := uses_now ⟨rfl, rfl, rfl⟩

theorem free_ignore {ε α : Type} {p : Prog ε α} (h : p.run.Uses Op.Free) :
    (do let _ ← p.run; return () : Proc Effects Unit).Uses Op.Free :=
  Proc.uses_bind h fun _ => trivial

/-! ### The node's state -/

theorem free_setNodeState (state : NodeState) : (setNodeState state).run.Uses Op.Free :=
  setNodeState_uses ⟨rfl, rfl, rfl⟩ ⟨rfl, rfl, rfl⟩ (fun _ _ => ⟨rfl, rfl, rfl⟩) state

/-- The state is set, and then something is returned. -/
theorem free_noting {α : Type} (state : NodeState) (a : α) :
    (do setNodeState state; return a : Prog EngineError α).run.Uses Op.Free :=
  Fallible.uses_bind (free_setNodeState state) fun _ => trivial

theorem free_isUnlocked : isUnlocked.Uses Op.Free := by
  refine Proc.uses_bind (free_store rfl) fun r => ?_
  split <;> trivial

theorem free_checkNetwork (cfg : Config) : (checkNetwork cfg).run.Uses Op.Free := by
  rw [checkNetwork]
  cases cfg.rln.network with
  | none => trivial
  | some want =>
    refine Fallible.uses_bind (uses_mapErr (free_node rfl)) fun got => ?_
    split <;> trivial

theorem free_probe (cfg : Config) : (probe cfg).run.Uses Op.Free := by
  refine Fallible.uses_bind (uses_attempt (Fallible.uses_bind (uses_mapErr (free_node rfl))
    fun _ => free_checkNetwork cfg)) fun checked => ?_
  cases checked with
  | ok _ => exact free_noting _ _
  | error e =>
    simp only
    split
    · exact free_noting _ _
    · exact free_noting _ _
    · split
      · exact Fallible.uses_bind (free_setNodeState _) fun _ => trivial
      · trivial

theorem free_classify (e : EngineError) : (classify e).run.Uses Op.Free := by
  rw [classify]
  split
  · exact free_noting _ _
  · trivial
  · trivial

theorem free_noteLocked (status : ℕ) (body : Option RlnErrorBody) :
    (noteLocked status body).Uses Op.Free := by
  rw [noteLocked]
  split
  · trivial
  · exact free_ignore (free_setNodeState _)

/-! ### Payments -/

theorem free_applyPaymentObserved (row : Payment) (observed : PaymentStatus) (now : ℤ) :
    (applyPaymentObserved row observed now).run.Uses Op.Free :=
  applyPaymentObserved_asks ⟨rfl, rfl, rfl⟩ (fun _ _ _ _ _ _ => ⟨rfl, rfl, rfl⟩) row
    observed now

theorem free_observePayments (baseline : Bool) (now : ℤ) (ps : List RlnPayment)
    (report : PaymentSyncReport) :
    (observePayments baseline now ps report).run.Uses Op.Free := by
  induction ps generalizing report with
  | nil => trivial
  | cons p ps ih =>
    refine Fallible.uses_bind ?_ ih
    refine Fallible.uses_bind (uses_mapErr (free_store rfl)) fun row => ?_
    refine Fallible.uses_bind (free_applyPaymentObserved _ _ _) fun moved => ?_
    cases moved <;> trivial

theorem free_syncPayments (cfg : Config.Sync) (now : ℤ) :
    (syncPayments cfg now).run.Uses Op.Free := by
  refine Fallible.uses_bind (uses_mapErr (free_node rfl)) fun ps => ?_
  refine Fallible.uses_bind (uses_mapErr (free_store rfl)) fun baseline => ?_
  refine Fallible.uses_bind (free_observePayments _ _ _ _) fun report => ?_
  cases baseline with
  | some t => trivial
  | none => exact Fallible.uses_bind (uses_mapErr (free_store rfl)) fun _ => trivial

theorem free_paymentsTick (cfg : Config) (now : ℤ) : (paymentsTick cfg now).run.Uses Op.Free := by
  refine Fallible.uses_bind (uses_mapErr (free_store rfl)) fun state => ?_
  split
  · trivial
  refine Fallible.uses_bind (uses_attempt (free_syncPayments _ _)) fun outcome => ?_
  cases outcome with
  | ok report => trivial
  | error e =>
    refine Fallible.uses_bind (free_classify _) fun f => ?_
    cases f <;> trivial

theorem free_paymentsPass (cfg : Config) : (paymentsPass cfg).Uses Op.Free := by
  refine Proc.uses_bind free_now fun t => Proc.uses_bind (free_paymentsTick cfg t) fun r => ?_
  split
  · exact free_ignore (free_probe cfg)
  · trivial

theorem free_recordOutboundPayment (resp : PaymentResponse) (assetId : Option String)
    (assetAmount amtMsat : Option ℕ) (payeePubkey : Option String) :
    (recordOutboundPayment resp assetId assetAmount amtMsat payeePubkey).run.Uses Op.Free := by
  rw [recordOutboundPayment]
  split
  · trivial
  refine Fallible.uses_bind (uses_lift free_now) fun t => ?_
  refine Fallible.uses_bind (uses_mapErr (free_store rfl)) fun inserted => ?_
  exact Fallible.uses_bind (uses_mapErr (free_applyPaymentObserved _ _ _)) fun _ => trivial

/-! ### Hooks -/

theorem free_parseReq {α : Type} (req : Option α) : (parseReq req).run.Uses Op.Free := by
  cases req <;> trivial

theorem free_parseResp {α : Type} (resp : Option α) : (parseResp resp).run.Uses Op.Free := by
  cases resp <;> trivial

theorem free_forwardThen {r : Route} {onSuccess : Option r.Resp → Prog HookError Unit}
    (hr : (Op.forward r).exclusive = false) (h : ∀ resp, (onSuccess resp).run.Uses Op.Free) :
    (forwardThen r onSuccess).Uses Op.Free := by
  refine Proc.uses_bind (@Proc.uses_perform Effects _ (.forward r) ⟨hr, rfl, rfl⟩)
    fun answer => ?_
  cases answer with
  | failed => trivial
  | success body => exact free_ignore (h body)
  | refused status body => exact free_noteLocked status body

theorem free_insertSends (req : SendRequest) (resp : SendResponse) (assetIds : List String) :
    (insertSends req resp assetIds).run.Uses Op.Free := by
  induction assetIds with
  | nil => trivial
  | cons assetId assetIds ih =>
    refine Fallible.uses_bind (uses_lift free_now) fun _ => ?_
    exact Fallible.uses_bind (uses_mapErr (free_store rfl)) fun _ => ih

theorem free_rgbinvoiceHook (req : Option InvoiceRequest) (resp : Option InvoiceResponse) :
    (rgbinvoiceHook req resp).run.Uses Op.Free := by
  refine Fallible.uses_bind (free_parseReq req) fun _ => ?_
  refine Fallible.uses_bind (free_parseResp resp) fun _ => ?_
  refine Fallible.uses_bind (uses_lift free_now) fun _ => ?_
  exact Fallible.uses_bind (uses_mapErr (free_store rfl)) fun _ => trivial

theorem free_lninvoiceHook (req : Option LNInvoiceRequest) (resp : Option LNInvoiceResponse) :
    (lninvoiceHook req resp).run.Uses Op.Free := by
  refine Fallible.uses_bind (free_parseReq req) fun _ => ?_
  refine Fallible.uses_bind (free_parseResp resp) fun _ => ?_
  refine Fallible.uses_bind (uses_mapErr (uses_mapErr (free_node rfl))) fun hash => ?_
  refine Fallible.uses_bind (uses_lift free_now) fun _ => ?_
  exact Fallible.uses_bind (uses_mapErr (free_store rfl)) fun _ => trivial

theorem free_keysendHook (req : Option KeysendRequest) (resp : Option PaymentResponse) :
    (keysendHook req resp).run.Uses Op.Free := by
  refine Fallible.uses_bind (free_parseReq req) fun _ => ?_
  exact Fallible.uses_bind (free_parseResp resp) fun _ => free_recordOutboundPayment _ _ _ _ _

theorem free_sendpaymentHook (req : Option SendPaymentRequest) (resp : Option PaymentResponse) :
    (sendpaymentHook req resp).run.Uses Op.Free := by
  refine Fallible.uses_bind (free_parseReq req) fun _ => ?_
  exact Fallible.uses_bind (free_parseResp resp) fun _ => free_recordOutboundPayment _ _ _ _ _

theorem free_rgbinvoice (req : Option InvoiceRequest) : (rgbinvoice req).Uses Op.Free :=
  free_forwardThen rfl (free_rgbinvoiceHook req)

theorem free_lninvoice (req : Option LNInvoiceRequest) : (lninvoice req).Uses Op.Free :=
  free_forwardThen rfl (free_lninvoiceHook req)

theorem free_sendrgb (req : Option SendRequest) : (sendrgb req).Uses Op.Free := by
  refine free_forwardThen rfl fun resp => ?_
  refine Fallible.uses_bind (free_parseReq req) fun _ => ?_
  exact Fallible.uses_bind (free_parseResp resp) fun _ => free_insertSends _ _ _

theorem free_keysend (req : Option KeysendRequest) : (keysend req).Uses Op.Free :=
  free_forwardThen rfl (free_keysendHook req)

theorem free_sendpayment (req : Option SendPaymentRequest) : (sendpayment req).Uses Op.Free :=
  free_forwardThen rfl (free_sendpaymentHook req)

theorem free_issue (schema : String) : (issue schema).Uses Op.Free := by
  refine free_forwardThen rfl fun resp => ?_
  refine Fallible.uses_bind (free_parseResp resp) fun _ => ?_
  refine Fallible.uses_bind (uses_lift free_now) fun _ => ?_
  exact uses_mapErr (free_store rfl)

theorem free_parseOnly {r : Route} {α : Type} (hr : (Op.forward r).exclusive = false)
    (req : Option α) :
    (forwardThen r fun _ => do let _ ← parseReq req; return ()).Uses Op.Free :=
  free_forwardThen hr fun _ => Fallible.uses_bind (free_parseReq req) fun _ => trivial

theorem free_stateHook {r : Route} (hr : (Op.forward r).exclusive = false) (state : NodeState) :
    (stateHook r state).Uses Op.Free :=
  free_forwardThen hr fun _ => uses_mapErr (free_setNodeState state)

end Outside

/-! ## The tasks inside

Inside, what matters is with which notes a program ends when it does not fail. -/

/-- From the notes `n` on, `p` is orderly and never leaves the lock, and when it returns
`a` with notes `n'` they are in `A`. -/
def Holding {ε α : Type} (n : Inside) (p : Prog ε α) (A : α → Inside → Prop) : Prop :=
  p.run.Keeps Inside.note Op.Orderly (some n) fun r m => ∃ n', m = some n' ∧
    ∀ a, r = .ok a → A a n'

section Holding
variable {ε ε' α β : Type} {n : Inside} {p : Prog ε α} {A : α → Inside → Prop}
  {B : β → Inside → Prop}

theorem Holding.mono {A' : α → Inside → Prop} (h : Holding n p A) (hA : ∀ a n', A a n' → A' a n') :
    Holding n p A' := by
  refine Proc.Keeps.mono h ?_
  rintro r m ⟨n', rfl, hn'⟩
  exact ⟨n', rfl, fun a ha => hA a n' (hn' a ha)⟩

theorem holding_pure {a : α} (h : A a n) : Holding n (pure a : Prog ε α) A :=
  ⟨n, rfl, fun _ ha => (Except.ok.inj ha) ▸ h⟩

theorem holding_throw {e : ε} : Holding n (throw e : Prog ε α) A :=
  ⟨n, rfl, nofun⟩

theorem holding_bind {f : α → Prog ε β} (hp : Holding n p A)
    (hf : ∀ a n', A a n' → Holding n' (f a) B) : Holding n (p >>= f) B := by
  apply Fallible.keeps_bind
  refine Proc.Keeps.mono hp ?_
  rintro r m ⟨n', rfl, hn'⟩
  cases r with
  | ok a => exact hf a n' (hn' a rfl)
  | error e => exact ⟨n', rfl, nofun⟩

theorem holding_mapErr {f : ε → ε'} (h : Holding n p A) : Holding n (Fallible.mapErr f p) A := by
  apply Fallible.keeps_mapErr
  refine Proc.Keeps.mono h ?_
  rintro r m ⟨n', rfl, hn'⟩
  refine ⟨n', rfl, fun a ha => hn' a ?_⟩
  cases r with
  | ok b => exact congrArg Except.ok (Except.ok.inj ha)
  | error e => cases ha

/-- An attempt looks at the outcome, and the notes are as the program leaves them. -/
theorem holding_attempt (h : Holding n p A) :
    Holding n (Fallible.attempt p : Prog ε' (Except ε α)) fun r n' => ∀ a, r = .ok a → A a n' := by
  apply Proc.keeps_bind
  refine Proc.Keeps.mono h ?_
  rintro r m ⟨n', rfl, hn'⟩
  exact ⟨n', rfl, fun r' hr' => (Except.ok.inj hr') ▸ hn'⟩

theorem holding_free (h : p.run.Uses Op.Free) : Holding n p fun _ _ => True := by
  refine (stays_of_free h (some n) rfl).mono fun r m hm => ?_
  obtain ⟨n', rfl⟩ := Option.isSome_iff_exists.mp hm
  exact ⟨n', rfl, fun _ _ => trivial⟩

/-- A failed operation of the store teaches nothing. -/
theorem holding_store {q : StoreOp} {A : q.Res → Inside → Prop}
    (ho : Op.Orderly (some n) (.store q))
    (hok : ∀ a, ∃ n', Inside.note (some n) (.store q) (.ok a) = some n' ∧ A a n') :
    Holding n (store q) A := by
  refine ⟨ho, fun r => ?_⟩
  cases r with
  | ok a =>
    obtain ⟨n', hnote, ha⟩ := hok a
    exact ⟨n', hnote, fun _ hr => (Except.ok.inj hr) ▸ ha⟩
  | error e => exact ⟨n, by cases q <;> rfl, nofun⟩

theorem holding_node {c : NodeCall} {A : c.Res → Inside → Prop}
    (hok : ∀ a, ∃ n', Inside.note (some n) (.node c) (.ok a) = some n' ∧ A a n') :
    Holding n (node c) A := by
  refine ⟨by cases c <;> simp [Op.Orderly], fun r => ?_⟩
  cases r with
  | ok a =>
    obtain ⟨n', hnote, ha⟩ := hok a
    exact ⟨n', hnote, fun _ hr => (Except.ok.inj hr) ▸ ha⟩
  | error e => exact ⟨n, by cases c <;> rfl, nofun⟩

/-- An operation that teaches nothing. -/
theorem holding_quiet {q : StoreOp} (ho : Op.Orderly (some n) (.store q))
    (hok : ∀ a, Inside.note (some n) (.store q) (.ok a) = some n) :
    Holding n (store q) fun _ n' => n' = n :=
  holding_store ho fun a => ⟨n, hok a, rfl⟩

/-! ### Syncs -/

theorem holding_applyObserved (row : Transfer) (observed : TransferStatus) (now : ℤ) :
    Holding n (applyObserved row observed now) fun _ n' => n' = n := by
  rw [applyObserved]
  cases planTransition row observed with
  | none => exact holding_pure rfl
  | some tr =>
    have huuid : Holding n (liftM newUuid : Prog SyncError ℕ) fun _ n' => n' = n :=
      ⟨Op.Free.orderly ⟨rfl, rfl, rfl⟩ _, fun r => ⟨n, rfl, fun _ _ => rfl⟩⟩
    refine holding_bind huuid fun eventId n' hn' => ?_
    subst hn'
    exact holding_mapErr (holding_quiet (fun _ => rfl) fun _ => rfl)

/-- What a listing owes is written by the loop over it, one transfer after the other. -/
theorem holding_observeAll (assetId : Option String) (now : ℤ) (ts : List RlnTransfer)
    (report : SyncReport) (n : Inside) :
    Holding (n.entered assetId ts) (observeAll assetId now ts report) fun _ n' => n' = n := by
  induction ts generalizing report with
  | nil => exact holding_pure rfl
  | cons t ts ih =>
    have hobserve : Holding (n.entered assetId (t :: ts)) (observe report assetId t now)
        fun _ n' => n' = n.entered assetId ts := by
      refine holding_bind (holding_mapErr (holding_store (fun _ => rfl) fun row => ⟨_, rfl, rfl⟩))
        fun row n' hn' => ?_
      subst hn'
      refine holding_bind (holding_applyObserved row t.status now) fun moved n' hn' => ?_
      subst hn'
      have herase : ({ n.entered assetId (t :: ts) with
          unwritten := (n.entered assetId (t :: ts)).unwritten.erase (t.observed assetId) } :
            Inside) = n.entered assetId ts := by
        simp [Inside.entered]
      rw [herase]
      cases moved <;> exact holding_pure rfl
    refine holding_bind hobserve fun report' n' hn' => ?_
    subst hn'
    exact ih report'

/-- The assets listed are no longer to be listed. -/
def Inside.ticked (n : Inside) (ids : List String) : Inside :=
  { n with unlisted := n.unlisted.map fun rest => ids.foldl List.erase rest }

theorem holding_syncAssets (pageSize : ℕ) (now : ℤ) (ids : List String) (report : SyncReport)
    (n : Inside) :
    Holding n (syncAssets pageSize now ids report) fun _ n' => n' = n.ticked ids := by
  induction ids generalizing report n with
  | nil => exact holding_pure (by simp [Inside.ticked])
  | cons id ids ih =>
    refine holding_bind (holding_mapErr (holding_node fun ts => ⟨_, rfl, rfl⟩)) fun ts n' hn' => ?_
    subst hn'
    refine holding_bind (holding_observeAll (some id) now ts report _) fun report' n' hn' => ?_
    subst hn'
    refine (ih report' _).mono fun _ n' hn' => ?_
    rw [hn']
    simp [Inside.ticked, Function.comp_def]

theorem holding_upsertAssets (assets : List (String × String)) (now : ℤ) (n : Inside) :
    Holding n (store (.upsertAssets assets now)) fun _ n' => n' = n :=
  holding_quiet (Op.Free.orderly ⟨rfl, rfl, rfl⟩ _) fun _ => rfl

theorem holding_fetchAssets (now : ℤ) (n : Inside) :
    Holding n (fetchAssets now) fun ids n' => n' = { n with unlisted := some (btreeSet ids) } := by
  refine holding_bind (holding_mapErr (holding_node fun assets => ⟨_, rfl, rfl⟩))
    fun assets n' hn' => ?_
  subst hn'
  refine holding_bind (holding_mapErr (holding_upsertAssets assets now _)) fun _ n' hn' => ?_
  exact holding_pure hn'

theorem foldl_erase_self (ids : List String) : ids.foldl List.erase ids = [] := by
  induction ids with
  | nil => rfl
  | cons id ids ih => simpa using ih

/-- A full sync that completes has listed and written everything since the clock was read. -/
theorem holding_sync_full (cfg : Config.Sync) (t : ℤ) (hclock : n.clock = some t)
    (hnone : n.unwritten = []) :
    Holding n (sync cfg .full t) fun _ n' => n'.Complete t := by
  refine holding_bind (A := fun listed n' => listed.2 = true ∧
    n' = { n with unlisted := some listed.1 }) ?_ ?_
  · refine holding_bind (holding_fetchAssets t n) fun ids n' hn' => ?_
    exact holding_pure ⟨rfl, hn'⟩
  rintro ⟨ids, assetless⟩ n' ⟨hassetless, rfl⟩
  simp only at hassetless
  subst hassetless
  refine holding_bind (holding_mapErr (holding_node fun ts => ⟨_, rfl, rfl⟩)) fun ts n' hn' => ?_
  subst hn'
  refine holding_bind (holding_observeAll none t ts _ _) fun report n' hn' => ?_
  subst hn'
  refine (holding_syncAssets _ _ _ _ _).mono fun _ n' hn' => ?_
  subst hn'
  exact ⟨hclock, by simp [Inside.ticked, foldl_erase_self], rfl, hnone⟩

/-- Any other sync keeps the lock as well. -/
theorem holding_sync (cfg : Config.Sync) (scope : Scope) (now : ℤ) :
    Holding n (sync cfg scope now) fun _ _ => True := by
  refine holding_bind (A := fun _ _ => True) ?_ ?_
  · cases scope with
    | full =>
      exact holding_bind (holding_fetchAssets now n) fun _ _ _ => holding_pure trivial
    | assets ids => exact holding_pure trivial
    | pending =>
      refine holding_bind (holding_mapErr (holding_quiet (fun _ => rfl) fun _ => rfl))
        fun found n' _ => ?_
      obtain ⟨ids, agnostic⟩ := found
      cases agnostic with
      | false => exact holding_pure trivial
      | true => exact holding_bind (holding_fetchAssets now n') fun _ _ _ => holding_pure trivial
  rintro ⟨ids, assetless⟩ n' -
  cases assetless with
  | false => exact (holding_syncAssets _ _ _ _ _).mono fun _ _ _ => trivial
  | true =>
    refine holding_bind (holding_mapErr (holding_node fun ts => ⟨_, rfl, rfl⟩)) fun ts n' hn' => ?_
    subst hn'
    refine holding_bind (holding_observeAll none now ts _ _) fun report n' _ => ?_
    exact (holding_syncAssets _ _ _ _ _).mono fun _ _ _ => trivial

end Holding

/-! ## Every task -/

section Tasks
open Fallible
variable {ε α : Type}

theorem outside_withLock {p : Prog ε α} (h : Holding {} p fun _ _ => True) :
    Outside (withLock p).run := by
  rintro m rfl
  refine ⟨rfl, fun _ => Proc.keeps_bind (p := p.run) ?_⟩
  refine Proc.Keeps.mono h ?_
  rintro r m ⟨n', rfl, -⟩
  exact ⟨rfl, fun _ => rfl⟩

theorem outside_ignore {p : Prog ε α} (h : Outside p.run) :
    Outside (do let _ ← p.run; return () : Proc Effects Unit) :=
  Proc.stays_bind h fun _ => Proc.stays_done _

theorem outside_backoffProbe (cfg : Config) : Outside (backoffProbe cfg) :=
  outside_of_free (free_ignore (free_probe cfg))

theorem outside_fullSync (cfg : Config) : Outside (fullSync cfg).run := by
  apply outside_withLock
  have hclock : Holding {} (liftM now : Prog EngineError ℤ)
      fun t n' => n' = { clock := some t } :=
    ⟨Op.Free.orderly ⟨rfl, rfl, rfl⟩ _, fun r => ⟨_, rfl, fun _ ha => (Except.ok.inj ha) ▸ rfl⟩⟩
  refine holding_bind hclock fun t n' hn' => ?_
  subst hn'
  refine holding_bind (holding_mapErr (holding_sync_full cfg.sync t rfl rfl))
    fun report n' hn' => ?_
  refine holding_bind (holding_mapErr (holding_quiet ⟨n', rfl, hn'⟩ fun _ => rfl))
    fun _ n' _ => ?_
  exact holding_pure trivial

theorem holding_syncLocked (cfg : Config) (scope : Scope) (now : ℤ) (n : Inside) :
    Holding n (syncLocked cfg scope now) fun _ _ => True := by
  refine holding_bind (holding_attempt (holding_sync cfg.sync scope now)) fun outcome n' _ => ?_
  cases outcome with
  | ok report => exact holding_pure trivial
  | error e =>
    simp only
    split
    · exact holding_bind (holding_free (free_setNodeState _)) fun _ _ _ => holding_throw
    · exact holding_throw

theorem outside_tick (cfg : Config) (now : ℤ) : Outside (tick cfg now).run := by
  refine stays_bind (outside_of_free (uses_mapErr (free_store rfl))) fun state => ?_
  split
  · exact Proc.stays_done _
  refine stays_bind (outside_of_free (uses_mapErr (free_store rfl))) fun waiting => ?_
  split
  · exact Proc.stays_done _
  apply outside_withLock
  have hrefresh : Holding {} (refreshAndSync cfg now) fun _ _ => True :=
    holding_bind (holding_mapErr (holding_node (A := fun _ _ => True) fun _ => ⟨_, rfl, trivial⟩))
      fun _ _ _ => holding_mapErr (holding_sync cfg.sync .pending now)
  refine holding_bind (holding_attempt hrefresh) fun outcome n' _ => ?_
  cases outcome with
  | ok report => exact holding_pure trivial
  | error e =>
    refine holding_bind (holding_free (free_classify e)) fun f _ _ => ?_
    cases f <;> exact holding_pure trivial

theorem holding_reapAll (now : ℤ) (ts : List Transfer) (failed : ℕ) (n : Inside) :
    Holding n (reapAll now ts failed) fun _ _ => True := by
  induction ts generalizing failed n with
  | nil => exact holding_pure trivial
  | cons t ts ih =>
    rw [reapAll]
    split
    · exact ih failed n
    refine holding_bind (holding_attempt (holding_node (A := fun _ _ => True)
      fun _ => ⟨_, rfl, trivial⟩)) fun outcome n' _ => ?_
    split
    · refine holding_bind (holding_mapErr (holding_applyObserved t .failed now))
        fun _ n' _ => ih _ n'
    · exact ih failed n'
    · exact holding_bind (holding_free (free_setNodeState _)) fun _ _ _ => holding_pure trivial
    · exact holding_pure trivial
    · exact holding_throw

theorem outside_reap (now : ℤ) : Outside (reap now).run := by
  apply outside_withLock
  refine holding_bind (holding_mapErr (holding_quiet (fun _ => rfl) fun _ => rfl))
    fun expired n' _ => ?_
  exact holding_reapAll now expired 0 n'

theorem outside_reconcileOnce (cfg : Config) : Outside (reconcileOnce cfg).run := by
  refine stays_bind (stays_attempt (stays_bind (outside_fullSync cfg)
    fun _ => outside_of_free (free_checkNetwork cfg))) fun synced => ?_
  split
  · exact outside_of_free (free_noting _ _)
  · exact outside_of_free (free_noting _ _)
  · split
    · exact outside_of_free (free_noting _ _)
    · exact outside_of_free (free_noting _ _)
    · exact Proc.stays_done _

theorem outside_reconcile (cfg : Config) (attempts : ℕ) : Outside (reconcile cfg attempts).run := by
  induction attempts with
  | zero => exact stays_bind (outside_reconcileOnce cfg) fun _ => Proc.stays_done _
  | succ attempts ih =>
    refine stays_bind (outside_reconcileOnce cfg) fun ended => ?_
    cases ended with
    | some b => exact Proc.stays_done _
    | none => exact ih

theorem outside_startup (cfg : Config) (attempts : ℕ) : Outside (startup cfg attempts) := by
  refine Proc.stays_bind (outside_of_free (free_probe cfg)) fun outcome => ?_
  cases outcome with
  | ok state => exact outside_ignore (outside_reconcile cfg attempts)
  | error e => exact Proc.stays_done _

theorem outside_refreshPass (cfg : Config) : Outside (refreshPass cfg) := by
  refine Proc.stays_bind (outside_of_free free_now) fun t => ?_
  refine Proc.stays_bind (outside_tick cfg t) fun outcome => ?_
  split
  · exact outside_backoffProbe cfg
  · exact outside_backoffProbe cfg
  · exact outside_backoffProbe cfg
  · exact Proc.stays_done _

theorem outside_reaperPass : Outside reaperPass := by
  refine Proc.stays_bind (outside_of_free free_isUnlocked) fun unlocked => ?_
  cases unlocked with
  | false => exact Proc.stays_done _
  | true =>
    exact Proc.stays_bind (outside_of_free free_now) fun t => outside_ignore (outside_reap t)

theorem outside_fullSyncPass (cfg : Config) : Outside (fullSyncPass cfg) := by
  refine Proc.stays_bind (outside_of_free free_isUnlocked) fun unlocked => ?_
  cases unlocked with
  | false => exact Proc.stays_done _
  | true =>
    refine Proc.stays_bind (outside_fullSync cfg) fun outcome => ?_
    cases outcome with
    | ok report => exact Proc.stays_done _
    | error e =>
      refine Proc.stays_bind (outside_of_free (free_classify e)) fun f => ?_
      split
      · exact outside_backoffProbe cfg
      · exact Proc.stays_done _

/-- Whatever a forwarded request does, it keeps the lock if its hook does. -/
theorem stays_forwardThen {r : Route} {onSuccess : Option r.Resp → Prog HookError Unit}
    (h : ∀ resp, (onSuccess resp).run.Stays Inside.note Op.Orderly fun m => m.isSome = true) :
    (forwardThen r onSuccess).Stays Inside.note Op.Orderly fun m => m.isSome = true := by
  intro m hm
  obtain ⟨n, rfl⟩ := Option.isSome_iff_exists.mp hm
  refine ⟨by cases r <;> simp [Op.Orderly], fun answer => ?_⟩
  cases answer with
  | failed => exact rfl
  | success body => exact Proc.stays_bind (h body) (fun _ => Proc.stays_done _) _ rfl
  | refused status body => exact stays_of_free (free_noteLocked status body) _ rfl

theorem outside_syncPending (cfg : Config) (r : Route) : Outside (syncPending cfg r) := by
  have hforward : (forwardThen r fun _ => do
      let t ← now
      let _ ← mapErr .engine (syncLocked cfg .pending t)
      return ()).Stays Inside.note Op.Orderly fun m => m.isSome = true := by
    apply stays_forwardThen
    intro resp m hm
    obtain ⟨n, rfl⟩ := Option.isSome_iff_exists.mp hm
    have hhook : Holding n (do
        let t ← now
        let _ ← mapErr .engine (syncLocked cfg .pending t)
        return () : Prog HookError Unit) fun _ _ => True := by
      refine holding_bind (holding_free (uses_lift free_now)) fun t n' _ => ?_
      exact holding_bind (holding_mapErr (holding_syncLocked cfg .pending t n'))
        fun _ _ _ => holding_pure trivial
    refine Proc.Keeps.mono hhook ?_
    rintro r m ⟨n', rfl, -⟩
    exact rfl
  rintro m rfl
  refine ⟨rfl, fun _ => Proc.keeps_bind (p := forwardThen r _) ?_⟩
  exact (hforward (some {}) rfl).mono fun _ m hm => ⟨hm, fun _ => rfl⟩

theorem outside_assetSync (cfg : Config) (ids : List String) : Outside (assetSync cfg ids) := by
  refine outside_ignore (outside_withLock ?_)
  refine holding_bind (holding_free (uses_lift free_now)) fun t n' _ => ?_
  exact holding_syncLocked cfg (.assets ids) t n'

/-- Every task that may start begins and ends without the lock. -/
theorem Task.outside {cfg : Config} {p : Proc Effects Unit} (h : Task cfg p) : Outside p := by
  cases h with
  | rgbinvoice req => exact outside_of_free (free_rgbinvoice req)
  | sendrgb req => exact outside_of_free (free_sendrgb req)
  | keysend req => exact outside_of_free (free_keysend req)
  | sendpayment req => exact outside_of_free (free_sendpayment req)
  | lninvoice req => exact outside_of_free (free_lninvoice req)
  | issueassetnia | issueassetcfa | issueassetuda | issueassetifa =>
    exact outside_of_free (free_issue _)
  | inflate req => exact outside_of_free (free_parseOnly rfl req)
  | assetlink req => exact outside_of_free (free_parseOnly rfl req)
  | refreshtransfers | failtransfers => exact outside_syncPending cfg _
  | init | restore | lock | unlock | shutdown => exact outside_of_free (free_stateHook rfl _)
  | fallback => exact outside_of_free (free_forwardThen rfl fun _ => trivial)
  | assetSync ids => exact outside_assetSync cfg ids
  | reconcile attempts => exact outside_ignore (outside_reconcile cfg attempts)
  | refreshPass => exact outside_refreshPass cfg
  | reaperPass => exact outside_reaperPass
  | fullSyncPass => exact outside_fullSyncPass cfg
  | paymentsPass => exact outside_of_free (free_paymentsPass cfg)

theorem outside_dispatcher (cfg : Config.Webhook) (passes : ℕ) :
    Outside (dispatcher cfg passes) := by
  refine outside_of_free ((dispatcher_uses cfg passes).mono fun o ho => ?_)
  cases o with
  | store q => cases q <;> first | exact ⟨rfl, rfl, rfl⟩ | cases ho
  | post ev => exact ⟨rfl, rfl, rfl⟩
  | clock => exact ⟨rfl, rfl, rfl⟩
  | node _ | forward _ | uuid | lock | unlock => cases ho

end Tasks

/-! ## The lock -/

section Runs
open Pool
variable {cfg : Config} {hist : List (Event Effects Host)} {c : Pool.Config Effects Host}

theorem locked_commit {α : Type} (h : Host) (r : Except StoreError (α × Db)) :
    (h.commit r).2.locked = h.locked := by
  cases r <;> rfl

/-- Only the operations of the lock change it. -/
theorem locked_perform {w : World} {o : Op} {h h' : Host} {r : o.Res}
    (hp : w.perform o h = some (r, h')) (htake : o.takesLock = false)
    (hgive : o.givesLock = false) : h'.locked = h.locked := by
  cases o with
  | lock => cases htake
  | unlock => cases hgive
  | store q =>
    rcases perform_store hp with ⟨-, rfl⟩ | hq
    · rfl
    · have hpost : h' = (q.perform h).2 := (congrArg Prod.snd hq).symm
      rw [hpost]
      cases q <;> first | rfl | exact locked_commit _ _
  | node _ | forward _ | post _ | clock | uuid =>
    exact congrArg (fun x => x.2.locked) (Option.some.inj hp).symm

/-- The lock is taken when nobody has it. -/
theorem takes_lock {w : World} {o : Op} {h h' : Host} {r : o.Res} (ho : o.takesLock = true)
    (hp : w.perform o h = some (r, h')) : h.locked = false ∧ h'.locked = true := by
  cases o with
  | lock =>
    simp only [World.perform] at hp
    split at hp
    · cases hp
    · next hfree =>
      exact ⟨by simpa using hfree, congrArg (fun x => x.2.locked) (Option.some.inj hp).symm⟩
  | _ => cases ho

theorem gives_lock {w : World} {o : Op} {h h' : Host} {r : o.Res} (ho : o.givesLock = true)
    (hp : w.perform o h = some (r, h')) : h'.locked = false := by
  cases o with
  | unlock => exact congrArg (fun x => x.2.locked) (Option.some.inj hp).symm
  | _ => cases ho

/-- Nothing but the lock is waited for. -/
theorem performable {o : Op} (h : Host) (htake : o.takesLock = false) :
    ∃ r h', (World.of .silent).perform o h = some (r, h') := by
  cases o with
  | lock => cases htake
  | _ => exact ⟨_, _, rfl⟩

/-- The engine lock of the companion. -/
def engineLock (cfg : Config) : Lock (system cfg) where
  takes := Op.takesLock
  gives := Op.givesLock
  held := Host.locked
  apart {o} h := by cases o <;> first | rfl | cases h
  take_ok := takes_lock
  give_ok := gives_lock
  other_ok htake hgive hp := locked_perform hp htake hgive
  drift_ok hd := congrArg Host.locked (Option.some.inj hd).symm
  reset_ok _ := rfl

theorem engineLock_tracks (cfg : Config) :
    (engineLock cfg).Tracks Inside.note Option.isSome where
  take {m o r} ho := by
    cases o with
    | lock => rfl
    | _ => cases ho
  give {m o r} ho := by
    cases o with
    | unlock => cases m <;> rfl
    | _ => cases ho
  other {m o r} htake hgive := by
    cases m with
    | none => exact congrArg Option.isSome (note_none htake r)
    | some n => exact note_some hgive n r

theorem engineLock_disciplined (cfg : Config) :
    (engineLock cfg).Disciplined Option.isSome Op.Orderly fun m => m = none where
  take {m o} h ho := by
    cases o with
    | lock => exact congrArg Option.isSome h
    | _ => cases ho
  give {m o} h ho := by
    cases o with
    | unlock => exact h
    | _ => cases ho
  done h := congrArg Option.isSome h

/-- All that runs keeps the contract of the lock. -/
theorem contracted (cfg : Config) :
    (system cfg).Contracted Inside.note none Op.Orderly (fun m => m = none) initial where
  boots := by
    rintro ps ⟨attempts, passes, rfl⟩ p hp
    rcases List.mem_pair.mp hp with rfl | rfl
    · exact outside_dispatcher _ _ none rfl
    · exact outside_startup cfg attempts none rfl
  starts p hp := Task.outside hp none rfl
  threads := by simp [initial]

/-- **The engine lock is never left behind.**  Whenever it is held, some task is inside and
can bring it back by its own steps alone, whatever the others do not do. -/
theorem lock_released (run : (system cfg).Run initial hist c) (hheld : c.shared.locked = true) :
    ∃ i p later c', c.threads[i]? = some p ∧ (system cfg).Run c later c' ∧
      (∀ e ∈ later, ∃ o r, e.label = .act i o r) ∧ c'.shared.locked = false := by
  have htracks := engineLock_tracks cfg
  obtain ⟨i, p, hi, hin⟩ : ∃ i p, c.threads[i]? = some p ∧
      (memory Inside.note none i hist).isSome = true := Lock.inside_of_held htracks rfl run hheld
  have hkeep := run.threads_keep (contracted cfg) i p hi
  obtain ⟨later, c', hlater, hacts, hclear⟩ :=
    Lock.drains htracks (engineLock_disciplined cfg)
      (fun _ o s htake => ⟨_, performable s htake⟩) hkeep hin c hi
  exact ⟨i, p, later, c', hi, hlater, hacts, hclear⟩

/-- What is exclusive is asked for inside. -/
theorem Op.Orderly.isSome {m : Option Inside} {o : Op} (h : o.Orderly m)
    (hex : o.exclusive = true) : m.isSome = true := by
  cases o with
  | store q =>
    cases q with
    | setLastFullSyncAt t =>
      obtain ⟨n, rfl, -⟩ := h
      rfl
    | _ => exact h hex
  | lock | unlock => cases hex
  | _ => exact h hex

theorem not_gives_exclusive {o : Op} (hex : o.exclusive = true) : o.givesLock = false := by
  cases o with
  | unlock => cases hex
  | _ => rfl

/-- **Critical sections come one after another.**  When another task does something
exclusive between two steps of a task of which the first is, the task has given the lock
back in between. -/
theorem lock_serializes (run : (system cfg).Run initial hist c)
    (habides : (engineLock cfg).Abides hist) {before s₁ s₂ after : List (Event Effects Host)}
    {e₁ e₂ e₃ : Event Effects Host}
    (hhist : hist = before ++ e₁ :: s₁ ++ e₂ :: s₂ ++ e₃ :: after) {i j : ℕ} (hij : i ≠ j)
    {o₁ o₂ o₃ : Op} {r₁ : o₁.Res} {r₂ : o₂.Res} {r₃ : o₃.Res} (he₁ : e₁.label = .act i o₁ r₁)
    (he₂ : e₂.label = .act j o₂ r₂) (he₃ : e₃.label = .act i o₃ r₃)
    (hex₁ : o₁.exclusive = true) (hex₂ : o₂.exclusive = true) :
    ∃ e ∈ s₁ ++ e₂ :: s₂, (engineLock cfg).Leaves i e := by
  have hfirst : hist = before ++ e₁ :: (s₁ ++ e₂ :: s₂ ++ e₃ :: after) := by simp [hhist]
  have hsecond : hist = (before ++ e₁ :: s₁) ++ e₂ :: (s₂ ++ e₃ :: after) := by simp [hhist]
  have hi := (run.act_keeps (contracted cfg) hfirst he₁).isSome hex₁
  have hj := (run.act_keeps (contracted cfg) hsecond he₂).isSome hex₂
  exact Lock.gives_between (engineLock_tracks cfg) (engineLock_disciplined cfg) rfl rfl
    (contracted cfg) run habides hhist hij he₁ he₂ he₃ (not_gives_exclusive hex₁) hi hj

end Runs

/-! ## Two tasks that want the lock -/

/-- A reconcile is interrupted by the node and gives the lock back; a request that was
waiting for it is forwarded, and then the reconcile goes on. -/
def contended : List (Pool.Move (system defaults)) :=
  [.start (reconcileTask defaults 0), .start (syncPending defaults .refreshtransfers)] ++
  List.replicate 4 (.act 0 (.of .silent)) ++ List.replicate 2 (.act 1 (.of .silent)) ++
  [.act 0 (.of .silent)]

theorem contended_admitted : Pool.Admitted contended := by
  refine Pool.admitted_append.mpr ⟨?_, trivial, trivial⟩
  refine Pool.admitted_append.mpr ⟨?_, Pool.admitted_replicate trivial⟩
  refine Pool.admitted_append.mpr ⟨?_, Pool.admitted_replicate trivial⟩
  exact ⟨.reconcile 0, .refreshtransfers, trivial⟩

theorem contended_plays : ((system defaults).play contended initial).isSome := rfl

/-- The request that is forwarded under the lock can end and give it back. -/
theorem lock_released_request : ∃ hist c, (system defaults).Run initial hist c ∧
    c.shared.locked = true ∧ ∃ i p later c', c.threads[i]? = some p ∧
      (system defaults).Run c later c' ∧ (∀ e ∈ later, ∃ o r, e.label = .act i o r) ∧
      c'.shared.locked = false := by
  have run := Pool.run_of_isSome contended_admitted contended_plays
  exact ⟨_, _, run, rfl, lock_released run rfl⟩

/-- Between the listing and the next step of the reconcile it has given the lock back. -/
theorem lock_serializes_request : ∃ hist c, (system defaults).Run initial hist c ∧
    ∃ before s₁ s₂ after e₁ e₂ e₃ r₁ r₂ r₃,
      hist = before ++ e₁ :: s₁ ++ e₂ :: s₂ ++ e₃ :: after ∧
      e₁.label = .act 0 (.node .listAssets) r₁ ∧ e₂.label = .act 1 (.forward .refreshtransfers) r₂ ∧
      e₃.label = .act 0 (.store .nodeState) r₃ ∧
      ∃ e ∈ s₁ ++ e₂ :: s₂, (engineLock defaults).Leaves 0 e := by
  have run := Pool.run_of_isSome contended_admitted contended_plays
  have hdrift : (((system defaults).play contended initial).get contended_plays).2.all
      (fun e => !e.label.isDrift) = true := rfl
  have habides := Pool.Lock.abides_of_no_drift (L := engineLock defaults)
    fun e he => by simpa using List.all_eq_true.mp hdrift e he
  obtain ⟨before, s₁, s₂, e₁, e₂, e₃, r₁, r₂, r₃, hhist, he₁, he₂, he₃⟩ :
      ∃ before s₁ s₂ e₁ e₂ e₃ r₁ r₂ r₃,
        (((system defaults).play contended initial).get contended_plays).2 =
          before ++ e₁ :: s₁ ++ e₂ :: s₂ ++ e₃ :: [] ∧
        e₁.label = .act 0 (.node .listAssets) r₁ ∧
        e₂.label = .act 1 (.forward .refreshtransfers) r₂ ∧
        e₃.label = .act 0 (.store .nodeState) r₃ :=
    ⟨[_, _, _, _], [_, _], [], _, _, _, _, _, _, rfl, rfl, rfl, rfl⟩
  exact ⟨_, _, run, before, s₁, s₂, [], e₁, e₂, e₃, r₁, r₂, r₃, hhist, he₁, he₂, he₃,
    lock_serializes run habides hhist (by decide) he₁ he₂ he₃ rfl rfl⟩

end Companion
