import Companion.Lib.Contract
import Companion.System

/-!
# Background work pauses

The passes of the background loops start with a look at the recorded state of the node,
and apart from the probe they call the node only after they have found it unlocked.  A
pass notes its last reading of the state, and what it may call is said of the notes.

## Main definitions

* `NodeCall.wallet` — the calls that need an unlocked node.
* `readUnlocked`, `Op.Awake` — what a pass has last read, and what it may call then.
* `BackgroundPass` — one pass of a loop.
* `pass_calls_unlocked` — in every run, a pass calls the wallet only behind such a reading.
-/

set_option autoImplicit false

namespace Companion
open Lib

/-- A call that needs the wallet: all but those a probe makes. -/
def NodeCall.wallet : NodeCall → Bool
  | .nodeInfo | .network => false
  | _ => true

/-- The answer to a reading of the node's state that finds it unlocked. -/
def foundUnlocked : Except StoreError NodeState → Bool
  | .ok .unlocked => true
  | _ => false

/-- The last reading of the node's state found it unlocked. -/
def readUnlocked : Bool → (o : Op) → o.Res → Bool
  | _, .store .nodeState, r => foundUnlocked r
  | m, _, _ => m

def Op.Awake (m : Bool) : Op → Prop
  | .node c => c.wallet = true → m = true
  | _ => True

/-- From the notes `m` on, the wallet is called only behind a reading that allows it. -/
def Gated {α : Type} (m : Bool) (p : Proc Effects α) : Prop :=
  p.Keeps readUnlocked Op.Awake m fun _ _ => True

/-- An operation that does not call the wallet. -/
def Op.Quiet : Op → Prop
  | .node c => c.wallet = false
  | _ => True

/-- An operation that does not read the node's state. -/
def Op.Steady : Op → Prop
  | .store .nodeState => False
  | _ => True

/-! ## Sequences -/

section Gated
variable {α β ε : Type} {m : Bool}

theorem gated_quiet {p : Proc Effects α} (h : p.Uses Op.Quiet) (m : Bool) : Gated m p := by
  have hstay : p.Stays readUnlocked Op.Awake fun _ => True := by
    apply Proc.stays_of_uses h
    intro m o ho _
    refine ⟨?_, fun _ => trivial⟩
    cases o with
    | node c => exact fun hc => by simp_all [Op.Quiet]
    | _ => trivial
  exact hstay m trivial

/-- As long as the state is not read again, the last reading stands. -/
theorem gated_steady {p : Proc Effects α} {f : α → Proc Effects β} (hp : p.Uses Op.Steady)
    (hf : ∀ a, Gated true (f a)) : Gated true (p >>= f) := by
  have hstay : p.Stays readUnlocked Op.Awake fun m => m = true := by
    apply Proc.stays_of_uses hp
    rintro m o ho rfl
    refine ⟨?_, fun r => ?_⟩
    · cases o with
      | node c => exact fun _ => rfl
      | _ => trivial
    · cases o with
      | store q => cases q <;> first | rfl | cases ho
      | _ => rfl
  apply Proc.keeps_bind
  refine (hstay true rfl).mono ?_
  rintro a m rfl
  exact hf a

theorem gated_steady_bind {p : Prog ε α} {f : α → Prog ε β} (hp : p.run.Uses Op.Steady)
    (hf : ∀ a, Gated true (f a).run) : Gated true (p >>= f).run := by
  rw [ExceptT.run_bind]
  refine gated_steady hp fun r => ?_
  cases r with
  | ok a => exact hf a
  | error e => trivial

theorem gated_bind {p : Proc Effects α} {f : α → Proc Effects β} (hp : Gated m p)
    (hf : ∀ a, (f a).Uses Op.Quiet) : Gated m (p >>= f) :=
  Proc.keeps_bind (hp.mono fun a m' _ => gated_quiet (hf a) m')

theorem gated_bindE {p : Prog ε α} {f : α → Prog ε β} (hp : Gated m p.run)
    (hf : ∀ a, (f a).run.Uses Op.Quiet) : Gated m (p >>= f).run := by
  rw [ExceptT.run_bind]
  refine gated_bind hp fun r => ?_
  cases r with
  | ok a => exact hf a
  | error e => trivial

/-- The state is read, and what follows depends on the answer. -/
theorem gated_nodeState {g : StoreError → ε} {f : NodeState → Prog ε β}
    (hf : ∀ s, Gated (foundUnlocked (.ok s)) (f s).run) :
    Gated m (Fallible.mapErr g (store .nodeState) >>= f).run := by
  refine ⟨trivial, fun r => ?_⟩
  cases r with
  | ok s => exact hf s
  | error e => trivial

theorem gated_isUnlocked {f : Bool → Proc Effects β} (hf : Gated true (f true))
    (hother : Gated false (f false)) : Gated m (isUnlocked >>= f) := by
  refine ⟨trivial, fun r => ?_⟩
  cases r with
  | ok s =>
    cases s with
    | unlocked => exact hf
    | _ => exact hother
  | error e => exact hother

end Gated

/-! ## What quiet and steady programs are -/

section Uses
open Fallible

theorem quiet_setNodeState (state : NodeState) : (setNodeState state).run.Uses Op.Quiet :=
  setNodeState_uses trivial trivial (fun _ _ => trivial) state

theorem quiet_noting {α : Type} (state : NodeState) (a : α) :
    (do setNodeState state; return a : Prog EngineError α).run.Uses Op.Quiet :=
  Fallible.uses_bind (quiet_setNodeState state) fun _ => trivial

theorem quiet_checkNetwork (cfg : Config) : (checkNetwork cfg).run.Uses Op.Quiet := by
  rw [checkNetwork]
  cases cfg.rln.network with
  | none => trivial
  | some want =>
    refine Fallible.uses_bind (uses_mapErr (uses_node rfl)) fun got => ?_
    split <;> trivial

theorem quiet_backoffProbe (cfg : Config) : (backoffProbe cfg).Uses Op.Quiet := by
  refine Proc.uses_bind ?_ fun _ => trivial
  refine Fallible.uses_bind (uses_attempt (Fallible.uses_bind (uses_mapErr (uses_node rfl))
    fun _ => quiet_checkNetwork cfg)) fun checked => ?_
  cases checked with
  | ok _ => exact quiet_noting _ _
  | error e =>
    simp only
    split
    · exact quiet_noting _ _
    · exact quiet_noting _ _
    · split
      · exact Fallible.uses_bind (quiet_setNodeState _) fun _ => trivial
      · trivial

theorem quiet_classify (e : EngineError) : (classify e).run.Uses Op.Quiet := by
  rw [classify]
  split
  · exact quiet_noting _ _
  · trivial
  · trivial

theorem steady_applyObserved (row : Transfer) (observed : TransferStatus) (now : ℤ) :
    (applyObserved row observed now).run.Uses Op.Steady := by
  rw [applyObserved]
  cases planTransition row observed with
  | none => trivial
  | some tr =>
    refine Fallible.uses_bind (uses_lift (Proc.uses_perform trivial)) fun eventId => ?_
    exact uses_mapErr (uses_store trivial)

theorem steady_observeAll (assetId : Option String) (now : ℤ) (ts : List RlnTransfer)
    (report : SyncReport) : (observeAll assetId now ts report).run.Uses Op.Steady := by
  induction ts generalizing report with
  | nil => trivial
  | cons t ts ih =>
    refine Fallible.uses_bind ?_ ih
    refine Fallible.uses_bind (uses_mapErr (uses_store trivial)) fun row => ?_
    refine Fallible.uses_bind (steady_applyObserved row t.status now) fun moved => ?_
    cases moved <;> trivial

theorem steady_syncAssets (pageSize : ℕ) (now : ℤ) (ids : List String) (report : SyncReport) :
    (syncAssets pageSize now ids report).run.Uses Op.Steady := by
  induction ids generalizing report with
  | nil => trivial
  | cons id ids ih =>
    refine Fallible.uses_bind (uses_mapErr (uses_node trivial)) fun ts => ?_
    exact Fallible.uses_bind (steady_observeAll _ _ _ _) ih

theorem steady_fetchAssets (now : ℤ) : (fetchAssets now).run.Uses Op.Steady := by
  refine Fallible.uses_bind (uses_mapErr (uses_node trivial)) fun assets => ?_
  exact Fallible.uses_bind (uses_mapErr (uses_store trivial)) fun _ => trivial

theorem steady_sync (cfg : Config.Sync) (scope : Scope) (now : ℤ) :
    (sync cfg scope now).run.Uses Op.Steady := by
  refine Fallible.uses_bind ?_ fun listed => ?_
  · cases scope with
    | full => exact Fallible.uses_bind (steady_fetchAssets now) fun _ => trivial
    | assets ids => trivial
    | pending =>
      refine Fallible.uses_bind (uses_mapErr (uses_store trivial)) fun found => ?_
      obtain ⟨ids, agnostic⟩ := found
      cases agnostic with
      | false => trivial
      | true => exact Fallible.uses_bind (steady_fetchAssets now) fun _ => trivial
  · obtain ⟨ids, assetless⟩ := listed
    cases assetless with
    | false => exact steady_syncAssets _ _ _ _
    | true =>
      refine Fallible.uses_bind (uses_mapErr (uses_node trivial)) fun ts => ?_
      exact Fallible.uses_bind (steady_observeAll _ _ _ _) fun _ => steady_syncAssets _ _ _ _

theorem quiet_observePayments (baseline : Bool) (now : ℤ) (ps : List RlnPayment)
    (report : PaymentSyncReport) :
    (observePayments baseline now ps report).run.Uses Op.Quiet := by
  induction ps generalizing report with
  | nil => trivial
  | cons p ps ih =>
    refine Fallible.uses_bind ?_ ih
    refine Fallible.uses_bind (uses_mapErr (uses_store trivial)) fun row => ?_
    refine Fallible.uses_bind (applyPaymentObserved_asks trivial (fun _ _ _ _ _ _ => trivial) _ _ _)
      fun moved => ?_
    cases moved <;> trivial

end Uses

/-! ## The passes -/

/-- One pass of a background loop. -/
inductive BackgroundPass (cfg : Config) : Proc Effects Unit → Prop
  | refresh : BackgroundPass cfg (refreshPass cfg)
  | reaper : BackgroundPass cfg reaperPass
  | payments : BackgroundPass cfg (paymentsPass cfg)
  | fullSync : BackgroundPass cfg (fullSyncPass cfg)

section Passes
open Fallible
variable {m : Bool}

/-- A program under the lock, once the node has been found unlocked. -/
theorem gated_withLock {ε α : Type} {p : Prog ε α} (h : Gated true p.run) :
    Gated true (withLock p).run :=
  ⟨trivial, fun _ => gated_bind (p := p.run) h fun _ =>
    Proc.uses_bind (@Proc.uses_perform Effects _ .unlock trivial) fun _ => trivial⟩

theorem gated_tick (cfg : Config) (now : ℤ) : Gated m (tick cfg now).run := by
  apply gated_nodeState
  intro state
  by_cases hstate : state = .unlocked
  · subst hstate
    simp only [ne_eq, not_true_eq_false, if_false]
    refine gated_steady_bind (uses_mapErr (uses_store trivial)) fun waiting => ?_
    split
    · trivial
    apply gated_withLock
    have hsync : (refreshAndSync cfg now).run.Uses Op.Steady :=
      Fallible.uses_bind (uses_mapErr (uses_node trivial))
        fun _ => uses_mapErr (steady_sync cfg.sync .pending now)
    refine gated_steady_bind (uses_attempt hsync) fun outcome => gated_quiet ?_ _
    cases outcome with
    | ok report => trivial
    | error e =>
      refine Fallible.uses_bind (quiet_classify e) fun f => ?_
      cases f <;> trivial
  · simp only [ne_eq, hstate, not_false_eq_true, if_true]
    trivial

theorem gated_refreshPass (cfg : Config) : Gated m (refreshPass cfg) := by
  refine ⟨trivial, fun t => gated_bind (p := (tick cfg t).run) (gated_tick cfg t) fun r => ?_⟩
  split
  · exact quiet_backoffProbe cfg
  · exact quiet_backoffProbe cfg
  · exact quiet_backoffProbe cfg
  · trivial

theorem gated_paymentsTick (cfg : Config) (now : ℤ) : Gated m (paymentsTick cfg now).run := by
  apply gated_nodeState
  intro state
  by_cases hstate : state = .unlocked
  · subst hstate
    simp only [ne_eq, not_true_eq_false, if_false]
    have hlist : Gated true (syncPayments cfg.sync now).run := by
      refine gated_steady_bind (uses_mapErr (uses_node trivial)) fun ps => gated_quiet ?_ _
      refine Fallible.uses_bind (uses_mapErr (uses_store trivial)) fun baseline => ?_
      refine Fallible.uses_bind (quiet_observePayments _ _ _ _) fun report => ?_
      cases baseline with
      | some t => trivial
      | none => exact Fallible.uses_bind (uses_mapErr (uses_store trivial)) fun _ => trivial
    refine gated_bindE (p := Fallible.attempt (syncPayments cfg.sync now)) ?_ fun outcome => ?_
    · exact gated_bind (f := fun a => Proc.done (Except.ok a)) hlist fun _ => trivial
    · cases outcome with
      | ok report => trivial
      | error e =>
        refine Fallible.uses_bind (quiet_classify _) fun f => ?_
        cases f <;> trivial
  · simp only [ne_eq, hstate, not_false_eq_true, if_true]
    trivial

theorem gated_paymentsPass (cfg : Config) : Gated m (paymentsPass cfg) := by
  refine ⟨trivial, fun t => ?_⟩
  refine gated_bind (p := (paymentsTick cfg t).run) (gated_paymentsTick cfg t) fun r => ?_
  split
  · exact quiet_backoffProbe cfg
  · trivial

/-- The reaper goes on to the next row only as long as it has not looked at the state. -/
theorem gated_reapAll (now : ℤ) (ts : List Transfer) (failed : ℕ) :
    Gated true (reapAll now ts failed).run := by
  induction ts generalizing failed with
  | nil => trivial
  | cons t ts ih =>
    rw [reapAll]
    split
    · exact ih failed
    refine gated_steady_bind (uses_attempt (uses_node trivial)) fun outcome => ?_
    split
    · exact gated_steady_bind (uses_mapErr (steady_applyObserved t .failed now)) fun _ => ih _
    · exact ih failed
    · exact gated_quiet (quiet_noting _ _) _
    · trivial
    · trivial

theorem gated_reaperPass : Gated m reaperPass := by
  refine gated_isUnlocked ?_ trivial
  refine gated_steady (uses_now trivial) fun t => ?_
  refine gated_bind (p := (reap t).run) (gated_withLock ?_) fun _ => trivial
  exact gated_steady_bind (uses_mapErr (uses_store trivial)) fun expired =>
    gated_reapAll t expired 0

theorem gated_fullSyncPass (cfg : Config) : Gated m (fullSyncPass cfg) := by
  refine gated_isUnlocked ?_ trivial
  refine gated_bind (p := (fullSync cfg).run) (gated_withLock ?_) fun outcome => ?_
  · refine gated_steady_bind (uses_lift (uses_now trivial)) fun t => ?_
    refine gated_steady_bind (uses_mapErr (steady_sync cfg.sync .full t)) fun report => ?_
    refine gated_quiet (Fallible.uses_bind (uses_mapErr (uses_store trivial)) fun _ => ?_) _
    trivial
  · cases outcome with
    | ok report => trivial
    | error e =>
      refine Proc.uses_bind (quiet_classify e) fun f => ?_
      split
      · exact quiet_backoffProbe cfg
      · trivial

theorem BackgroundPass.gated {cfg : Config} {p : Proc Effects Unit} (h : BackgroundPass cfg p) :
    Gated m p := by
  cases h with
  | refresh => exact gated_refreshPass cfg
  | reaper => exact gated_reaperPass
  | payments => exact gated_paymentsPass cfg
  | fullSync => exact gated_fullSyncPass cfg

end Passes

/-! ## In a run -/

section Runs
open Pool
variable {cfg : Config} {hist : List (Event Effects Host)} {c₀ c : Pool.Config Effects Host}

/-- The step is a reading of the node's state by thread `i`. -/
def Reads (i : ℕ) (e : Event Effects Host) : Prop :=
  ∃ r, e.label = .act i (.store .nodeState) r

/-- A thread whose notes are positive has read so, and not read again since. -/
theorem exists_reading {i : ℕ} (h : memory readUnlocked false i hist = true) :
    ∃ b e s, hist = b ++ e :: s ∧ e.label = .act i (.store .nodeState) (.ok NodeState.unlocked) ∧
      ∀ e' ∈ s, ¬ Reads i e' := by
  induction hist using List.reverseRecOn with
  | nil => cases h
  | append_singleton hist e ih =>
    rw [memory_append] at h
    have hgo : memory readUnlocked false i hist = true → ¬ Reads i e →
        ∃ b e' s, hist ++ [e] = b ++ e' :: s ∧
          e'.label = .act i (.store .nodeState) (.ok NodeState.unlocked) ∧
          ∀ e'' ∈ s, ¬ Reads i e'' := by
      intro hm he
      obtain ⟨b, e', s, rfl, hl, hs⟩ := ih hm
      refine ⟨b, e', s ++ [e], by simp, hl, fun e'' he'' => ?_⟩
      rcases List.mem_append.mp he'' with he'' | he''
      · exact hs e'' he''
      · rwa [List.mem_singleton.mp he'']
    cases hl : e.label with
    | boot ps => simp [hl] at h
    | start p => exact hgo (by simpa [hl] using h) (by rintro ⟨r, hr⟩; simp [hl] at hr)
    | drift => exact hgo (by simpa [hl] using h) (by rintro ⟨r, hr⟩; simp [hl] at hr)
    | act j o r =>
      by_cases hij : j = i
      · subst hij
        simp only [hl, if_pos] at h
        by_cases ho : o = .store .nodeState
        · subst ho
          refine ⟨hist, e, [], rfl, ?_, by simp⟩
          rw [hl]
          cases r with
          | ok state => cases state <;> first | rfl | cases h
          | error err => cases h
        · refine hgo ?_ ?_
          · cases o with
            | store q => cases q <;> first | exact h | exact absurd rfl ho
            | _ => exact h
          · rintro ⟨r', hr'⟩
            rw [hl] at hr'
            cases hr'
            exact ho rfl
      · refine hgo (by simpa [hl, hij] using h) ?_
        rintro ⟨r', hr'⟩
        rw [hl] at hr'
        cases hr'
        exact hij rfl

/-- **Background work waits for the node to be unlocked.**  From any state on, whenever a
pass of a background loop calls the wallet of the node, it has read the state of the node
before, the state was unlocked at that moment, and the pass has not read it again since. -/
theorem pass_calls_unlocked (run : (system cfg).Run c₀ hist c)
    (hboot : ∀ e ∈ hist, e.label.isBoot = false) {i : ℕ} {p : Proc Effects Unit}
    (hp : c₀.threads[i]? = some p) (hpass : BackgroundPass cfg p)
    {before after : List (Event Effects Host)} {e : Event Effects Host}
    (hhist : hist = before ++ e :: after) {call : NodeCall} {r : (Op.node call).Res}
    (he : e.label = .act i (.node call) r) (hcall : call.wallet = true) :
    ∃ b e' s, before = b ++ e' :: s ∧
      e'.label = .act i (.store .nodeState) (.ok NodeState.unlocked) ∧
      e'.pre.db.nodeState.state = .unlocked ∧ ∀ e'' ∈ s, ¬ Reads i e'' := by
  have hgated : p.Keeps readUnlocked Op.Awake false fun _ _ => True := hpass.gated
  have hkeep := run.thread_act_keeps hboot hp hgated hhist he
  obtain ⟨b, e', s, rfl, hl, hs⟩ := exists_reading (hkeep hcall)
  refine ⟨b, e', s, rfl, hl, ?_, hs⟩
  have hsplit : hist = b ++ e' :: (s ++ e :: after) := by simp [hhist]
  obtain ⟨c₁, c₂, run₁, hstep, hpre, -⟩ := run.split hsplit
  rw [hl] at hstep
  cases hstep with
  | act ch hi hperf =>
    rcases perform_store hperf with ⟨hr, -⟩ | hq
    · cases hr
    · rw [← hpre]
      exact Except.ok.inj (Prod.mk.inj hq).1

/-- The node is found unlocked by a probe, and then a pass of the refresh loop finds a
transfer pending and calls it. -/
def refreshed : List (Pool.Move (system defaults)) :=
  [.start unlock, .act 0 (.of (.answering .unlock ())), .act 0 (.of .silent),
    .act 0 (.of .silent), .act 0 (.of .silent),
    .start (rgbinvoice (some ⟨none, false⟩))] ++
  List.replicate 3 (.act 1 (.of (.answering .rgbinvoice ⟨"r", "invoice", none, 7⟩))) ++
  [.start (refreshPass defaults)]

theorem refreshed_admitted : Pool.Admitted refreshed := by
  refine Pool.admitted_append.mpr ⟨?_, .refreshPass, trivial⟩
  refine Pool.admitted_append.mpr ⟨?_, Pool.admitted_replicate trivial⟩
  exact ⟨.unlock, trivial, trivial, trivial, trivial, .rgbinvoice _, trivial⟩

theorem refreshed_plays : ((system defaults).play refreshed initial).isSome := rfl

/-- The companion when the pass has been started. -/
def beforePass : Pool.Config Effects Host :=
  (((system defaults).play refreshed initial).get refreshed_plays).1

/-- The pass up to its call. -/
def calling : List (Pool.Move (system defaults)) := List.replicate 5 (.act 2 (.of .silent))

theorem calling_admitted : Pool.Admitted calling := Pool.admitted_replicate trivial

theorem calling_plays : ((system defaults).play calling beforePass).isSome := rfl

/-- The pass has read the state, which the hook of `/unlock` had set. -/
theorem pass_calls_unlocked_refresh : ∃ hist₀ hist c,
    (system defaults).Run initial hist₀ beforePass ∧ (system defaults).Run beforePass hist c ∧
    ∃ before e r, hist = before ++ [e] ∧ e.label = .act 2 (.node (.refresh false)) r ∧
    ∃ b e' s, before = b ++ e' :: s ∧
      e'.label = .act 2 (.store .nodeState) (.ok NodeState.unlocked) ∧
      e'.pre.db.nodeState.state = .unlocked ∧ ∀ e'' ∈ s, ¬ Reads 2 e'' := by
  have run₀ := Pool.run_of_isSome refreshed_admitted refreshed_plays
  have run := Pool.run_of_isSome calling_admitted calling_plays
  have hboots : (((system defaults).play calling beforePass).get calling_plays).2.all
      (fun e => !e.label.isBoot) = true := rfl
  obtain ⟨before, e, r, hhist, he⟩ : ∃ before e r,
      (((system defaults).play calling beforePass).get calling_plays).2 = before ++ [e] ∧
      e.label = .act 2 (.node (.refresh false)) r :=
    ⟨_, _, _, (List.dropLast_append_getLast (List.cons_ne_nil _ _)).symm, rfl⟩
  have hread := pass_calls_unlocked run
    (fun e he => by simpa using List.all_eq_true.mp hboots e he)
    (p := refreshPass defaults) rfl .refresh hhist he rfl
  exact ⟨_, _, _, run₀, run, before, e, r, hhist, he, hread⟩

end Runs
end Companion
