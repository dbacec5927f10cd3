import Companion.Runs.Server

/-!
# Nothing before the probe

A process that has been booted probes the node first.  Until that probe has recorded what
state the node is in, no request is accepted, nothing is spawned, no loop runs and no event
is posted: all that is done are the operations of the probe.  A probe that finds the node
misconfigured records that, and nothing follows.

## Main definitions

* `probed` — the probe of this boot has recorded a state the process goes on with.
* `ServerOp.Probes` — the operations of the probe.
* `probed_first` — what is done before, is done by it.
-/

set_option autoImplicit false

namespace Companion.Server
open Lib Proc Pool

variable {app : App}

/-- A state of the node has been recorded that the process goes on with. -/
def noteState (recorded : Bool) : (o : ServerOp) → o.Res → Bool
  | .eff (.store (.setNodeState state _)), .ok _ => recorded || state ≠ .misconfigured
  | _, _ => recorded

/-- The probe of this boot has recorded a state the process goes on with; the main task is
thread 1. -/
def probed (hist : List (Event Serving Machine)) : Bool := memory noteState false 1 hist

/-- The operations of the probe. -/
def ServerOp.Probes : ServerOp → Prop
  | .eff (.node .nodeInfo) | .eff (.node .network) | .eff (.store .nodeState)
  | .eff (.store (.setNodeState _ _)) | .eff .clock => True
  | _ => False

/-- Before a state has been recorded there are only the operations of the probe. -/
def ProbesFirst (recorded : Bool) (o : ServerOp) : Prop := recorded = true ∨ o.Probes

/-! ## The main task -/

section Main

/-- The notes and the rule, for the operations of the tasks. -/
def noteEffect (recorded : Bool) (o : Op) (r : o.Res) : Bool := noteState recorded (.eff o) r

def EffectFirst (recorded : Bool) (o : Op) : Prop := ProbesFirst recorded (.eff o)

/-- When the state has been recorded, the process may go on with it. -/
theorem keeps_setNodeState (state : NodeState) (recorded : Bool) :
    (setNodeState state).run.Keeps noteEffect EffectFirst recorded fun r recorded' =>
      r = .ok () → state ≠ .misconfigured → recorded' = true := by
  refine Fallible.keeps_bind (Fallible.keeps_mapErr ⟨Or.inr trivial, fun r => ?_⟩)
  cases r with
  | error e =>
    intro h
    cases h
  | ok found =>
    refine Fallible.keeps_bind ⟨Or.inr trivial, fun t => ?_⟩
    refine Fallible.keeps_mapErr ⟨Or.inr trivial, fun r => ?_⟩
    cases r with
    | error e =>
      intro h
      cases h
    | ok _ =>
      intro _ hstate
      simp [noteEffect, noteState, hstate]

/-- The questions the probe asks the node. -/
def Inquires (o : Op) : Prop := o = .node .nodeInfo ∨ o = .node .network

theorem uses_checkNetwork (cfg : Config) : (checkNetwork cfg).run.Uses Inquires := by
  rw [checkNetwork]
  cases cfg.rln.network with
  | none => trivial
  | some want =>
    refine Fallible.uses_bind (Fallible.uses_mapErr (uses_node (Or.inr rfl))) fun got => ?_
    split <;> trivial

theorem stays_inquires {α : Type} {p : Proc Effects α} (h : p.Uses Inquires) :
    p.Stays noteEffect EffectFirst (· = false) := by
  refine stays_of_uses h fun m o ho hm => ?_
  rcases ho with rfl | rfl <;> exact ⟨Or.inr trivial, fun _ => hm⟩

/-- A state is recorded, and then the process goes on with it. -/
theorem keeps_recorded {state : NodeState} (h : state ≠ .misconfigured) (recorded : Bool) :
    (do
      setNodeState state
      return state : Prog EngineError NodeState).run.Keeps noteEffect EffectFirst recorded
      fun r recorded' => ∀ found, r = .ok found → recorded' = true := by
  refine Fallible.keeps_bind ((keeps_setNodeState state recorded).mono fun r recorded' hr => ?_)
  cases r with
  | error e =>
    intro found hfound
    cases hfound
  | ok _ => exact fun _ _ => hr rfl h

/-- A probe that succeeds has recorded what it found. -/
theorem keeps_probe (cfg : Config) : (probe cfg).run.Keeps noteEffect EffectFirst false
    fun r recorded => ∀ found, r = .ok found → recorded = true := by
  have hcheck := Fallible.uses_bind (Fallible.uses_mapErr (f := authFault)
    (uses_node (c := .nodeInfo) (Or.inl rfl))) fun _ => uses_checkNetwork cfg
  refine Fallible.keeps_bind
    ((Fallible.stays_attempt (stays_inquires hcheck) false rfl).mono fun r recorded hfalse => ?_)
  cases r with
  | error e =>
    intro found hfound
    cases hfound
  | ok checked =>
    cases checked with
    | ok _ => exact keeps_recorded (by simp) recorded
    | error e =>
      simp only
      split
      · exact keeps_recorded (by simp) recorded
      · exact keeps_recorded (by simp) recorded
      · split
        · refine Fallible.keeps_bind ((keeps_setNodeState _ recorded).mono fun r recorded' _ => ?_)
          cases r <;> (intro found hfound; cases hfound)
        · intro found hfound
          cases hfound

theorem noteState_true (o : ServerOp) (r : o.Res) : noteState true o r = true := by
  unfold noteState
  split <;> simp

/-- Once a state has been recorded, everything is allowed. -/
theorem keeps_of_recorded {α : Type} (p : Proc Serving α) :
    p.Keeps noteState ProbesFirst true fun _ _ => True := by
  have h : p.Stays noteState ProbesFirst (· = true) := by
    refine stays_of_uses (uses_true p) fun m o _ hm => ⟨Or.inl hm, fun r => ?_⟩
    rw [hm]
    exact noteState_true o r
  exact (h true rfl).mono fun _ _ _ => trivial

/-- The main task goes no further than the probe before it has recorded a state. -/
theorem keeps_main : (main app).Keeps noteState ProbesFirst false fun _ _ => True := by
  have h : ((probe app.cfg).run.lift effects).Keeps noteState ProbesFirst false
      fun r recorded => ∀ found, r = .ok found → recorded = true :=
    lift_keeps (fun _ _ _ => rfl) (keeps_probe app.cfg)
  refine keeps_bind (h.mono fun r recorded hr => ?_)
  cases r with
  | error e => trivial
  | ok found =>
    rw [hr found rfl]
    exact keeps_of_recorded _

end Main

/-! ## Runs -/

section Runs

/-- The thread waits for a request, or for what it runs to be spawned. -/
def Waits (p : Proc Serving Unit) : Prop :=
  (∃ req k, p = .ask (.accept req) k) ∨ ∃ j rounds k, p = .ask (.begin j rounds) k

/-- Nothing has been let through yet. -/
structure Shut (c : Pool.Config Serving Machine) : Prop where
  listening : c.shared.listening = false
  spawned : c.shared.spawned = []
  threads : ∀ i p, c.threads[i]? = some p →
    Waits p ∨ (i = 1 ∧ p.Keeps noteState ProbesFirst false fun _ _ => True)

theorem waits_of_thread {p : Proc Serving Unit} (h : Thread app p) : Waits p := by
  cases h with
  | serve req => cases req <;> exact Or.inl ⟨_, _, rfl⟩
  | job j rounds h => exact Or.inr ⟨j, rounds, _, rfl⟩

theorem shut_boot {rounds : ℕ} (m : Machine) :
    Shut ⟨m.reset, [Job.dispatcher.task app.cfg rounds, main app]⟩ where
  listening := rfl
  spawned := rfl
  threads i p hp := by
    match i with
    | 0 =>
      cases hp
      exact Or.inl (Or.inr ⟨_, _, _, rfl⟩)
    | 1 =>
      cases hp
      exact Or.inr ⟨rfl, keeps_main⟩
    | i + 2 => cases hp

/-- Nobody who waits moves. -/
theorem Shut.not_waits {c : Pool.Config Serving Machine} (h : Shut c) {w : Wire} {o : ServerOp}
    {k : o.Res → Proc Serving Unit} {r : o.Res} {m : Machine}
    (hp : w.perform o c.shared = some (r, m)) : ¬ Waits (.ask o k) := by
  rintro (⟨req, k', hk⟩ | ⟨j, rounds, k', hk⟩)
  · cases hk
    simp [Wire.perform, h.listening] at hp
  · cases hk
    simp [Wire.perform, h.spawned] at hp

/-- The operations of the probe let nothing through. -/
theorem probes_perform {w : Wire} {o : ServerOp} {r : o.Res} {m m' : Machine} (ho : o.Probes)
    (hp : w.perform o m = some (r, m')) : m'.listening = m.listening ∧ m'.spawned = m.spawned := by
  cases o with
  | eff q =>
    obtain ⟨host, -, rfl⟩ := Wire.host_of_eff hp
    exact ⟨rfl, rfl⟩
  | read _ | accept _ | collect _ | send _ _ | respond _ | spawn _ | begin _ _ | wake | wait
  | sleep _ | bind | listen => exact absurd ho id

/-- As long as nothing has been let through, only the main task moves, and only to probe. -/
theorem Shut.act {c c' : Pool.Config Serving Machine} (h : Shut c) {i : ℕ} {o : ServerOp}
    {r : o.Res} (hs : Step (server app) c (.act i o r) c') :
    (i = 1 ∧ o.Probes) ∧ (noteState false o r = false → Shut c') := by
  cases hs with
  | @act s ts _ _ k _ s' ch hi hp =>
    obtain hwaits | ⟨rfl, hkeeps⟩ := h.threads i _ hi
    · exact absurd hwaits (h.not_waits hp)
    · -- the main task, which has not got past its probe
      have hprobes : o.Probes := hkeeps.1.resolve_left (by simp)
      obtain ⟨hlistening, hspawned⟩ := probes_perform hprobes hp
      refine ⟨⟨rfl, hprobes⟩, fun hnote => ⟨hlistening.trans h.listening,
        hspawned.trans h.spawned, fun j p hj => ?_⟩⟩
      by_cases hj1 : 1 = j
      · subst hj1
        have hlt : 1 < ts.length := (List.getElem?_eq_some_iff.mp hi).1
        rw [List.getElem?_set_self hlt] at hj
        cases hj
        have hnext := hkeeps.2 r
        rw [hnote] at hnext
        exact Or.inr ⟨rfl, hnext⟩
      · rw [List.getElem?_set_ne hj1] at hj
        exact h.threads j p hj

theorem shut_of_run {hist : List (Event Serving Machine)} {c : Pool.Config Serving Machine}
    (run : (server app).Run initial hist c) (h : probed hist = false) : Shut c := by
  induction run with
  | nil => exact ⟨rfl, rfl, fun i p hp => by simp [initial] at hp⟩
  | @snoc hist c l c' run hs ih =>
    rw [probed, memory_append] at h
    cases hs with
    | boot hb =>
      obtain ⟨rounds, rfl⟩ := hb
      exact shut_boot _
    | @start s ts p hp =>
      have hshut := ih h
      refine ⟨hshut.listening, hshut.spawned, fun i q hq => ?_⟩
      rw [List.getElem?_append] at hq
      split at hq
      · exact hshut.threads i q hq
      · rw [List.mem_singleton.mp (List.mem_of_getElem? hq)]
        exact Or.inl (waits_of_thread hp)
    | drift ch hd =>
      have hshut := ih h
      cases hd
      exact ⟨hshut.listening, hshut.spawned, hshut.threads⟩
    | @act s ts i o k r s' ch hi hp =>
      -- what has been noted stays noted
      have hpast : probed hist = false := by
        by_cases hi1 : i = 1
        · simp only [hi1, if_true] at h
          cases hpast : probed hist with
          | false => rfl
          | true =>
            rw [probed] at hpast
            rw [hpast, noteState_true] at h
            cases h
        · simp only [hi1, if_false] at h
          exact h
      obtain ⟨⟨rfl, -⟩, hnext⟩ := (ih hpast).act (.act ch hi hp)
      apply hnext
      rw [probed] at hpast
      simpa only [if_true, hpast] using h

/-- **Nothing before the probe**: what is done before the probe of this boot has recorded a
state the process goes on with, is done by the main task, and is part of the probe. -/
theorem probed_first {hist before after : List (Event Serving Machine)}
    {e : Event Serving Machine} {c : Pool.Config Serving Machine}
    (run : (server app).Run initial hist c) (hhist : hist = before ++ e :: after) {i : ℕ}
    {o : ServerOp} {r : o.Res} (hact : e.label = .act i o r) :
    probed before = true ∨ (i = 1 ∧ o.Probes) := by
  obtain ⟨c₁, c₂, run₁, hstep, -⟩ := run.split hhist
  rw [hact] at hstep
  cases hprobed : probed before with
  | true => exact Or.inl rfl
  | false => exact Or.inr ((shut_of_run run₁ hprobed).act hstep).1

/-- The companion answers a request for an invoice, and has probed the node by then. -/
theorem probed_first_invoice : ∃ before e c resp,
    (server invoiceApp).Run initial (before ++ [e]) c ∧
    e.label = .act 2 (.respond (.proxied resp)) () ∧ probed before = true := by
  obtain ⟨before, e, c, resp, run, he⟩ := invoicing_answered
  exact ⟨before, e, c, resp, run, he, (probed_first run rfl he).resolve_right (by simp)⟩

end Runs

end Companion.Server
