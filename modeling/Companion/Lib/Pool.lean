import Companion.Lib.Proc
import Mathlib.Data.List.Basic
import Mathlib.Data.Nat.Notation

/-!
# Pools of interleaved processes

A pool is a shared state, a list of threads running processes against it, and an
environment that decides what cannot be known: which thread moves next, what an
external party answers, when a new thread starts, and when everything is killed
and booted again.  Every operation is atomic and nothing else is: between two
operations of one thread any other thread may move.

The step function is guarded and executable, so a schedule can be replayed
(`Pool.play`) and the run it stands for is a run of the relation (`run_of_play`).

Invariants are proved with a rely–guarantee outline.  An `Outline` names the
shared invariant, what each thread may assume of the steps of the others
(`rely`) and what each of its own operations must achieve (`guar`).  `Outline.wp`
is the weakest precondition of a process under these rules, `Outline.sound` is
the statement that proving it for every program that can start is enough.

## Main definitions

* `Pool`, `Config`, `Step`, `Run` — the interleaving semantics.
* `Event.Lawful`, `Run.lawful` — runs of programs with bounded operations.
* `memory`, `Run.usesAfter` — what a thread has been told, and what it asks for then.
* `deeds`, `Run.reaches` — what a thread has done, and where that has brought it.
* `Move`, `play` — replaying a schedule.
* `Outline`, `Outline.wp` — rely–guarantee reasoning.
-/

set_option autoImplicit false

namespace Companion.Lib

/-- A shared state of type `σ` served to processes over the signature `S`.  A
`Choice` is what the environment decides in one step. -/
structure Pool (S : Signature) (σ : Type) where
  Choice : Type
  /-- Thread `i` performs one operation; `none` when it is blocked or impossible. -/
  perform : Choice → ℕ → (o : S.Op) → σ → Option (S.Res o × σ)
  /-- The environment moves by itself. -/
  drift : Choice → σ → Option σ
  /-- What a crash leaves of the shared state. -/
  reset : σ → σ
  /-- The threads a boot may create, in order. -/
  boots : List (Proc S Unit) → Prop
  /-- The programs that may start as a new thread at any time. -/
  starts : Proc S Unit → Prop

namespace Pool
variable {S : Signature} {σ : Type}

/-- The shared state and the threads, each with what it has still to do. -/
structure Config (S : Signature) (σ : Type) where
  shared : σ
  threads : List (Proc S Unit)

/-- What happened in one step. -/
inductive Label (S : Signature)
  | boot (ps : List (Proc S Unit))
  | start (p : Proc S Unit)
  | act (i : ℕ) (o : S.Op) (r : S.Res o)
  | drift

/-- One step of a run, with the shared state before and after it. -/
structure Event (S : Signature) (σ : Type) where
  pre : σ
  label : Label S
  post : σ

variable (P : Pool S σ)

/-- The steps of a pool. -/
inductive Step : Config S σ → Label S → Config S σ → Prop
  | boot {s ts ps} : P.boots ps → Step ⟨s, ts⟩ (.boot ps) ⟨P.reset s, ps⟩
  | start {s ts p} : P.starts p → Step ⟨s, ts⟩ (.start p) ⟨s, ts ++ [p]⟩
  | act {s ts i o k r s'} (c : P.Choice) : ts[i]? = some (.ask o k) →
      P.perform c i o s = some (r, s') → Step ⟨s, ts⟩ (.act i o r) ⟨s', ts.set i (k r)⟩
  | drift {s ts s'} (c : P.Choice) : P.drift c s = some s' → Step ⟨s, ts⟩ .drift ⟨s', ts⟩

/-- The runs of a pool, with the events in the order they happened. -/
inductive Run (c₀ : Config S σ) : List (Event S σ) → Config S σ → Prop
  | nil : Run c₀ [] c₀
  | snoc {hist c l c'} : Run c₀ hist c → Step P c l c' →
      Run c₀ (hist ++ [⟨c.shared, l, c'.shared⟩]) c'

variable {P}

/-- The run of one step. -/
theorem Run.single {c c' : Config S σ} {l : Label S} (h : Step P c l c') :
    Run P c [⟨c.shared, l, c'.shared⟩] c' :=
  Run.nil.snoc h

theorem Run.append {c₀ c₁ c₂ : Config S σ} {h₁ h₂ : List (Event S σ)}
    (r₁ : Run P c₀ h₁ c₁) (r₂ : Run P c₁ h₂ c₂) : Run P c₀ (h₁ ++ h₂) c₂ := by
  induction r₂ with
  | nil => simpa using r₁
  | snoc _ hs ih => rw [← List.append_assoc]; exact ih.snoc hs

/-- A property of the history so far and the state, that every event of the run
extends, holds at its end. -/
theorem Run.induct {c₀ c : Config S σ} {hist : List (Event S σ)} (r : Run P c₀ hist c)
    (I : List (Event S σ) → σ → Prop) (h₀ : I [] c₀.shared)
    (hstep : ∀ past, ∀ e ∈ hist, I past e.pre → I (past ++ [e]) e.post) : I hist c.shared := by
  induction r with
  | nil => exact h₀
  | snoc r hs ih =>
      exact hstep _ _ (List.mem_append_right _ (List.mem_singleton_self _))
        (ih fun past e he => hstep past e (List.mem_append_left _ he))

/-- Every step of a run is within a reflexive and transitive relation, so the whole
run is. -/
theorem Run.within {c₀ c : Config S σ} {hist : List (Event S σ)} (r : Run P c₀ hist c)
    {R : σ → σ → Prop} (hrefl : ∀ s, R s s) (htrans : ∀ s₁ s₂ s₃, R s₁ s₂ → R s₂ s₃ → R s₁ s₃)
    (hstep : ∀ e ∈ hist, R e.pre e.post) : R c₀.shared c.shared := by
  induction r with
  | nil => exact hrefl _
  | snoc _ _ ih =>
      exact htrans _ _ _ (ih fun e he => hstep e (List.mem_append_left _ he))
        (hstep ⟨_, _, _⟩ (List.mem_append_right _ (List.mem_singleton.mpr rfl)))

/-- So is the part of the run before any of its events. -/
theorem Run.within_pre {c₀ c : Config S σ} {hist : List (Event S σ)} (r : Run P c₀ hist c)
    {R : σ → σ → Prop} (hrefl : ∀ s, R s s) (htrans : ∀ s₁ s₂ s₃, R s₁ s₂ → R s₂ s₃ → R s₁ s₃)
    (hstep : ∀ e ∈ hist, R e.pre e.post) : ∀ e ∈ hist, R c₀.shared e.pre := by
  induction r with
  | nil => simp
  | snoc r _ ih =>
      have hprev := fun e he => hstep e (List.mem_append_left _ he)
      intro e he
      rcases List.mem_append.mp he with he | he
      · exact ih hprev e he
      · rw [List.mem_singleton.mp he]
        exact r.within hrefl htrans hprev

/-- A run up to one of its events, and the step that is the event. -/
theorem Run.split {c₀ c : Config S σ} {hist : List (Event S σ)} (r : Run P c₀ hist c)
    {before after : List (Event S σ)} {e : Event S σ} (hhist : hist = before ++ e :: after) :
    ∃ c₁ c₂, Run P c₀ before c₁ ∧ Step P c₁ e.label c₂ ∧ c₁.shared = e.pre ∧
      c₂.shared = e.post := by
  induction r generalizing after with
  | nil => simp at hhist
  | @snoc hist c l c' r hs ih =>
    rcases List.eq_nil_or_concat after with rfl | ⟨after, last, rfl⟩
    · obtain ⟨rfl, rfl⟩ := List.append_singleton_inj.mp hhist
      exact ⟨c, c', r, hs, rfl, rfl⟩
    · rw [List.concat_eq_append, ← List.cons_append, ← List.append_assoc] at hhist
      exact ih (List.append_singleton_inj.mp hhist).1

/-! ## Runs of programs with bounded operations -/

/-- An event is what the pool does for the label, and its operation is in `U`. -/
def Event.Lawful (P : Pool S σ) (U : S.Op → Prop) (e : Event S σ) : Prop :=
  match e.label with
  | .boot _ => e.post = P.reset e.pre
  | .start _ => e.post = e.pre
  | .act i o r => U o ∧ ∃ c, P.perform c i o e.pre = some (r, e.post)
  | .drift => ∃ c, P.drift c e.pre = some e.post

/-- When every program that can start keeps to the operations in `U`, every event
of every run does. -/
theorem Run.lawful {U : S.Op → Prop} {c₀ c : Config S σ} {hist : List (Event S σ)}
    (hboot : ∀ ps, P.boots ps → ∀ p ∈ ps, p.Uses U) (hstart : ∀ p, P.starts p → p.Uses U)
    (ht : ∀ p ∈ c₀.threads, p.Uses U) (r : Run P c₀ hist c) :
    (∀ p ∈ c.threads, p.Uses U) ∧ ∀ e ∈ hist, e.Lawful P U := by
  induction r with
  | nil => exact ⟨ht, by simp⟩
  | @snoc hist c l c' _ hs ih =>
      rcases ih with ⟨hc, hl⟩
      suffices h : (∀ p ∈ c'.threads, p.Uses U) ∧
          Event.Lawful P U ⟨c.shared, l, c'.shared⟩ by
        refine ⟨h.1, fun e he => ?_⟩
        rcases List.mem_append.mp he with he | he
        · exact hl e he
        · exact (List.mem_singleton.mp he) ▸ h.2
      cases hs with
      | boot hb => exact ⟨hboot _ hb, rfl⟩
      | start hp =>
          refine ⟨fun q hq => ?_, rfl⟩
          rcases List.mem_append.mp hq with hq | hq
          · exact hc q hq
          · exact (List.mem_singleton.mp hq) ▸ hstart _ hp
      | act ch hi hp =>
          have hask := hc _ (List.mem_of_getElem? hi)
          refine ⟨fun q hq => ?_, hask.1, ch, hp⟩
          rcases List.mem_or_eq_of_mem_set hq with hq | rfl
          · exact hc q hq
          · exact hask.2 _
      | drift ch hd => exact ⟨hc, ch, hd⟩

/-! ## What a thread remembers -/

section Memory
variable {μ : Type} (note : μ → (o : S.Op) → S.Res o → μ) (m₀ : μ)

/-- What thread `i` has noted at the end of a history; a boot forgets it. -/
def memory (i : ℕ) (hist : List (Event S σ)) : μ :=
  hist.foldl (fun m e =>
    match e.label with
    | .boot _ => m₀
    | .act j o r => if j = i then note m o r else m
    | .start _ | .drift => m) m₀

theorem memory_append (i : ℕ) (hist : List (Event S σ)) (e : Event S σ) :
    memory note m₀ i (hist ++ [e]) =
      match e.label with
      | .boot _ => m₀
      | .act j o r => if j = i then note (memory note m₀ i hist) o r else memory note m₀ i hist
      | .start _ | .drift => memory note m₀ i hist := by
  rw [memory, List.foldl_append]
  rfl

variable {note m₀}

/-- What holds of every program that can start and is kept from one operation to the next
holds of every thread of a run, for the notes it has taken; the threads still to come have
taken none. -/
theorem Run.threads_after {T : μ → Proc S Unit → Prop}
    (hask : ∀ m o k, T m (.ask o k) → ∀ r, T (note m o r) (k r)) {c₀ c : Config S σ}
    {hist : List (Event S σ)} (hboot : ∀ ps, P.boots ps → ∀ p ∈ ps, T m₀ p)
    (hstart : ∀ p, P.starts p → T m₀ p) (ht : ∀ p ∈ c₀.threads, T m₀ p)
    (run : Run P c₀ hist c) :
    (∀ i (p : Proc S Unit), c.threads[i]? = some p → T (memory note m₀ i hist) p) ∧
    ∀ i, c.threads.length ≤ i → memory note m₀ i hist = m₀ := by
  induction run with
  | nil => exact ⟨fun i p hi => ht p (List.mem_of_getElem? hi), fun i _ => rfl⟩
  | @snoc hist c l c' _ hs ih =>
    obtain ⟨ih, hnew⟩ := ih
    simp only [memory_append]
    cases hs with
    | boot hb => exact ⟨fun i p hi => hboot _ hb p (List.mem_of_getElem? hi), fun i _ => rfl⟩
    | @start s ts p hp =>
      refine ⟨fun i q hi => ?_, fun i hi => hnew i ?_⟩
      · rw [List.getElem?_append] at hi
        split at hi
        · exact ih i q hi
        · next hlt =>
          rw [List.mem_singleton.mp (List.mem_of_getElem? hi), hnew i (Nat.le_of_not_lt hlt)]
          exact hstart _ hp
      · simp only [List.length_append, List.length_singleton] at hi
        exact Nat.le_of_succ_le hi
    | @act s ts j o k r s' ch hj hp =>
      have hlt : j < ts.length := (List.getElem?_eq_some_iff.mp hj).1
      refine ⟨fun i p hi => ?_, fun i hi => ?_⟩
      · by_cases hij : j = i
        · subst hij
          rw [List.getElem?_set_self hlt] at hi
          cases hi
          simp only [if_pos]
          exact hask _ _ _ (ih j _ hj) r
        · rw [List.getElem?_set_ne hij] at hi
          simp only [if_neg hij]
          exact ih i p hi
      · rw [List.length_set] at hi
        have hij : j ≠ i := Nat.ne_of_lt (Nat.lt_of_lt_of_le hlt hi)
        simp only [if_neg hij]
        exact hnew i hi
    | drift ch hd => exact ⟨ih, hnew⟩

/-- When every program that can start asks for what its notes allow, every thread of
every run does, by the notes it has taken; the threads still to come have taken none. -/
theorem Run.threads_usesAfter {Q : μ → S.Op → Prop} {c₀ c : Config S σ}
    {hist : List (Event S σ)} (hboot : ∀ ps, P.boots ps → ∀ p ∈ ps, p.UsesAfter note Q m₀)
    (hstart : ∀ p, P.starts p → p.UsesAfter note Q m₀)
    (ht : ∀ p ∈ c₀.threads, p.UsesAfter note Q m₀) (run : Run P c₀ hist c) :
    (∀ i (p : Proc S Unit), c.threads[i]? = some p →
      p.UsesAfter note Q (memory note m₀ i hist)) ∧
    ∀ i, c.threads.length ≤ i → memory note m₀ i hist = m₀ :=
  run.threads_after (T := fun m p => p.UsesAfter note Q m) (fun _ _ _ h => h.2) hboot hstart ht

/-- So is every operation of the run. -/
theorem Run.usesAfter {Q : μ → S.Op → Prop} {c₀ c : Config S σ} {hist : List (Event S σ)}
    (hboot : ∀ ps, P.boots ps → ∀ p ∈ ps, p.UsesAfter note Q m₀)
    (hstart : ∀ p, P.starts p → p.UsesAfter note Q m₀)
    (ht : ∀ p ∈ c₀.threads, p.UsesAfter note Q m₀) (run : Run P c₀ hist c)
    {before after : List (Event S σ)} {e : Event S σ} (hhist : hist = before ++ e :: after)
    {i : ℕ} {o : S.Op} {r : S.Res o} (he : e.label = .act i o r) :
    Q (memory note m₀ i before) o := by
  obtain ⟨c₁, c₂, run₁, hstep, -⟩ := run.split hhist
  rw [he] at hstep
  cases hstep with
  | act ch hi hp => exact ((run₁.threads_usesAfter hboot hstart ht).1 i _ hi).1

end Memory

/-! ## What a thread has done -/

/-- The step boots the pool. -/
def Label.isBoot : Label S → Bool
  | boot _ => true
  | _ => false

/-- What thread `i` did in a history. -/
def deeds (i : ℕ) (hist : List (Event S σ)) : List (Proc.Deed S) :=
  hist.filterMap fun e =>
    match e.label with
    | .act j o r => if j = i then some ⟨o, r⟩ else none
    | _ => none

/-- As long as nothing is booted, a thread is where its deeds have brought it. -/
theorem Run.reaches {c₀ c : Config S σ} {hist : List (Event S σ)} (run : Run P c₀ hist c)
    (hboot : ∀ e ∈ hist, e.label.isBoot = false) {i : ℕ} {p : Proc S Unit}
    (hp : c₀.threads[i]? = some p) :
    ∃ q, c.threads[i]? = some q ∧ p.Reaches (deeds i hist) q := by
  induction run with
  | nil => exact ⟨p, hp, .here p⟩
  | @snoc hist c l c' _ hs ih =>
    obtain ⟨q, hq, hreach⟩ := ih fun e he => hboot e (List.mem_append_left _ he)
    have hlast := hboot ⟨c.shared, l, c'.shared⟩ (List.mem_append_right _ (by simp))
    rw [deeds, List.filterMap_append]
    cases hs with
    | boot hb => cases hlast
    | start hstart =>
      have hlt := (List.getElem?_eq_some_iff.mp hq).1
      refine ⟨q, (List.getElem?_append_left hlt).trans hq, ?_⟩
      simpa [deeds] using hreach
    | @act s ts j o k r s' ch hj hperf =>
      by_cases hij : j = i
      · subst hij
        rw [hj] at hq
        refine ⟨k r, List.getElem?_set_self (List.getElem?_eq_some_iff.mp hj).1, ?_⟩
        simpa [deeds] using hreach.concat (Option.some.inj hq).symm r
      · refine ⟨q, (List.getElem?_set_ne hij).trans hq, ?_⟩
        simpa [deeds, hij] using hreach
    | drift ch hd => exact ⟨q, hq, by simpa [deeds] using hreach⟩

/-! ## Replaying a schedule -/

/-- One scheduling decision. -/
inductive Move (P : Pool S σ)
  | boot (ps : List (Proc S Unit))
  | start (p : Proc S Unit)
  | act (i : ℕ) (c : P.Choice)
  | drift (c : P.Choice)

/-- The programs a move creates are ones the pool admits. -/
def Move.Admitted : Move P → Prop
  | .boot ps => P.boots ps
  | .start p => P.starts p
  | _ => True

/-- The programs a schedule creates are ones the pool admits. -/
def Admitted : List (Move P) → Prop
  | [] => True
  | m :: ms => m.Admitted ∧ Admitted ms

theorem admitted_append {ms ms' : List (Move P)} :
    Admitted (ms ++ ms') ↔ Admitted ms ∧ Admitted ms' := by
  induction ms with
  | nil => simp [Admitted]
  | cons m ms ih => simp [Admitted, ih, and_assoc]

theorem admitted_replicate {m : Move P} {n : ℕ} (hm : m.Admitted) :
    Admitted (List.replicate n m) := by
  induction n with
  | zero => trivial
  | succ n ih => exact ⟨hm, ih⟩

/-- The moves of one thread. -/
theorem admitted_acts (i : ℕ) (chs : List P.Choice) : Admitted (chs.map (Move.act i)) := by
  induction chs with
  | nil => trivial
  | cons ch chs ih => exact ⟨trivial, ih⟩

/-- Carry out one decision; `none` when it is not possible. -/
def move (P : Pool S σ) : Move P → Config S σ → Option (Config S σ × Label S)
  | .boot ps, c => some (⟨P.reset c.shared, ps⟩, .boot ps)
  | .start p, c => some (⟨c.shared, c.threads ++ [p]⟩, .start p)
  | .act i ch, c =>
      match c.threads[i]? with
      | some (.ask o k) =>
          (P.perform ch i o c.shared).map fun (r, s') => (⟨s', c.threads.set i (k r)⟩, .act i o r)
      | _ => none
  | .drift ch, c => (P.drift ch c.shared).map fun s' => (⟨s', c.threads⟩, .drift)

theorem step_of_move {m : Move P} {c c' : Config S σ} {l : Label S} (hm : m.Admitted)
    (h : P.move m c = some (c', l)) : Step P c l c' := by
  cases m with
  | boot ps =>
      simp only [move, Option.some.injEq, Prod.mk.injEq] at h
      obtain ⟨rfl, rfl⟩ := h
      exact .boot hm
  | start p =>
      simp only [move, Option.some.injEq, Prod.mk.injEq] at h
      obtain ⟨rfl, rfl⟩ := h
      exact .start hm
  | act i ch =>
      simp only [move] at h
      split at h
      · next o k hi =>
        obtain ⟨⟨r, s'⟩, hp, he⟩ := Option.map_eq_some_iff.mp h
        simp only [Prod.mk.injEq] at he
        obtain ⟨rfl, rfl⟩ := he
        exact .act ch hi hp
      · cases h
  | drift ch =>
      obtain ⟨s', hd, he⟩ := Option.map_eq_some_iff.mp h
      simp only [Prod.mk.injEq] at he
      obtain ⟨rfl, rfl⟩ := he
      exact .drift ch hd

/-- Carry out a whole schedule, collecting its events. -/
def play (P : Pool S σ) : List (Move P) → Config S σ → Option (Config S σ × List (Event S σ))
  | [], c => some (c, [])
  | m :: ms, c =>
      match P.move m c with
      | none => none
      | some (c', l) =>
          (play P ms c').map fun (c'', hist) => (c'', ⟨c.shared, l, c'.shared⟩ :: hist)

/-- A schedule that plays is a run. -/
theorem run_of_play {ms : List (Move P)} {c c' : Config S σ} {hist : List (Event S σ)}
    (hm : Admitted ms) (h : P.play ms c = some (c', hist)) : Run P c hist c' := by
  induction ms generalizing c hist with
  | nil =>
      simp only [play, Option.some.injEq, Prod.mk.injEq] at h
      obtain ⟨rfl, rfl⟩ := h
      exact .nil
  | cons m ms ih =>
      simp only [play] at h
      split at h
      · cases h
      · next c₁ l hmove =>
        obtain ⟨⟨c₂, tail⟩, hp, he⟩ := Option.map_eq_some_iff.mp h
        simp only [Prod.mk.injEq] at he
        obtain ⟨rfl, rfl⟩ := he
        exact (Run.single (step_of_move hm.1 hmove)).append (ih hm.2 hp)

/-- The run of a schedule that plays. -/
theorem run_of_isSome {ms : List (Move P)} {c : Config S σ} (hm : Admitted ms)
    (h : (P.play ms c).isSome) : Run P c ((P.play ms c).get h).2 ((P.play ms c).get h).1 :=
  run_of_play hm (Option.some_get h).symm

/-! ## Rely and guarantee -/

/-- A rely–guarantee proof outline for a pool.  `cond` restricts the runs it
speaks about to those whose events all satisfy it. -/
structure Outline (P : Pool S σ) where
  cond : Event S σ → Prop
  inv : σ → Prop
  rely : ℕ → σ → σ → Prop
  guar : ℕ → σ → (o : S.Op) → S.Res o → σ → Prop
  rely_refl : ∀ i s, rely i s s
  rely_trans : ∀ i {s₁ s₂ s₃}, rely i s₁ s₂ → rely i s₂ s₃ → rely i s₁ s₃
  /-- An operation that keeps its guarantee keeps the invariant and what the other
  threads rely on. -/
  act_ok : ∀ {c i s o r s'}, inv s → P.perform c i o s = some (r, s') → guar i s o r s' →
    inv s' ∧ ∀ j, j ≠ i → rely j s s'
  drift_ok : ∀ {c s s'}, inv s → P.drift c s = some s' → cond ⟨s, .drift, s'⟩ →
    inv s' ∧ ∀ i, rely i s s'
  reset_ok : ∀ {s}, inv s → inv (P.reset s)

namespace Outline
variable (O : Outline P) {α β : Type}

/-- From `s` on, whatever the other threads do within `rely`, every operation of
thread `i` keeps its guarantee, and `Q` holds when the process has finished. -/
def wp (i : ℕ) : Proc S α → (α → σ → Prop) → σ → Prop
  | .done a, Q, s => ∀ s', O.rely i s s' → O.inv s' → Q a s'
  | .ask o k, Q, s => ∀ s₁, O.rely i s s₁ → O.inv s₁ →
      ∀ c r s₂, P.perform c i o s₁ = some (r, s₂) → O.cond ⟨s₁, .act i o r, s₂⟩ →
        O.guar i s₁ o r s₂ ∧ wp i (k r) Q s₂

variable {O} {i : ℕ} {Q : α → σ → Prop} {R : β → σ → Prop}

/-- One operation: its guarantee, and what it leaves for the rest. -/
theorem wp_perform {o : S.Op} {R : S.Res o → σ → Prop} {s : σ}
    (h : ∀ s₁, O.rely i s s₁ → O.inv s₁ → ∀ c r s₂, P.perform c i o s₁ = some (r, s₂) →
      O.cond ⟨s₁, .act i o r, s₂⟩ → O.guar i s₁ o r s₂ ∧
        ∀ s₃, O.rely i s₂ s₃ → O.inv s₃ → R r s₃) :
    O.wp i (Proc.perform o) R s := h

/-- A precondition survives the steps of the other threads. -/
theorem wp_stable {p : Proc S α} {s s' : σ} (hr : O.rely i s s') (h : O.wp i p Q s) :
    O.wp i p Q s' := by
  cases p with
  | done a => exact fun s'' hr' => h s'' (O.rely_trans i hr hr')
  | ask o k => exact fun s₁ hr' => h s₁ (O.rely_trans i hr hr')

/-- To prove a precondition, the invariant may be assumed. -/
theorem wp_intro {p : Proc S α} {s : σ}
    (h : ∀ s', O.rely i s s' → O.inv s' → O.wp i p Q s') : O.wp i p Q s := by
  cases p with
  | done a => exact fun s' hr hi => h s' hr hi s' (O.rely_refl i s') hi
  | ask o k => exact fun s₁ hr hi => h s₁ hr hi s₁ (O.rely_refl i s₁) hi

theorem wp_mono {Q' : α → σ → Prop} {p : Proc S α} {s : σ} (h : O.wp i p Q s)
    (hQ : ∀ a s', O.inv s' → Q a s' → Q' a s') : O.wp i p Q' s := by
  induction p generalizing s with
  | done a => exact fun s' hr hi => hQ a s' hi (h s' hr hi)
  | ask o k ih =>
      intro s₁ hr hi c r s₂ hp hc
      exact ⟨(h s₁ hr hi c r s₂ hp hc).1, ih r (h s₁ hr hi c r s₂ hp hc).2⟩

/-- Sequencing: the first process establishes the precondition of the rest. -/
theorem wp_bind {p : Proc S α} {f : α → Proc S β} {s : σ}
    (h : O.wp i p (fun a s' => O.wp i (f a) R s') s) : O.wp i (p >>= f) R s := by
  induction p generalizing s with
  | done a => exact wp_intro h
  | ask o k ih =>
      intro s₁ hr hi c r s₂ hp hc
      exact ⟨(h s₁ hr hi c r s₂ hp hc).1, ih r (h s₁ hr hi c r s₂ hp hc).2⟩

/-- Sequencing of fallible processes: an error ends the sequence. -/
theorem wp_bindE {ε : Type} {p : Fallible S ε α} {f : α → Fallible S ε β} {s : σ}
    {R : Except ε β → σ → Prop}
    (h : O.wp i p.run (fun
      | .ok a => O.wp i (f a).run R
      | .error e => O.wp i (.done (.error e)) R) s) : O.wp i (p >>= f).run R s := by
  rw [ExceptT.run_bind]
  refine wp_bind (wp_mono h fun r s' _ hr => ?_)
  cases r with
  | ok a => exact hr
  | error e => exact hr

/-- The operations of a process keep their guarantee whatever the state: the case
of a guarantee about the operation alone. -/
theorem wp_of_uses {p : Proc S α} {U : S.Op → Prop} (hp : p.Uses U)
    (hU : ∀ {c s o r s'}, U o → O.inv s → P.perform c i o s = some (r, s') →
      O.cond ⟨s, .act i o r, s'⟩ → O.guar i s o r s') (s : σ) :
    O.wp i p (fun _ _ => True) s := by
  induction p generalizing s with
  | done a => exact fun _ _ _ => trivial
  | ask o k ih =>
      intro s₁ _ hi c r s₂ hperf hc
      exact ⟨hU hp.1 hi hperf hc, ih r (hp.2 r) s₂⟩

/-! ### Results

Most of a program asks nothing of the state but that what the thread relies on has
held since some moment.  Then all there is to say is what it returns. -/

/-- From `s₀` on the operations of `p` keep their guarantee and stay within the
thread's own `rely`, and the result of `p` is in `A`. -/
def Yields (O : Outline P) (i : ℕ) (s₀ : σ) (p : Proc S α) (A : α → Prop) : Prop :=
  ∀ s, O.rely i s₀ s → O.wp i p (fun a s' => O.rely i s₀ s' ∧ A a) s

/-- The same of what a fallible `p` returns when it does not fail. -/
def Returns {ε : Type} (O : Outline P) (i : ℕ) (s₀ : σ) (p : Fallible S ε α) (A : α → Prop) :
    Prop :=
  O.Yields i s₀ p.run fun r => ∀ a, r = .ok a → A a

section Results
variable {ε ε' : Type} {A : α → Prop} {B : β → Prop} {s₀ : σ}

theorem wp_of_yields {p : Proc S α} (h : O.Yields i s₀ p A) : O.wp i p (fun a _ => A a) s₀ :=
  wp_mono (h s₀ (O.rely_refl i s₀)) fun _ _ _ ha => ha.2

theorem yields_done {a : α} (h : A a) : O.Yields i s₀ (.done a) A :=
  fun _ hr _ hr' _ => ⟨O.rely_trans i hr hr', h⟩

theorem yields_perform {o : S.Op} {A : S.Res o → Prop}
    (h : ∀ c s r s', O.rely i s₀ s → O.inv s → P.perform c i o s = some (r, s') →
      O.cond ⟨s, .act i o r, s'⟩ → O.guar i s o r s' ∧ O.rely i s₀ s' ∧ A r) :
    O.Yields i s₀ (Proc.perform o) A := by
  intro s hr
  refine wp_perform fun s₁ hr₁ hi c r s₂ hp hc => ?_
  rcases h c s₁ r s₂ (O.rely_trans i hr hr₁) hi hp hc with ⟨hg, hr₂, ha⟩
  exact ⟨hg, fun s₃ hr₃ _ => ⟨O.rely_trans i hr₂ hr₃, ha⟩⟩

theorem yields_bind {p : Proc S α} {f : α → Proc S β} (hp : O.Yields i s₀ p A)
    (hf : ∀ a, A a → O.Yields i s₀ (f a) B) : O.Yields i s₀ (p >>= f) B :=
  fun s hr => wp_bind (wp_mono (hp s hr) fun a s' _ ha => hf a ha.2 s' ha.1)

theorem returns_pure {a : α} (h : A a) : O.Returns i s₀ (pure a : Fallible S ε α) A :=
  yields_done fun _ ha => (Except.ok.inj ha) ▸ h

theorem returns_throw {e : ε} : O.Returns i s₀ (throw e : Fallible S ε α) A :=
  yields_done fun _ ha => nomatch ha

theorem returns_bind {p : Fallible S ε α} {f : α → Fallible S ε β} (hp : O.Returns i s₀ p A)
    (hf : ∀ a, A a → O.Returns i s₀ (f a) B) : O.Returns i s₀ (p >>= f) B := by
  rw [Returns, ExceptT.run_bind]
  refine yields_bind hp fun r hr => ?_
  cases r with
  | ok a => exact hf a (hr a rfl)
  | error e => exact yields_done fun _ ha => nomatch ha

theorem returns_mapErr {f : ε → ε'} {p : Fallible S ε α} (h : O.Returns i s₀ p A) :
    O.Returns i s₀ (Fallible.mapErr f p) A := by
  refine yields_bind h fun r hr => yields_done fun a ha => ?_
  cases r with
  | ok b => exact hr a (congrArg Except.ok (Except.ok.inj ha))
  | error e => cases ha

theorem returns_lift {p : Proc S α} (h : O.Yields i s₀ p A) :
    O.Returns i s₀ (liftM p : Fallible S ε α) A :=
  yields_bind h fun _ ha => yields_done fun _ h => (Except.ok.inj h) ▸ ha

theorem returns_attempt {p : Fallible S ε α} (h : O.Returns i s₀ p A) :
    O.Returns i s₀ (Fallible.attempt p : Fallible S ε' (Except ε α))
      fun r => ∀ a, r = .ok a → A a :=
  returns_lift h

end Results

/-! ### Invariants

An invariant that every operation keeps by itself needs no `rely`. -/

/-- The outline of such an invariant. -/
def ofInvariant (cond : Event S σ → Prop) (inv : σ → Prop)
    (hdrift : ∀ c s s', inv s → P.drift c s = some s' → inv s')
    (hreset : ∀ s, inv s → inv (P.reset s)) : Outline P where
  cond := cond
  inv := inv
  rely _ _ _ := True
  guar _ _ _ _ s' := inv s'
  rely_refl _ _ := trivial
  rely_trans _ _ _ _ _ _ := trivial
  act_ok _ _ hg := ⟨hg, fun _ _ => trivial⟩
  drift_ok hi hd _ := ⟨hdrift _ _ _ hi hd, fun _ => trivial⟩
  reset_ok := hreset _

/-- What an outline establishes: the invariant at both ends of every event, and
the guarantee of every operation. -/
def Kept (O : Outline P) (e : Event S σ) : Prop :=
  O.inv e.pre ∧ O.inv e.post ∧
    match e.label with
    | .act i o r => O.guar i e.pre o r e.post
    | _ => True

/-- The threads of a configuration all satisfy their preconditions. -/
def Threads (O : Outline P) (c : Config S σ) : Prop :=
  ∀ i p, c.threads[i]? = some p → O.wp i p (fun _ _ => True) c.shared

theorem threads_step {c c' : Config S σ} {l : Label S} (hi : O.inv c.shared)
    (hboot : ∀ s ps, O.inv s → P.boots ps → O.Threads ⟨P.reset s, ps⟩)
    (hstart : ∀ s p j, O.inv s → P.starts p → O.wp j p (fun _ _ => True) s)
    (ht : O.Threads c) (hs : Step P c l c') (hc : O.cond ⟨c.shared, l, c'.shared⟩) :
    O.Kept ⟨c.shared, l, c'.shared⟩ ∧ O.Threads c' := by
  cases hs with
  | boot hb => exact ⟨⟨hi, O.reset_ok hi, trivial⟩, hboot _ _ hi hb⟩
  | @start s ts p hp =>
      refine ⟨⟨hi, hi, trivial⟩, fun j q hq => ?_⟩
      rw [List.getElem?_append] at hq
      split at hq
      · exact ht j q hq
      · have : q = p := by simpa using List.mem_of_getElem? hq
        exact this ▸ hstart s p j hi hp
  | @act s ts j o k r s' ch hj hp =>
      obtain ⟨hg, hk⟩ := ht j _ hj s (O.rely_refl j s) hi ch r s' hp hc
      obtain ⟨hi', hr⟩ := O.act_ok hi hp hg
      refine ⟨⟨hi, hi', hg⟩, fun n q hq => ?_⟩
      by_cases hn : n = j
      · subst hn
        rw [List.getElem?_set_self (by
          exact (List.getElem?_eq_some_iff.mp hj).1)] at hq
        exact (Option.some.inj hq) ▸ hk
      · rw [List.getElem?_set_ne (Ne.symm hn)] at hq
        exact wp_stable (hr n hn) (ht n q hq)
  | drift ch hd =>
      obtain ⟨hi', hr⟩ := O.drift_ok hi hd hc
      exact ⟨⟨hi, hi', trivial⟩, fun n q hq => wp_stable (hr n) (ht n q hq)⟩

/-- **Soundness.**  If every program that can be booted or started satisfies its
precondition, every event of every run within `cond` keeps the outline. -/
theorem sound {c₀ c : Config S σ} {hist : List (Event S σ)} (r : Run P c₀ hist c)
    (hboot : ∀ s ps, O.inv s → P.boots ps → O.Threads ⟨P.reset s, ps⟩)
    (hstart : ∀ s p j, O.inv s → P.starts p → O.wp j p (fun _ _ => True) s)
    (hi : O.inv c₀.shared) (ht : O.Threads c₀) (hc : ∀ e ∈ hist, O.cond e) :
    O.inv c.shared ∧ O.Threads c ∧ ∀ e ∈ hist, O.Kept e := by
  induction r with
  | nil => exact ⟨hi, ht, by simp⟩
  | @snoc hist c l c' _ hs ih =>
      obtain ⟨hi', ht', hk⟩ := ih fun e he => hc e (by simp [he])
      obtain ⟨hk', ht''⟩ := threads_step hi' hboot hstart ht' hs (hc _ (by simp))
      refine ⟨hk'.2.1, ht'', fun e he => ?_⟩
      rcases List.mem_append.mp he with he | he
      · exact hk e he
      · exact (List.mem_singleton.mp he) ▸ hk'

/-- Soundness for programs whose preconditions hold in every state. -/
theorem sound_of_programs {c₀ c : Config S σ} {hist : List (Event S σ)} (r : Run P c₀ hist c)
    (hboot : ∀ ps, P.boots ps → ∀ p ∈ ps, ∀ i s, O.wp i p (fun _ _ => True) s)
    (hstart : ∀ p, P.starts p → ∀ i s, O.wp i p (fun _ _ => True) s) (hi : O.inv c₀.shared)
    (ht : c₀.threads = []) (hc : ∀ e ∈ hist, O.cond e) :
    O.inv c.shared ∧ ∀ e ∈ hist, O.Kept e := by
  have hnone : O.Threads c₀ := by
    intro i p hp
    simp [ht] at hp
  have hsound := sound r
    (fun s ps _ hb i p hp => hboot ps hb p (List.mem_of_getElem? hp) i (P.reset s))
    (fun s p j _ hp => hstart p hp j s) hi hnone hc
  exact ⟨hsound.1, hsound.2.2⟩

end Outline
end Pool
end Companion.Lib
