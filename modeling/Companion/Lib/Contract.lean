import Companion.Lib.Pool

/-!
# Contracts about what a thread knows

`Proc.UsesAfter` bounds what a process asks for by its notes of the answers so far.  A
contract says in addition what the notes are when the process has finished.  So contracts
compose: the notes at the end of one part are those at the start of the next, and a
thread that has finished can be told from one that has not by what it must have noted.

## Main definitions

* `Proc.Keeps` — the contract of a process, from given notes on.
* `Proc.Stays` — a process that keeps a condition on the notes.
* `Pool.Contracted`, `Pool.Run.threads_keep` — in a run every thread keeps its contract.
-/

set_option autoImplicit false

namespace Companion.Lib

variable {S : Signature} {α β : Type} {μ : Type}

namespace Proc
variable (note : μ → (o : S.Op) → S.Res o → μ) (Q : μ → S.Op → Prop)

/-- From the notes `m` on, `p` asks only for what `Q` allows, and finishes within `R`. -/
def Keeps : Proc S α → μ → (α → μ → Prop) → Prop
  | done a, m, R => R a m
  | ask o k, m, R => Q m o ∧ ∀ r, (k r).Keeps (note m o r) R

/-- From all notes in `I` on, `p` asks only for what `Q` allows, and finishes in `I`. -/
def Stays (I : μ → Prop) (p : Proc S α) : Prop :=
  ∀ m, I m → p.Keeps note Q m fun _ m' => I m'

variable {note Q} {m : μ} {I : μ → Prop}

theorem Keeps.mono {p : Proc S α} {R R' : α → μ → Prop} (h : p.Keeps note Q m R)
    (hR : ∀ a m', R a m' → R' a m') : p.Keeps note Q m R' := by
  induction p generalizing m with
  | done a => exact hR a m h
  | ask o k ih => exact ⟨h.1, fun r => ih r (h.2 r)⟩

theorem keeps_bind {p : Proc S α} {f : α → Proc S β} {R : β → μ → Prop}
    (h : p.Keeps note Q m fun a m' => (f a).Keeps note Q m' R) :
    (p >>= f).Keeps note Q m R := by
  induction p generalizing m with
  | done a => exact h
  | ask o k ih => exact ⟨h.1, fun r => ih r (h.2 r)⟩

theorem stays_done (a : α) : (done a).Stays note Q I := fun _ hm => hm

theorem stays_bind {p : Proc S α} {f : α → Proc S β} (hp : p.Stays note Q I)
    (hf : ∀ a, (f a).Stays note Q I) : (p >>= f).Stays note Q I := by
  intro m hm
  apply keeps_bind
  exact (hp m hm).mono fun a m' hm' => hf a m' hm'

/-- Operations that keep the condition make a process that does. -/
theorem stays_of_uses {P : S.Op → Prop} {p : Proc S α} (hp : p.Uses P)
    (hstep : ∀ m o, P o → I m → Q m o ∧ ∀ r, I (note m o r)) : p.Stays note Q I := by
  intro m hm
  induction p generalizing m with
  | done a => exact hm
  | ask o k ih =>
    obtain ⟨ho, hnext⟩ := hstep m o hp.1 hm
    exact ⟨ho, fun r => ih r (hp.2 r) _ (hnext r)⟩

end Proc

/-! ## Programs that can fail -/

namespace Fallible
variable {note : μ → (o : S.Op) → S.Res o → μ} {Q : μ → S.Op → Prop} {m : μ} {I : μ → Prop}
  {ε ε' : Type}

/-- Sequencing: an error ends the sequence. -/
theorem keeps_bind {p : Fallible S ε α} {f : α → Fallible S ε β} {R : Except ε β → μ → Prop}
    (h : p.run.Keeps note Q m fun
      | .ok a, m' => (f a).run.Keeps note Q m' R
      | .error e, m' => R (.error e) m') : (p >>= f).run.Keeps note Q m R := by
  rw [ExceptT.run_bind]
  apply Proc.keeps_bind
  refine h.mono fun r m' hr => ?_
  cases r with
  | ok a => exact hr
  | error e => exact hr

theorem keeps_mapErr {g : ε → ε'} {p : Fallible S ε α} {R : Except ε' α → μ → Prop}
    (h : p.run.Keeps note Q m fun r m' => R (r.mapError g) m') :
    (mapErr g p).run.Keeps note Q m R :=
  Proc.keeps_bind h

theorem stays_bind {p : Fallible S ε α} {f : α → Fallible S ε β} (hp : p.run.Stays note Q I)
    (hf : ∀ a, (f a).run.Stays note Q I) : (p >>= f).run.Stays note Q I := by
  rw [ExceptT.run_bind]
  refine Proc.stays_bind hp fun r => ?_
  cases r with
  | ok a => exact hf a
  | error e => exact Proc.stays_done _

theorem stays_lift {p : Proc S α} (hp : p.Stays note Q I) :
    (liftM p : Fallible S ε α).run.Stays note Q I :=
  Proc.stays_bind hp fun a => Proc.stays_done (Except.ok a)

theorem stays_attempt {p : Fallible S ε α} (hp : p.run.Stays note Q I) :
    (attempt p : Fallible S ε' (Except ε α)).run.Stays note Q I :=
  stays_lift hp

end Fallible

/-! ## Runs -/

namespace Pool
variable {σ : Type} {P : Pool S σ} {note : μ → (o : S.Op) → S.Res o → μ} {m₀ : μ}
  {Q : μ → S.Op → Prop} {R : μ → Prop} {c₀ c : Config S σ} {hist : List (Event S σ)}

/-- Everything that runs in the pool, or is running at `c₀`, keeps the contract. -/
structure Contracted (P : Pool S σ) (note : μ → (o : S.Op) → S.Res o → μ) (m₀ : μ)
    (Q : μ → S.Op → Prop) (R : μ → Prop) (c₀ : Config S σ) : Prop where
  boots : ∀ ps, P.boots ps → ∀ p ∈ ps, p.Keeps note Q m₀ fun _ => R
  starts : ∀ p, P.starts p → p.Keeps note Q m₀ fun _ => R
  threads : ∀ p ∈ c₀.threads, p.Keeps note Q m₀ fun _ => R

/-- Every thread of a run keeps the contract from the notes it has taken. -/
theorem Run.threads_keep (h : P.Contracted note m₀ Q R c₀) (run : Run P c₀ hist c) :
    ∀ i (p : Proc S Unit), c.threads[i]? = some p →
      p.Keeps note Q (memory note m₀ i hist) fun _ => R :=
  (run.threads_after (T := fun m p => p.Keeps note Q m fun _ => R) (fun _ _ _ h => h.2)
    h.boots h.starts h.threads).1

/-- What a thread asks for is what its contract allows. -/
theorem Run.act_keeps (h : P.Contracted note m₀ Q R c₀) (run : Run P c₀ hist c)
    {before after : List (Event S σ)} {e : Event S σ} (hhist : hist = before ++ e :: after)
    {i : ℕ} {o : S.Op} {r : S.Res o} (he : e.label = .act i o r) :
    Q (memory note m₀ i before) o := by
  obtain ⟨c₁, c₂, run₁, hstep, -⟩ := run.split hhist
  rw [he] at hstep
  cases hstep with
  | act ch hi hp => exact (run₁.threads_keep h i _ hi).1

/-! ### One thread -/

/-- Until the next boot a thread keeps its own contract, whatever the others keep to. -/
theorem Run.thread_keeps (run : Run P c₀ hist c)
    (hboot : ∀ e ∈ hist, e.label.isBoot = false) {i : ℕ} {p : Proc S Unit}
    (hp : c₀.threads[i]? = some p) (hk : p.Keeps note Q m₀ fun _ => R) :
    ∃ q, c.threads[i]? = some q ∧ q.Keeps note Q (memory note m₀ i hist) fun _ => R := by
  induction run with
  | nil => exact ⟨p, hp, hk⟩
  | @snoc hist c l c' _ hs ih =>
    obtain ⟨q, hq, hkq⟩ := ih fun e he => hboot e (List.mem_append_left _ he)
    have hlast := hboot ⟨c.shared, l, c'.shared⟩ (List.mem_append_right _ (by simp))
    have hlt := (List.getElem?_eq_some_iff.mp hq).1
    simp only [memory_append]
    cases hs with
    | boot hb => cases hlast
    | start hstart => exact ⟨q, (List.getElem?_append_left hlt).trans hq, hkq⟩
    | drift ch hd => exact ⟨q, hq, hkq⟩
    | @act s ts j o k r s' ch hj hperf =>
      by_cases hij : j = i
      · subst hij
        rw [hj] at hq
        cases hq
        exact ⟨k r, List.getElem?_set_self hlt, by simpa using hkq.2 r⟩
      · exact ⟨q, (List.getElem?_set_ne hij).trans hq, by simpa [hij] using hkq⟩

theorem Run.thread_act_keeps (run : Run P c₀ hist c)
    (hboot : ∀ e ∈ hist, e.label.isBoot = false) {i : ℕ} {p : Proc S Unit}
    (hp : c₀.threads[i]? = some p) (hk : p.Keeps note Q m₀ fun _ => R)
    {before after : List (Event S σ)} {e : Event S σ} (hhist : hist = before ++ e :: after)
    {o : S.Op} {r : S.Res o} (he : e.label = .act i o r) :
    Q (memory note m₀ i before) o := by
  obtain ⟨c₁, c₂, run₁, hstep, -⟩ := run.split hhist
  obtain ⟨q, hq, hkq⟩ := run₁.thread_keeps
    (fun e' he' => hboot e' (by simp [hhist, he'])) hp hk
  rw [he] at hstep
  cases hstep with
  | act ch hi hperf =>
    rw [hi] at hq
    cases hq
    exact hkq.1

end Pool
end Companion.Lib
