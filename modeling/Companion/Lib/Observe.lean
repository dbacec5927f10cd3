import Companion.Lib.Pool

/-!
# Observers

A process that only asks questions about the shared state disturbs nothing, so it need not
be a thread.  It sees one state of the run with every question, later and later ones, and
what it concludes is about several moments.  A fact that stays true once it is true carries
from one of them to the next.

## Main definitions

* `Proc.Observes` — a process answered by states of a list, in order.
* `Proc.Watches` — how far a process has come that is answered so.
* `trace` — the states of a run.
* `Run.moment` — the run up to one of them, and from there on.
-/

set_option autoImplicit false

namespace Companion.Lib

variable {S S' : Signature} {σ α β : Type}

/-- The process ends with `a`, asking at states of the list, none earlier than the last. -/
inductive Proc.Observes (ans : (o : S.Op) → σ → S.Res o → Prop) :
    List σ → Proc S α → α → Prop
  | done {ss : List σ} {a : α} : Observes ans ss (.done a) a
  | ask {before after : List σ} {s : σ} {o : S.Op} {k : S.Res o → Proc S α} {r : S.Res o} {a : α} :
      ans o s r → Observes ans (s :: after) (k r) a →
        Observes ans (before ++ s :: after) (.ask o k) a

namespace Proc
variable {ans : (o : S.Op) → σ → S.Res o → Prop} {before ss after : List σ} {s : σ} {a : α}

/-- A question asked of the first state. -/
theorem Observes.now {o : S.Op} {k : S.Res o → Proc S α} {r : S.Res o} (h : ans o s r)
    (hk : Observes ans (s :: after) (k r) a) : Observes ans (s :: after) (.ask o k) a :=
  @Observes.ask _ _ _ ans [] after s o k r a h hk

/-- A process may wait before it asks. -/
theorem Observes.later {p : Proc S α} (h : Observes ans ss p a) (before : List σ) :
    Observes ans (before ++ ss) p a := by
  cases h with
  | done => exact .done
  | ask hans hk =>
    rw [← List.append_assoc]
    exact .ask hans hk

theorem observes_done {b : α} (h : Observes ans ss (.done a) b) : b = a := by
  cases h
  rfl

theorem observes_done_iff {b : α} : Observes ans ss (.done a) b ↔ b = a := by
  constructor
  · exact observes_done
  · rintro rfl
    exact .done

/-- A question and what follows it. -/
theorem observes_ask {o : S.Op} {k : S.Res o → Proc S α} (h : Observes ans ss (.ask o k) a) :
    ∃ before s after r, ss = before ++ s :: after ∧ ans o s r ∧
      Observes ans (s :: after) (k r) a := by
  cases h with
  | ask hans hk => exact ⟨_, _, _, _, rfl, hans, hk⟩

/-- One question, and an answer made of what is found. -/
theorem observes_ask_done {β : Type} {o : S.Op} {g : S.Res o → β} {b : β} :
    Observes ans ss (.ask o fun r => .done (g r)) b ↔ ∃ s ∈ ss, ∃ r, ans o s r ∧ b = g r := by
  constructor
  · intro h
    obtain ⟨before, s, after, r, rfl, hans, hk⟩ := observes_ask h
    exact ⟨s, by simp, r, hans, observes_done hk⟩
  · rintro ⟨s, hs, r, hans, rfl⟩
    obtain ⟨before, after, rfl⟩ := List.append_of_mem hs
    exact .ask hans .done

/-! ## An observer on its way -/

/-- Having asked at states before `s`, the process `p` is now `q`: what it concludes from here
on, it concludes from the start. -/
def Watches (ans : (o : S.Op) → σ → S.Res o → Prop) (before : List σ) (s : σ)
    (p q : Proc S α) : Prop :=
  ∀ after a, Observes ans (s :: after) q a → Observes ans (before ++ s :: after) p a

theorem watches_start (before : List σ) (s : σ) (p : Proc S α) : Watches ans before s p p :=
  fun _ _ h => h.later before

/-- It may let the next state come. -/
theorem Watches.wait {p q : Proc S α} (h : Watches ans before s p q) (s' : σ) :
    Watches ans (before ++ [s]) s' p q := by
  intro after a hq
  rw [List.append_assoc]
  exact h (s' :: after) a (hq.later [s])

theorem Watches.ask {p : Proc S α} {o : S.Op} {k : S.Res o → Proc S α} {r : S.Res o}
    (h : Watches ans before s p (.ask o k)) (hans : ans o s r) (s' : σ) :
    Watches ans (before ++ [s]) s' p (k r) := by
  intro after a hk
  rw [List.append_assoc]
  exact h (s' :: after) a (.now hans (hk.later [s]))

/-- When it has come to its end it has observed what it concludes. -/
theorem Watches.done {p : Proc S α} (h : Watches ans before s p (.done a)) :
    Observes ans (before ++ [s]) p a := h [] a .done

end Proc

namespace Pool

/-- The states of a run that starts in `s`. -/
def trace (s : σ) (hist : List (Event S σ)) : List σ := s :: hist.map Event.post

variable {P : Pool S σ} {c₀ c : Config S σ} {hist : List (Event S σ)}

theorem trace_append (s : σ) (hist : List (Event S σ)) (e : Event S σ) :
    trace s (hist ++ [e]) = trace s hist ++ [e.post] := by
  simp [trace]

/-- A run ends in the last of its states. -/
theorem Run.end_mem_trace (run : Run P c₀ hist c) : c.shared ∈ trace c₀.shared hist := by
  cases run with
  | nil => exact List.mem_cons_self
  | snoc _ _ =>
    rw [trace_append]
    exact List.mem_append_right _ (List.mem_singleton_self _)

/-- A run from one of its states on: what went before, and what came after. -/
theorem Run.moment (run : Run P c₀ hist c) {before after : List σ} {s : σ}
    (h : trace c₀.shared hist = before ++ s :: after) :
    ∃ hist₁ c₁ hist₂, Run P c₀ hist₁ c₁ ∧ Run P c₁ hist₂ c ∧ c₁.shared = s ∧
      trace s hist₂ = s :: after := by
  induction run generalizing after with
  | nil =>
    have hone : before = [] ∧ s = c₀.shared ∧ after = [] := by
      cases before with
      | nil => simpa [trace, eq_comm] using h
      | cons x before => simp [trace] at h
    obtain ⟨rfl, rfl, rfl⟩ := hone
    exact ⟨[], c₀, [], .nil, .nil, rfl, rfl⟩
  | @snoc hist c l c' run hs ih =>
    rw [trace_append] at h
    rcases List.eq_nil_or_concat after with rfl | ⟨after, last, rfl⟩
    · obtain ⟨-, rfl⟩ := List.append_singleton_inj.mp h
      exact ⟨_, c', [], run.snoc hs, .nil, rfl, rfl⟩
    · rw [List.concat_eq_append, ← List.cons_append, ← List.append_assoc] at h
      obtain ⟨hpast, rfl⟩ := List.append_singleton_inj.mp h
      obtain ⟨hist₁, c₁, hist₂, run₁, run₂, hshared, htrace⟩ := ih hpast
      refine ⟨hist₁, c₁, hist₂ ++ [⟨c.shared, l, c'.shared⟩], run₁, run₂.snoc hs, hshared, ?_⟩
      rw [trace_append, htrace, List.concat_eq_append, List.cons_append]

end Pool
end Companion.Lib
