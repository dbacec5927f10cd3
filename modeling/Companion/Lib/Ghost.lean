import Companion.Lib.Pool

/-!
# Ghost state

A bound on how often something happens in a run is not a property of the states of the
pool.  It becomes one when the state is given a ghost component that counts: it is updated
by the operations and never read by them, so every run of the pool is one of the pool with
the ghost, and an outline may speak of both.

## Main definitions

* `Ghost` — how a ghost follows the operations and the boots.
* `Pool.ghost`, `Ghost.after` — the pool with the ghost, and the ghost after a history.
* `Run.ghost` — every run carries the ghost.
* `Outline.sound_ghost` — an outline of the pool with the ghost, read on a run without it.
-/

set_option autoImplicit false

namespace Companion.Lib.Pool

variable {S : Signature} {σ γ : Type} {P : Pool S σ}

/-- How a ghost follows what happens. -/
structure Ghost (S : Signature) (γ : Type) where
  act : γ → ℕ → (o : S.Op) → S.Res o → γ
  boot : γ → γ

/-- The ghost after one more event. -/
def Ghost.next (G : Ghost S γ) (g : γ) (e : Event S σ) : γ :=
  match e.label with
  | .boot _ => G.boot g
  | .act i o r => G.act g i o r
  | .start _ | .drift => g

/-- The ghost after a history. -/
def Ghost.after (G : Ghost S γ) (g : γ) (hist : List (Event S σ)) : γ := hist.foldl G.next g

/-- The pool that carries the ghost along. -/
def ghost (P : Pool S σ) (G : Ghost S γ) : Pool S (σ × γ) where
  Choice := P.Choice
  perform ch i o x := (P.perform ch i o x.1).map fun (r, s) => (r, s, G.act x.2 i o r)
  drift ch x := (P.drift ch x.1).map fun s => (s, x.2)
  reset x := (P.reset x.1, G.boot x.2)
  boots := P.boots
  starts := P.starts

/-- The event as it is without the ghost. -/
def Event.plain (e : Event S (σ × γ)) : Event S σ := ⟨e.pre.1, e.label, e.post.1⟩

variable {G : Ghost S γ}

theorem ghost_perform {ch : P.Choice} {i : ℕ} {o : S.Op} {r : S.Res o} {x x' : σ × γ}
    (h : (P.ghost G).perform ch i o x = some (r, x')) :
    P.perform ch i o x.1 = some (r, x'.1) ∧ x'.2 = G.act x.2 i o r := by
  obtain ⟨⟨r', s⟩, hp, he⟩ := Option.map_eq_some_iff.mp h
  cases he
  exact ⟨hp, rfl⟩

theorem ghost_drift {ch : P.Choice} {x x' : σ × γ} (h : (P.ghost G).drift ch x = some x') :
    P.drift ch x.1 = some x'.1 ∧ x'.2 = x.2 := by
  obtain ⟨s, hd, rfl⟩ := Option.map_eq_some_iff.mp h
  exact ⟨hd, rfl⟩

/-- A step of the pool is one of the pool with the ghost, whatever the ghost is. -/
theorem Step.ghost {c c' : Config S σ} {l : Label S} (h : Step P c l c') (g : γ) :
    Step (P.ghost G) ⟨(c.shared, g), c.threads⟩ l
      ⟨(c'.shared, G.next g ⟨c.shared, l, c'.shared⟩), c'.threads⟩ := by
  cases h with
  | boot hb => exact Step.boot (P := P.ghost G) hb
  | start hp => exact Step.start (P := P.ghost G) hp
  | act ch hi hp => exact Step.act (P := P.ghost G) ch hi (by simp [Pool.ghost, hp, Ghost.next])
  | drift ch hd => exact Step.drift (P := P.ghost G) ch (by simp [Pool.ghost, hd, Ghost.next])

/-- Every run carries the ghost. -/
theorem Run.ghost {c₀ c : Config S σ} {hist : List (Event S σ)} (run : Run P c₀ hist c) (g : γ) :
    ∃ hist', Run (P.ghost G) ⟨(c₀.shared, g), c₀.threads⟩ hist'
        ⟨(c.shared, G.after g hist), c.threads⟩ ∧ hist'.map Event.plain = hist := by
  induction run with
  | nil => exact ⟨[], .nil, rfl⟩
  | @snoc hist c l c' _ hs ih =>
    obtain ⟨hist', run', hplain⟩ := ih
    have hafter : G.after g (hist ++ [⟨c.shared, l, c'.shared⟩]) =
        G.next (G.after g hist) ⟨c.shared, l, c'.shared⟩ := by
      simp [Ghost.after]
    rw [hafter]
    exact ⟨_, run'.snoc (hs.ghost (G.after g hist)), by simp [hplain, Event.plain]⟩

/-- An outline of the pool with the ghost holds of the runs without it. -/
theorem Outline.sound_ghost {O : Outline (P.ghost G)} {C : Event S σ → Prop}
    (hcond : ∀ e, C e.plain → O.cond e) {c₀ c : Config S σ} {hist : List (Event S σ)}
    (run : Run P c₀ hist c) (g : γ)
    (hboot : ∀ x ps, O.inv x → P.boots ps → O.Threads ⟨(P.ghost G).reset x, ps⟩)
    (hstart : ∀ x p j, O.inv x → P.starts p → O.wp j p (fun _ _ => True) x)
    (hinv : O.inv (c₀.shared, g)) (ht : O.Threads ⟨(c₀.shared, g), c₀.threads⟩)
    (hC : ∀ e ∈ hist, C e) : O.inv (c.shared, G.after g hist) := by
  obtain ⟨hist', run', rfl⟩ := run.ghost (G := G) g
  refine (Outline.sound run' hboot hstart hinv ht fun e he => hcond e ?_).1
  exact hC _ (List.mem_map_of_mem he)

end Companion.Lib.Pool
